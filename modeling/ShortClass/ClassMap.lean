import ShortClass.Alphabet
import ShortClass.Text.Quoted

namespace ShortClass

structure ClassMap where
  entries : List (ClassName × ClassName) := []
  taken : List ClassName := []

inductive AssignError where
  | mapped (name current : ClassName)
  | allocated (name : ClassName)

def AssignError.message : AssignError → String
  | mapped name current =>
    s!"Class {Quoted.toString name} is already mapped to {Quoted.toString current}"
  | allocated name => s!"Name {Quoted.toString name} was already allocated"

namespace ClassMap

def get? (m : ClassMap) (c : ClassName) : Option ClassName := m.entries.lookup c

def contains (m : ClassMap) (c : ClassName) : Bool := (m.get? c).isSome

def rename (m : ClassMap) (c : ClassName) : ClassName := (m.get? c).getD c

def isRenamed (m : ClassMap) (c : ClassName) : Bool := (m.get? c).any (· != c)

def keys (m : ClassMap) : List ClassName := m.entries.map Prod.fst

def size (m : ClassMap) : Nat := m.entries.length

/-- Adds an entry. A class has one entry, and a name other than the class itself is given once. -/
def assign (m : ClassMap) (c name : ClassName) : Except AssignError ClassMap :=
  match m.get? c with
  | some current => .error (.mapped c current)
  | none =>
    if c = name then .ok { m with entries := m.entries ++ [(c, name)] }
    else if m.taken.contains name then .error (.allocated name)
    else .ok ⟨m.entries ++ [(c, name)], m.taken ++ [name]⟩

def clear (_ : ClassMap) : ClassMap := {}

def lookup (m : ClassMap) (t : Text) : Option Text := (t.toChars?.bind m.get?).map Text.ofChars

def toString (m : ClassMap) : String :=
  let entry (e : ClassName × ClassName) := s!"{Quoted.toString e.1}: {Quoted.toString e.2}"
  "ClassMap(\x7b" ++ ", ".intercalate (m.entries.map entry) ++ "\x7d)"

end ClassMap

end ShortClass
