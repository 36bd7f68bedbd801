namespace ShortClass.Program

inductive Kind where
  | string
  | template
  | substitution
  | identifier
  | parenthesized
  | sum
  | sumAssignment
  | pair
  | markupAttribute
  | call
  | arguments
  | importWord
  | expressionStatement
  | importStatement
  | exportStatement
  | member
  | object
  | array
  | parameters
  | assignment
  | spread
  | shorthandDefault
  | other
  deriving DecidableEq

inductive Node where
  | mk (kind : Kind) (start stop : Nat) (children : List Node)

namespace Node

def kind : Node → Kind
  | mk k _ _ _ => k

def start : Node → Nat
  | mk _ s _ _ => s

def stop : Node → Nat
  | mk _ _ e _ => e

def children : Node → List Node
  | mk _ _ _ cs => cs

def withKind (k : Kind) : Node → Node
  | mk _ s e cs => mk k s e cs

mutual

def decEq : (m n : Node) → Decidable (m = n)
  | mk k s e cs, mk k' s' e' cs' =>
    match decEqAll cs cs' with
    | isTrue h => decidable_of_iff (k = k' ∧ s = s' ∧ e = e') (by simp [h])
    | isFalse h => isFalse (by simp [h])

def decEqAll : (ms ns : List Node) → Decidable (ms = ns)
  | [], [] => isTrue rfl
  | [], _ :: _ => isFalse (by simp)
  | _ :: _, [] => isFalse (by simp)
  | m :: ms, n :: ns =>
    match decEq m n, decEqAll ms ns with
    | isTrue h, isTrue hs => isTrue (by rw [h, hs])
    | isFalse h, _ => isFalse (by simp [h])
    | _, isFalse hs => isFalse (by simp [hs])

end

instance : DecidableEq Node := decEq

mutual

def isPattern : Node → Bool
  | mk .identifier _ _ _ => true
  | mk .member _ _ _ => true
  | mk .parenthesized _ _ _ => true
  | mk .assignment _ _ _ => true
  | mk .shorthandDefault _ _ _ => true
  | mk .object _ _ cs => arePatterns cs
  | mk .array _ _ cs => arePatterns cs
  | mk .spread _ _ cs => arePatterns cs
  | mk .pair _ _ [_, v] => v.isPattern
  | _ => false

def arePatterns : List Node → Bool
  | [] => true
  | n :: ns => n.isPattern && arePatterns ns

end

def isParameter (n : Node) : Bool := n.kind ≠ .member && n.kind ≠ .parenthesized && n.isPattern

mutual

def hasKind (k : Kind) : Node → Bool
  | mk k' _ _ cs => k' = k || anyHasKind k cs

def anyHasKind (k : Kind) : List Node → Bool
  | [] => false
  | n :: ns => n.hasKind k || anyHasKind k ns

/-- The same tree where an expression turns out to be a pattern: its pairs bind their values. -/
def toPattern : Node → Node
  | mk .object s e cs => mk .other s e (toPatterns cs)
  | mk .array s e cs => mk .other s e (toPatterns cs)
  | mk .pair s e cs => mk .other s e (toPatterns cs)
  | mk .shorthandDefault s e cs => mk .other s e cs
  | n => n

def toPatterns : List Node → List Node
  | [] => []
  | n :: ns => n.toPattern :: toPatterns ns

end

end Node

end ShortClass.Program
