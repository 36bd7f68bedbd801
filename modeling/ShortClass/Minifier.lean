import ShortClass.Pattern
import ShortClass.Program.Parse
import ShortClass.Program.Rename
import ShortClass.Stylesheet

/-!
The minifier: programs are analysed, then the classes of a stylesheet are given names, and then they
are renamed in any number of stylesheets and programs.

Names are tried one after the other, and excluded ones are passed over. Nothing bounds how many that
may be, so whoever asks for names says how many are tried at most for one class.
-/

namespace ShortClass

structure Minifier where
  exclude : List Pattern := []
  usage : Usage := {}
  classMap : ClassMap := {}
  alphabet : Alphabet := {}
  next : Nat := 0

inductive SetupError where
  | pattern (e : PatternError)
  | excludeTwice

def SetupError.message : SetupError → String
  | pattern e => e.message
  | excludeTwice => "Pass exclude patterns via options or keyword, not both"

inductive ExtractError where
  | sheet (e : StylesheetError)
  | assign (e : AssignError)
  | outOfNames

namespace Alphabet

/-- The first name from number `i` on that is not refused, and the number after it. -/
def nextName? (a : Alphabet) (isRefused : ClassName → Bool) : Nat → Nat → Option (ClassName × Nat)
  | 0, _ => none
  | tries + 1, i =>
    if isRefused (a.name i) then a.nextName? isRefused tries (i + 1) else some (a.name i, i + 1)

theorem nextName?_eq_some {a : Alphabet} {isRefused : ClassName → Bool} {tries i j : Nat} {n : ClassName}
    (h : a.nextName? isRefused tries i = some (n, j)) :
    i < j ∧ n = a.name (j - 1) ∧ isRefused n = false ∧
      ∀ k, i ≤ k → k < j - 1 → isRefused (a.name k) = true := by
  induction tries generalizing i with
  | zero => simp [nextName?] at h
  | succ tries ih =>
    unfold nextName? at h
    split at h
    · next hi =>
      obtain ⟨hlt, hn, hr, hk⟩ := ih h
      refine ⟨by omega, hn, hr, fun k hik hkj => ?_⟩
      rcases Nat.lt_or_eq_of_le hik with hik | rfl
      · exact hk k hik hkj
      · exact hi
    · next hi =>
      obtain ⟨rfl, rfl⟩ : a.name i = n ∧ i + 1 = j := by simpa using h
      exact ⟨by omega, rfl, by simpa using hi, by omega⟩

end Alphabet

namespace Minifier

def ofPatterns (options : Option (List (List Char))) (exclude : List (List Char)) :
    Except SetupError Minifier := do
  let patterns ← ((options.getD exclude).mapM Pattern.compile).mapError .pattern
  if options.isSome && !exclude.isEmpty then throw .excludeTwice
  return { exclude := patterns }

def isExcluded (m : Minifier) (c : ClassName) : Bool :=
  m.exclude.any (·.occursIn c) || m.usage.isBuilt (Text.ofChars c)

def analyze? (m : Minifier) (program : List Char) : Option Minifier :=
  (Program.parse? program).map fun p => { m with usage := m.usage.recordProgram p }

def analyze (m : Minifier) (program : List Char) : Minifier := (m.analyze? program).getD m

def byUse (m : Minifier) (cs : List ClassName) : List ClassName :=
  cs.mergeSort fun c d => m.usage.count (Text.ofChars d) ≤ m.usage.count (Text.ofChars c)

def allocate (tries : Nat) (m : Minifier) (c : ClassName) : Except ExtractError Minifier :=
  if m.isExcluded c then do
    return { m with classMap := ← (m.classMap.assign c c).mapError .assign }
  else
    match m.alphabet.nextName? m.isExcluded tries m.next with
    | none => throw .outOfNames
    | some (name, next) => do
      return { m with classMap := ← (m.classMap.assign c name).mapError .assign, next }

/-- The minifier before any class has a name, with its alphabet sorted for the given classes. -/
def prepared (m : Minifier) (cs : List ClassName) : Minifier :=
  let alphabet := cs.foldl (fun a c => a.record (Text.ofChars c) 1) m.alphabet.reset
  { m with alphabet := alphabet.sort, classMap := {}, next := 0 }

def extract (tries : Nat) (m : Minifier) (css : List Char) : Except ExtractError Minifier := do
  let cs ← (Stylesheet.classes css).mapError .sheet
  (m.byUse cs.eraseDups).foldlM (allocate tries) (m.prepared cs)

def newName? (m : Minifier) (c : ClassName) : Option ClassName :=
  if m.isExcluded c || !m.classMap.isRenamed c then none else some (m.classMap.rename c)

def renameSheet (m : Minifier) (css : List Char) : Except Stylesheet.RenameError (List Char) :=
  Stylesheet.renameClasses m.newName? css

def renameProgram (m : Minifier) (p : Program) : Except EditError (List Char) :=
  p.rename m.classMap.lookup

end Minifier

end ShortClass
