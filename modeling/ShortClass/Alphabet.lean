import ShortClass.Text.CodePoint

/-!
Short names over an alphabet ordered by how often its characters occur.

A name starts with a leading character and goes on with any character of the alphabet. Names are
numbered: the 53 names of one character come first, then the 53 * 64 names of two, and within a length
the first character varies fastest. The order of the alphabet is free, so that frequent characters can
be given the low numbers.
-/

namespace ShortClass

abbrev ClassName := List Char

namespace Alphabet

def baseLeading : List Char := "abcdefghijklmnopqrstuvwxyzABCDEFGHIJKLMNOPQRSTUVWXYZ_".toList

def baseFollowing : List Char := "0123456789-".toList

def base : List Char := baseLeading ++ baseFollowing

def zeroCounts : List (Char × Int) := base.map (·, 0)

end Alphabet

structure Alphabet where
  leading : List Char := Alphabet.baseLeading
  all : List Char := Alphabet.base
  counts : List (Char × Int) := Alphabet.zeroCounts

namespace Alphabet

def reset (a : Alphabet) : Alphabet := { a with counts := zeroCounts }

def record (a : Alphabet) (text : Text) (weight : Int) : Alphabet :=
  { a with counts := a.counts.map fun (c, n) => (c, n + weight * text.count (.scalar c)) }

def count (a : Alphabet) (c : Char) : Int := (a.counts.lookup c).getD 0

theorem count_reset (a : Alphabet) (c : Char) : a.reset.count c = 0 := by
  have h (l : List Char) : ((l.map ((·, 0) : Char → Char × Int)).lookup c).getD 0 = 0 := by
    induction l with
    | nil => rfl
    | cons d l ih => simp only [List.map_cons, List.lookup_cons]; split <;> simp_all
  exact h base

def sort (a : Alphabet) : Alphabet :=
  let byCount (cs : List Char) : List Char := cs.mergeSort fun c d => a.count d ≤ a.count c
  { a with leading := byCount baseLeading, all := byCount base }

theorem perm_sort (a : Alphabet) : a.sort.leading.Perm baseLeading ∧ a.sort.all.Perm base :=
  ⟨List.mergeSort_perm _ _, List.mergeSort_perm _ _⟩

/-- The characters after the first: `n` counted from one in bijective base `cs.length`. -/
def following (cs : List Char) (n : Nat) : List Char :=
  match n with
  | 0 => []
  | n + 1 => cs.getD (n % cs.length) '_' :: following cs (n / cs.length)
termination_by n
decreasing_by exact Nat.lt_succ_of_le (Nat.div_le_self _ _)

def name (a : Alphabet) (i : Nat) : ClassName :=
  a.leading.getD (i % a.leading.length) '_' :: following a.all (i / a.leading.length)

structure NegativeIndex where
  index : Int

def NegativeIndex.message (e : NegativeIndex) : String :=
  s!"Name index must be non-negative, got {e.index}"

def name? (a : Alphabet) (i : Int) : Except NegativeIndex ClassName :=
  if i < 0 then .error ⟨i⟩ else .ok (a.name i.toNat)

end Alphabet

end ShortClass
