import ShortClass.Text.CodePoint

namespace ShortClass

def isSpace (c : Char) : Bool :=
  let n := c.toNat
  (0x09 ≤ n && n ≤ 0x0D) || (0x1C ≤ n && n ≤ 0x20) || n == 0x85 || n == 0xA0 || n == 0x1680 ||
    (0x2000 ≤ n && n ≤ 0x200A) || n == 0x2028 || n == 0x2029 || n == 0x202F || n == 0x205F || n == 0x3000

/-- A blank of a class list: whitespace, or the byte order mark U+FEFF. -/
def CodePoint.isBlank : CodePoint → Bool
  | .scalar c => isSpace c || c == '\uFEFF'
  | .surrogate _ => false

namespace Text

def startsBlank (t : Text) : Bool := t.head?.any CodePoint.isBlank

def endsBlank (t : Text) : Bool := t.getLast?.any CodePoint.isBlank

def tokens : Text → List Text
  | [] => []
  | p :: t =>
    if p.isBlank then tokens t
    else (p :: t.takeWhile (!·.isBlank)) :: tokens (t.dropWhile (!·.isBlank))
termination_by t => t.length
decreasing_by
  · simp
  · simpa using Nat.lt_succ_of_le (List.dropWhile_sublist _).length_le

theorem isBlank_eq_false_of_mem_tokens {t u : Text} (h : u ∈ tokens t) :
    u ≠ [] ∧ ∀ p ∈ u, p.isBlank = false := by
  fun_induction tokens t with
  | case1 => simp at h
  | case2 p t hp ih => exact ih h
  | case3 p t hp ih =>
    rcases List.mem_cons.1 h with rfl | h
    · refine ⟨by simp, fun q hq => ?_⟩
      rcases List.mem_cons.1 hq with rfl | hq
      · simpa using hp
      · simpa using List.all_eq_true.1 List.all_takeWhile q hq
    · exact ih h

def isFragment (t : Text) : Bool :=
  t.getLast? == some (.scalar '-') || t.getLast? == some (.scalar ':')

end Text

end ShortClass
