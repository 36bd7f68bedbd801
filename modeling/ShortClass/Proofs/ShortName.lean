import ShortClass.Proofs.Stylesheet.NameText

namespace ShortClass

def IsShortName : ClassName → Prop
  | [] => False
  | c :: t => c ∈ Alphabet.baseLeading ∧ ∀ d ∈ t, d ∈ Alphabet.base

instance : DecidablePred IsShortName
  | [] => isFalse id
  | c :: t => decidable_of_iff (c ∈ Alphabet.baseLeading ∧ t.all (· ∈ Alphabet.base) = true) (by simp [IsShortName])

namespace IsShortName

variable {n : ClassName}

theorem isWord (h : IsShortName n) : Stylesheet.IsWord n := by
  cases n with
  | nil => exact h.elim
  | cons c t =>
    have hleading : Alphabet.baseLeading.all Stylesheet.isNameStart = true := by decide
    have hbase : Alphabet.base.all Stylesheet.isNameChar = true := by decide
    exact ⟨List.all_eq_true.1 hleading c h.1, fun d hd => List.all_eq_true.1 hbase d (h.2 d hd)⟩

theorem unescape (h : IsShortName n) : Stylesheet.unescape n = n := by
  apply Stylesheet.unescape_eq_self
  cases n with
  | nil => exact h.elim
  | cons c t =>
    have hleading : '\\' ∉ Alphabet.baseLeading := by decide
    have hbase : '\\' ∉ Alphabet.base := by decide
    intro hmem
    rcases List.mem_cons.1 hmem with rfl | hmem
    · exact hleading h.1
    · exact hbase (h.2 _ hmem)

end IsShortName

end ShortClass
