import Mathlib.Data.List.DropRight
import ShortClass.Proofs.ClassListRenaming

namespace ShortClass

namespace Text

variable {s t v : Text}

theorem not_glued_of_endsBlank (h : s = [] ∨ s.endsBlank = true) (t : Text) : ¬Glued s t := by
  rintro ⟨⟨a, ha, hblank⟩, -⟩
  rcases h with rfl | h
  · simp at ha
  · rw [Option.mem_def] at ha
    simp [endsBlank, ha, hblank] at h

theorem exists_append_of_getLast?_tokens (ht : v.tokens.getLast? = some t) (hv : v.endsBlank = false) :
    ∃ before, v = before ++ t ∧ (before = [] ∨ before.endsBlank = true) := by
  have hsplit : v.rdropWhile (fun a => !a.isBlank) ++ v.rtakeWhile (fun a => !a.isBlank) = v :=
    List.rdropWhile_append_rtakeWhile
  generalize hbefore : v.rdropWhile (fun a => !a.isBlank) = before at hsplit
  generalize hlast : v.rtakeWhile (fun a => !a.isBlank) = last at hsplit
  have hblank : before = [] ∨ endsBlank before = true := by
    by_cases hne : before = []
    · exact .inl hne
    · right
      subst hbefore
      have hend := List.rdropWhile_last_not _ _ hne
      rw [endsBlank, List.getLast?_eq_some_getLast hne]
      simpa using hend
  have hvne : v ≠ [] := by
    rintro rfl
    simp [tokens_nil] at ht
  have htoken : IsToken last := by
    subst hlast
    constructor
    · intro hnil
      have hend := List.rtakeWhile_eq_nil_iff.1 hnil hvne
      rw [endsBlank, List.getLast?_eq_some_getLast hvne] at hv
      simp_all
    · intro a ha
      simpa using List.mem_rtakeWhile_imp ha
  rw [← hsplit, tokens_append (not_glued_of_endsBlank hblank last), htoken.tokens, List.getLast?_concat] at ht
  obtain rfl := Option.some.inj ht
  exact ⟨before, hsplit.symm, hblank⟩

end Text

namespace ClassList

variable {lookup : Text → Option Text} {j : Joins} {value : Text}

theorem newValue_of_hasStem (lookup : Text → Option Text) (h : HasStem j value) :
    ∃ whole stem, value.tokens = whole ++ [stem] ∧ value.endsBlank = false ∧
      (newValue lookup j value = value ∨
        ∃ first, whole ≠ [] ∧ newValue lookup j value =
          edge lookup j.left (gluedLeft j value) first ++ spaced (whole.map (rename lookup)) ++
            .scalar ' ' :: stem) := by
  obtain ⟨hglued, stem, hstem, hfragment⟩ := h
  obtain ⟨whole, htokens⟩ := List.getLast?_eq_some_iff.1 hstem
  have hblank : value.endsBlank = false := by
    rw [gluedRight, Bool.and_eq_true] at hglued
    simpa using hglued.2
  refine ⟨whole, stem, htokens, hblank, ?_⟩
  rw [newValue, renamed]
  split
  · exact .inl rfl
  · next first rest hfirst =>
    have hparts : first :: rest = whole ++ [stem] := hfirst.symm.trans htokens
    have hlast : (first :: rest).getLast (by simp) = stem := by simp [hparts]
    have hwhole : (first :: rest).dropLast = whole := by rw [hparts, List.dropLast_concat]
    simp only [hlast, hwhole, hglued, hfragment, Bool.and_self, if_true]
    split
    · exact .inl rfl
    · next hall =>
      refine .inr ⟨first, ?_, rfl⟩
      rintro rfl
      simp at hall

theorem exists_newValue_append {stem : Text} (lookup : Text → Option Text) (h : HasStem j value)
    (hstem : value.tokens.getLast? = some stem) :
    ∃ before, newValue lookup j value = before ++ stem ∧ (before = [] ∨ before.endsBlank = true) := by
  obtain ⟨whole, last, htokens, hblank, hnew⟩ := newValue_of_hasStem lookup h
  rcases hnew with hsame | ⟨first, -, hnew⟩
  · rw [hsame]
    exact Text.exists_append_of_getLast?_tokens hstem hblank
  · rw [htokens, List.getLast?_concat] at hstem
    obtain rfl := Option.some.inj hstem
    refine ⟨edge lookup j.left (gluedLeft j value) first ++ spaced (whole.map (rename lookup)) ++ [.scalar ' '],
      by rw [hnew, List.append_assoc _ [_], List.singleton_append], .inr ?_⟩
    rw [Text.endsBlank, List.getLast?_concat]
    exact isBlank_space

end ClassList

end ShortClass
