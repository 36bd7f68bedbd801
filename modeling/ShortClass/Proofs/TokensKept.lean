import ShortClass.Proofs.ClassListPieces
import ShortClass.Proofs.ClassListStems

namespace ShortClass

namespace Text

variable {s t s' t' : Text}

theorem StartsToken.ne_nil (h : StartsToken t) : t ≠ [] := by
  rintro rfl
  obtain ⟨a, ha, -⟩ := h
  simp at ha

theorem EndsToken.ne_nil (h : EndsToken t) : t ≠ [] := by
  rintro rfl
  obtain ⟨a, ha, -⟩ := h
  simp at ha

theorem Glued.of_append {r : Text} (h : Glued (r ++ s) t) (hs : s ≠ []) : Glued s t := by
  obtain ⟨hends, hstarts⟩ := h
  rcases endsToken_append.1 hends with hends | ⟨hnil, -⟩
  · exact ⟨hends, hstarts⟩
  · exact absurd hnil hs

theorem length_tokens_of_glued (h : Glued s t) :
    (s ++ t).tokens.length + 1 = s.tokens.length + t.tokens.length := by
  fun_induction tokens s with
  | case1 => exact absurd rfl h.1.ne_nil
  | case2 a s ha ih =>
    have hs : s ≠ [] := by
      rintro rfl
      obtain ⟨⟨b, hb, hblank⟩, -⟩ := h
      obtain rfl : a = b := by simpa using hb
      simp [ha] at hblank
    rw [List.cons_append, tokens_cons_blank _ ha]
    exact ih (Glued.of_append (r := [a]) h hs)
  | case3 a s ha ih =>
    have ha : a.isBlank = false := by simpa using ha
    rw [List.cons_append, tokens_cons _ ha, List.length_cons, List.length_cons]
    by_cases hs : s.dropWhile (!·.isBlank) = []
    · -- the token that `s` is goes on with the first token of `t`
      obtain ⟨-, b, hb, hblank⟩ := h
      cases t with
      | nil => simp at hb
      | cons c t =>
        obtain rfl : c = b := by simpa using hb
        have hall := List.dropWhile_eq_nil_iff.1 hs
        rw [List.dropWhile_append_of_pos hall, hs, tokens_nil, tokens_cons t hblank]
        simp [hblank]
        omega
    · obtain ⟨-, hdrop⟩ := takeWhile_append_of_dropWhile t hs
      have hglued : Glued (s.dropWhile (!·.isBlank)) t := by
        refine Glued.of_append (r := a :: s.takeWhile (!·.isBlank)) ?_ hs
        rwa [List.cons_append, List.takeWhile_append_dropWhile]
      rw [hdrop]
      have hih := ih hglued
      omega

/-- The text `new` takes the place of `old`; `left` and `right` tell whether something stands beside it. -/
structure Keeps (left right : Bool) (old new : Text) : Prop where
  count : old.tokens.length ≤ new.tokens.length
  starts : left = true → StartsToken new → StartsToken old
  ends : right = true → EndsToken new → EndsToken old
  nil : new = [] ↔ old = []

namespace Keeps

variable {left right : Bool}

theorem refl (left right : Bool) (t : Text) : Keeps left right t t :=
  ⟨Nat.le_refl _, fun _ h => h, fun _ h => h, Iff.rfl⟩

theorem append (hs : Keeps left true s s') (ht : Keeps true right t t') : Keeps left right (s ++ t) (s' ++ t') where
  count := by
    have hscount := hs.count
    have htcount := ht.count
    by_cases hnew : Glued s' t'
    · have hold : Glued s t := ⟨hs.ends rfl hnew.1, ht.starts rfl hnew.2⟩
      have hsum := length_tokens_of_glued hold
      have hsum' := length_tokens_of_glued hnew
      omega
    · rw [tokens_append hnew, List.length_append]
      by_cases hold : Glued s t
      · have hsum := length_tokens_of_glued hold
        omega
      · rw [tokens_append hold, List.length_append]
        omega
  starts hleft hnew := by
    rcases startsToken_append.1 hnew with hnew | ⟨hnil, hnew⟩
    · exact startsToken_append.2 (.inl (hs.starts hleft hnew))
    · exact startsToken_append.2 (.inr ⟨hs.nil.1 hnil, ht.starts rfl hnew⟩)
  ends hright hnew := by
    rcases endsToken_append.1 hnew with hnew | ⟨hnil, hnew⟩
    · exact endsToken_append.2 (.inl (ht.ends hright hnew))
    · exact endsToken_append.2 (.inr ⟨ht.nil.1 hnil, hs.ends rfl hnew⟩)
  nil := by rw [List.append_eq_nil_iff, List.append_eq_nil_iff, hs.nil, ht.nil]

variable {inside : Bool}

theorem append_left (hs : Keeps left true s s') (ht : Keeps inside right t t')
    (h : inside = true ∨ s = [] ∧ inside = left) : Keeps left right (s ++ t) (s' ++ t') := by
  rcases h with rfl | ⟨rfl, rfl⟩
  · exact hs.append ht
  · rwa [hs.nil.2 rfl, List.nil_append, List.nil_append]

theorem append_right (hs : Keeps left inside s s') (ht : Keeps true right t t')
    (h : inside = true ∨ t = [] ∧ inside = right) : Keeps left right (s ++ t) (s' ++ t') := by
  rcases h with rfl | ⟨rfl, rfl⟩
  · exact hs.append ht
  · rwa [ht.nil.2 rfl, List.append_nil, List.append_nil]

end Keeps

theorem startsToken_of_startsBlank (hne : t ≠ []) (h : t.startsBlank = false) : StartsToken t := by
  obtain ⟨a, t, rfl⟩ := List.exists_cons_of_ne_nil hne
  exact ⟨a, rfl, by simpa [startsBlank] using h⟩

theorem endsToken_of_endsBlank (hne : t ≠ []) (h : t.endsBlank = false) : EndsToken t := by
  refine ⟨t.getLast hne, List.getLast?_eq_some_getLast hne, ?_⟩
  simpa [endsBlank, List.getLast?_eq_some_getLast hne] using h

theorem not_startsToken_cons_blank {a : CodePoint} (ha : a.isBlank = true) (t : Text) : ¬StartsToken (a :: t) := by
  rintro ⟨b, hb, hblank⟩
  obtain rfl : a = b := by simpa using hb
  simp [ha] at hblank

end Text

namespace ClassList

variable {lookup : Text → Option Text} {j : Joins} {value : Text}

section Stem

variable (hstem : HasStem j value)
include hstem

theorem length_tokens_newValue_of_hasStem (hl : GivesTokens lookup) :
    (newValue lookup j value).tokens.length = value.tokens.length := by
  obtain ⟨whole, stem, htokens, -, hsame | ⟨first, -, hnew⟩⟩ := newValue_of_hasStem lookup hstem
  · rw [hsame]
  · have hmem : ∀ t ∈ whole ++ [stem], Text.IsToken t := by
      intro t ht
      exact Text.isToken_of_mem_tokens (htokens ▸ ht)
    have hwhole : ∀ t ∈ whole.map (rename lookup), Text.IsToken t := by
      intro t ht
      obtain ⟨u, hu, rfl⟩ := List.mem_map.1 ht
      exact isToken_rename hl (hmem u (List.mem_append_left _ hu))
    have hseam : ¬Text.Glued (edge lookup j.left (gluedLeft j value) first ++ spaced (whole.map (rename lookup)) ++
        [.scalar ' ']) stem := by
      apply Text.not_glued_of_endsBlank
      right
      rw [Text.endsBlank, List.getLast?_concat]
      exact isBlank_space
    rw [hnew, List.append_cons, Text.tokens_append hseam, tokens_between_edges hwhole (edge_eq ..) (.inr rfl),
      (hmem stem (by simp)).tokens, htokens, List.length_append, List.length_append, List.length_map]

theorem startsToken_of_newValue_of_hasStem (hj : j.left = true)
    (hnew : Text.StartsToken (newValue lookup j value)) : Text.StartsToken value := by
  obtain ⟨whole, stem, htokens, -, hsame | ⟨first, -, heq⟩⟩ := newValue_of_hasStem lookup hstem
  · rwa [hsame] at hnew
  · have hne : value ≠ [] := by
      rintro rfl
      simp [Text.tokens_nil] at htokens
    refine Text.startsToken_of_startsBlank hne ?_
    by_contra hblank
    have hedge : edge lookup j.left (gluedLeft j value) first = [.scalar ' '] := by
      simp [edge, hj, gluedLeft, hblank]
    rw [heq, hedge] at hnew
    exact Text.not_startsToken_cons_blank isBlank_space _ hnew

theorem newValue_ne_nil_of_hasStem : newValue lookup j value ≠ [] := by
  obtain ⟨whole, stem, htokens, -, hsame | ⟨first, -, hnew⟩⟩ := newValue_of_hasStem lookup hstem
  · rw [hsame]
    rintro rfl
    simp [Text.tokens_nil] at htokens
  · simp [hnew]

end Stem

theorem length_tokens_newValue (hl : GivesTokens lookup) (j : Joins) (value : Text) :
    (newValue lookup j value).tokens.length = value.tokens.length := by
  by_cases hstem : HasStem j value
  · exact length_tokens_newValue_of_hasStem hstem hl
  · rw [tokens_newValue hl hstem, List.length_map]

theorem newValue_eq_nil_iff (hl : GivesTokens lookup) (j : Joins) (value : Text) :
    newValue lookup j value = [] ↔ value = [] := by
  constructor
  · intro hnew
    by_contra hv
    by_cases hstem : HasStem j value
    · exact newValue_ne_nil_of_hasStem hstem hnew
    · exact newValue_ne_nil hl hstem hv hnew
  · rintro rfl
    exact newValue_nil lookup j

theorem keeps_newValue (hl : GivesTokens lookup) {left right : Bool}
    (hleft : left = true → j.left = true ∨ value.startsBlank = false)
    (hright : right = true → j.right = true ∨ value.endsBlank = false) :
    Text.Keeps left right value (newValue lookup j value) where
  count := Nat.le_of_eq (length_tokens_newValue hl j value).symm
  starts hbeside hnew := by
    have hne : value ≠ [] := fun hnil => hnew.ne_nil ((newValue_eq_nil_iff hl j value).2 hnil)
    rcases hleft hbeside with hj | hblank
    · by_cases hstem : HasStem j value
      · exact startsToken_of_newValue_of_hasStem hstem hj hnew
      · exact startsToken_of_newValue hstem hj hnew
    · exact Text.startsToken_of_startsBlank hne hblank
  ends hbeside hnew := by
    have hne : value ≠ [] := fun hnil => hnew.ne_nil ((newValue_eq_nil_iff hl j value).2 hnil)
    rcases hright hbeside with hj | hblank
    · by_cases hstem : HasStem j value
      · obtain ⟨-, -, -, hblank, -⟩ := newValue_of_hasStem lookup hstem
        exact Text.endsToken_of_endsBlank hne hblank
      · exact endsToken_of_newValue hstem hj hnew
    · exact Text.endsToken_of_endsBlank hne hblank
  nil := newValue_eq_nil_iff hl j value

end ClassList

end ShortClass
