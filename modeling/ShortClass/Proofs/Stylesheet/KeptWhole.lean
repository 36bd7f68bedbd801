import ShortClass.Proofs.Stylesheet.ClosedText

namespace ShortClass.Stylesheet

def wholes : List Char → List (List Char)
  | [] => []
  | c :: t =>
    match preludePiece c t with
    | some n => (if isQuote c ∨ c = '(' ∧ n ≠ 0 then [c :: t.take n] else []) ++ wholes (t.drop n)
    | none => []
termination_by t => t.length

section Recursion

variable {c : Char} {t : List Char} {n : Nat}

theorem wholes_of_none (h : preludePiece c t = none) : wholes (c :: t) = [] := by
  rw [wholes, h]

theorem wholes_of_some (h : preludePiece c t = some n) :
    wholes (c :: t) = (if isQuote c ∨ c = '(' ∧ n ≠ 0 then [c :: t.take n] else []) ++ wholes (t.drop n) := by
  rw [wholes, h]

theorem wholes_pair (c : Char) (t : List Char) : wholes ('\\' :: c :: t) = wholes t := by
  have hp : preludePiece '\\' (c :: t) = some 1 := by simp [preludePiece, isQuote]
  rw [wholes_of_some hp, if_neg (by simp [isQuote])]
  rfl

theorem Passed.wholes_append {w : List Char} (hw : Passed w) (s : List Char) : wholes (w ++ s) = wholes s := by
  induction hw with
  | nil => rfl
  | @char c t hc _ ih =>
    have hq : isQuote c = false := by
      by_contra hq
      simp [not_isPlain_of_isQuote (by simpa using hq)] at hc
    rw [List.cons_append, wholes_of_some (preludePiece_of_isPlain _ hc), if_neg (by simp [hq]), List.drop_zero,
      List.nil_append, ih]
  | pair _ ih => rw [List.cons_append, List.cons_append, wholes_pair, ih]

end Recursion

theorem length_spell_eq_zero {σ : List Char → List Char} {ms : List Mark} (hσ : Aligned σ ms) :
    (spell σ ms).length = 0 ↔ ms = [] := by
  cases ms with
  | nil => simp
  | cons m ms =>
    have hne := hσ.head.spell_ne_nil
    simp [hne]

theorem wholes_spell (ms : List Mark) :
    ∃ gs : List (List Mark), ∀ σ, Aligned σ ms → wholes (spell σ ms) = gs.map (spell σ) := by
  induction hn : ms.length using Nat.strongRecOn generalizing ms with
  | ind n ih =>
    subst hn
    cases ms with
    | nil => exact ⟨[], fun σ _ => by simp [wholes]⟩
    | cons m ms =>
      cases m with
      | pair c =>
        obtain ⟨gs, hgs⟩ := ih ms.length (by simp) ms rfl
        refine ⟨gs, fun σ hσ => ?_⟩
        have h := hgs σ hσ.tail
        simpa [Mark.spell, wholes_pair] using h
      | name w =>
        obtain ⟨gs, hgs⟩ := ih ms.length (by simp) ms rfl
        refine ⟨gs, fun σ hσ => ?_⟩
        have h := hgs σ hσ.tail
        obtain ⟨hw, -⟩ : Passed (σ w) ∧ σ w ≠ [] := hσ.head
        rw [spell_cons, Mark.spell, hw.wholes_append, h]
      | char c =>
        by_cases hc : c = '\\'
        · exact ⟨[], fun σ hσ => absurd hc hσ.head⟩
        obtain ⟨j, hj⟩ := preludePiece_takes hc ms
        cases j with
        | none =>
          refine ⟨[], fun σ hσ => ?_⟩
          have hp := hj σ hσ.tail
          simp [Mark.spell, wholes_of_none hp]
        | some j =>
          obtain ⟨gs, hgs⟩ := ih (ms.drop j).length (by rw [List.length_drop, List.length_cons]; omega) (ms.drop j) rfl
          have hstep (σ : List Char → List Char) (hσ : Aligned σ (.char c :: ms)) :
              wholes (spell σ (.char c :: ms)) =
                (if isQuote c ∨ c = '(' ∧ ms.take j ≠ [] then [spell σ (.char c :: ms.take j)] else []) ++
                  gs.map (spell σ) := by
            have hp := hj σ hσ.tail
            have h := hgs σ (hσ.tail.drop j)
            have hz : (spell σ (ms.take j)).length = 0 ↔ ms.take j = [] :=
              length_spell_eq_zero (hσ.tail.take j)
            rw [Option.map_some] at hp
            rw [spell_cons, Mark.spell, List.singleton_append, wholes_of_some hp, drop_spell, take_spell, h]
            simp only [ne_eq, hz]
            rfl
          by_cases hw : isQuote c ∨ c = '(' ∧ ms.take j ≠ []
          · exact ⟨(.char c :: ms.take j) :: gs, fun σ hσ => by rw [hstep σ hσ, if_pos hw]; rfl⟩
          · exact ⟨gs, fun σ hσ => by rw [hstep σ hσ, if_neg hw, List.nil_append]⟩

end ShortClass.Stylesheet
