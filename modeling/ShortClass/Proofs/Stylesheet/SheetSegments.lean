import ShortClass.Proofs.Stylesheet.Segments
import ShortClass.Proofs.Stylesheet.SheetMarks

namespace ShortClass.Stylesheet

theorem le_start_of_mem_itemsFrom {pos : Nat} {s : List Char} {i : Item} (h : i ∈ itemsFrom pos s) :
    pos ≤ i.start := by
  fun_induction itemsFrom pos s with
  | case1 pos => simp at h
  | case2 pos c t n hs ih =>
    rcases List.mem_cons.1 h with rfl | h
    · exact Nat.le_refl _
    · have hi := ih h
      omega
  | case3 pos c t hs kind n hl ih =>
    rcases List.mem_cons.1 h with rfl | h
    · exact Nat.le_refl _
    · have hi := ih h
      omega
  | case4 pos c t hs hl => simp at h

theorem itemsFrom_pairwise (pos : Nat) (s : List Char) :
    (itemsFrom pos s).Pairwise fun i j => i.start < j.start := by
  have hlt {pos n : Nat} {t : List Char} : ∀ i ∈ itemsFrom (pos + 1 + n) t, pos < i.start := by
    intro i hi
    have hle := le_start_of_mem_itemsFrom hi
    omega
  fun_induction itemsFrom pos s with
  | case1 pos => exact .nil
  | case2 pos c t n hs ih => exact .cons hlt ih
  | case3 pos c t hs kind n hl ih => exact .cons hlt ih
  | case4 pos c t hs hl => exact .nil

def Item.segment? (i : Item) : Option Segment := if i.kind = some .prelude then some ⟨i.text, i.start⟩ else none

theorem segments_filterMap_token? (is : List Item) :
    (is.filterMap Item.token?).flatMap Token.segments = is.filterMap Item.segment? := by
  induction is with
  | nil => rfl
  | cons i is ih =>
    obtain ⟨kind, text, start⟩ := i
    cases kind with
    | none => exact ih
    | some k => cases k <;> simp [Item.token?, Item.segment?, Token.segments, ih]

theorem eq_of_segment? {i : Item} {s : Segment} (h : i.segment? = some s) :
    i = ⟨some .prelude, s.text, s.start⟩ := by
  obtain ⟨kind, text, start⟩ := i
  simp only [Item.segment?, Option.ite_none_right_eq_some, Option.some.injEq] at h
  obtain ⟨rfl, rfl⟩ := h
  rfl

theorem markComponents_sheetMarks (selects : Nat → Bool) (pos : Nat) (s : List Char) :
    markComponents pos (sheetMarks selects pos s) =
      (((itemsFrom pos s).filterMap Item.segment?).filter fun g => selects g.start).flatMap
        Segment.components := by
  have hstep {pos n : Nat} {t r : List Char} (i : Item) (hi : i.start = pos) (hc : Closed i.text)
      (hlen : i.text.length = n + 1)
      (ih : markComponents (pos + 1 + n) (sheetMarks selects (pos + 1 + n) r) =
        (((itemsFrom (pos + 1 + n) r).filterMap Item.segment?).filter fun g => selects g.start).flatMap
          Segment.components)
      (heq : itemsFrom pos t = i :: itemsFrom (pos + 1 + n) r) :
      markComponents pos (sheetMarks selects pos t) =
        (((itemsFrom pos t).filterMap Item.segment?).filter fun g => selects g.start).flatMap
          Segment.components := by
    have hpos : pos + i.text.length = pos + 1 + n := by omega
    have hrest : (itemsFrom (pos + 1 + n) r).flatMap (itemMarks selects) = sheetMarks selects (pos + 1 + n) r :=
      rfl
    rw [sheetMarks, heq, List.flatMap_cons, markComponents_append, spell_id_itemMarks, hpos, hrest, ih]
    obtain ⟨kind, text, start⟩ := i
    obtain rfl : start = pos := hi
    by_cases hk : kind = some .prelude
    · subst hk
      by_cases hsel : selects start = true
      · simp [itemMarks, Item.segment?, hsel, Segment.components, componentsFrom_eq _ hc]
      · simp [itemMarks, Item.segment?, hsel, markComponents_atoms]
    · simp [itemMarks, Item.segment?, hk, markComponents_atoms]
  fun_induction itemsFrom pos s with
  | case1 pos => simp [sheetMarks, itemsFrom, markComponents]
  | case2 pos c t n hs ih =>
    obtain ⟨hle, hcl, -⟩ := skipped_spec hs
    rw [← itemsFrom_of_skipped hs]
    exact hstep _ rfl hcl (by simp [hle]) ih (itemsFrom_of_skipped hs)
  | case3 pos c t hs kind n hl ih =>
    obtain ⟨hle, hcl⟩ := closed_lexeme hl
    rw [← itemsFrom_of_lexeme hs hl]
    exact hstep _ rfl hcl (by simp [hle]) ih (itemsFrom_of_lexeme hs hl)
  | case4 pos c t hs hl =>
    have hnil : itemsFrom pos (c :: t) = [] := by rw [itemsFrom, hs, hl]
    simp [sheetMarks, hnil, markComponents]

theorem build_readable {b : Builder} {last : Option Token} {bad : Option (Nat × Char)} {ts : List Token}
    {ss : List Statement} (h : build b last bad ts = .ok ss) : bad = none := by
  induction ts generalizing b last with
  | nil =>
    cases bad with
    | none => rfl
    | some p => simp [build] at h
  | cons t ts ih =>
    rw [build] at h
    split at h
    · exact ih h
    · simp at h

theorem filter_starts_of_sublist {chosen all : List Segment} (hsub : chosen.Sublist all)
    (horder : all.Pairwise fun a b => a.start < b.start) :
    all.filter (fun g => (chosen.map Segment.start).contains g.start) = chosen := by
  induction hsub with
  | slnil => rfl
  | @cons chosen all a hsub ih =>
    obtain ⟨ha, horder⟩ := List.pairwise_cons.1 horder
    have hnot : a.start ∉ chosen.map Segment.start := by
      intro hmem
      obtain ⟨b, hb, heq⟩ := List.mem_map.1 hmem
      have hlt := ha b (hsub.subset hb)
      omega
    rw [List.filter_cons_of_neg (by simpa using hnot)]
    exact ih horder
  | @cons_cons chosen all a hsub ih =>
    obtain ⟨ha, horder⟩ := List.pairwise_cons.1 horder
    have hrest : ∀ b ∈ all, ((a :: chosen).map Segment.start).contains b.start =
        (chosen.map Segment.start).contains b.start := by
      intro b hb
      have hlt := ha b hb
      have hne : (b.start == a.start) = false := by simp; omega
      rw [List.map_cons, List.contains_cons, hne, Bool.false_or]
    rw [List.filter_cons_of_pos (by simp), List.filter_congr hrest, ih horder]

section Sheet

variable {css : List Char} {ss : List Statement}

theorem unreadable_of_statements (h : statements css = .ok ss) : (scanFrom 0 css).unreadable = none :=
  build_readable h

theorem build_of_statements (h : statements css = .ok ss) :
    build {} none none ((itemsFrom 0 css).filterMap Item.token?) = .ok ss := by
  rw [← tokens_scanFrom, ← unreadable_of_statements h]
  exact h

theorem segmentsOf_statements (h : statements css = .ok ss) :
    segmentsOf ss = (itemsFrom 0 css).filterMap Item.segment? := by
  rw [segmentsOf_build (fun _ => rfl) (build_of_statements h), segments_filterMap_token?]
  rfl

def selects (ss : List Statement) (start : Nat) : Bool := ((selectorsOf ss).flatten.map Segment.start).contains start

theorem filter_selects (h : statements css = .ok ss) :
    ((itemsFrom 0 css).filterMap Item.segment?).filter (fun g => selects ss g.start) =
      (selectorsOf ss).flatten := by
  apply filter_starts_of_sublist
  · rw [← segmentsOf_statements h]
    exact selectorsOf_sublist ss
  · apply (itemsFrom_pairwise 0 css).filterMap
    intro i j hij a ha b hb
    rw [eq_of_segment? ha, eq_of_segment? hb] at hij
    exact hij

theorem components_eq_markComponents (h : statements css = .ok ss) :
    components ss = markComponents 0 (sheetMarks (selects ss) 0 css) := by
  rw [markComponents_sheetMarks, filter_selects h, components, ← List.flatMap_id, List.flatMap_assoc]
  rfl

end Sheet

end ShortClass.Stylesheet
