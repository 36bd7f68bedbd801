import Mathlib.Data.List.Forall2
import ShortClass.Proofs.Stylesheet.ComponentMarks
import ShortClass.Proofs.Stylesheet.SheetItems

namespace ShortClass.Stylesheet

def itemMarks (selects : Nat → Bool) (i : Item) : List Mark :=
  if i.kind = some .prelude ∧ selects i.start then selectorMarks i.text else atoms i.text

def sheetMarks (selects : Nat → Bool) (pos : Nat) (s : List Char) : List Mark :=
  (itemsFrom pos s).flatMap (itemMarks selects)

section Marks

variable {σ : List Char → List Char} (selects : Nat → Bool)

theorem spell_id_itemMarks (i : Item) : spell id (itemMarks selects i) = i.text := by
  rw [itemMarks]
  split
  · exact spell_id_selectorMarks _
  · exact spell_atoms id _

theorem spell_id_sheetMarks {pos : Nat} {s : List Char} (h : (scanFrom pos s).unreadable = none) :
    spell id (sheetMarks selects pos s) = s := by
  have hitems (is : List Item) : spell id (is.flatMap (itemMarks selects)) = is.flatMap Item.text := by
    induction is with
    | nil => rfl
    | cons i is ih => rw [List.flatMap_cons, spell_append, spell_id_itemMarks, ih, List.flatMap_cons]
  rw [sheetMarks, hitems, text_itemsFrom h]

theorem aligned_itemMarks (hσ : IsSpelling σ) {i : Item} (h : Closed i.text) :
    Aligned σ (itemMarks selects i) := by
  rw [itemMarks]
  split
  · exact aligned_selectorMarks hσ h
  · exact h.aligned_atoms σ

theorem aligned_sheetMarks (hσ : IsSpelling σ) (pos : Nat) (s : List Char) :
    Aligned σ (sheetMarks selects pos s) := by
  intro m hm
  obtain ⟨i, hi, hm⟩ := List.mem_flatMap.1 hm
  exact aligned_itemMarks selects hσ (closed_of_mem_itemsFrom hi) m hm

def beforeDot (s : List Char) : List Char := s.takeWhile (· != '.')

theorem beforeDot_append_congr (a : List Char) {x y : List Char} (h : beforeDot x = beforeDot y) :
    beforeDot (a ++ x) = beforeDot (a ++ y) := by
  simp only [beforeDot, List.takeWhile_append] at h ⊢
  rw [h]

theorem beforeDot_spell_selectorMarks (s : List Char) {x y : List Char} (h : beforeDot x = beforeDot y) :
    beforeDot (spell σ (selectorMarks s) ++ x) = beforeDot (s ++ y) := by
  fun_induction pieces s with
  | case1 => simpa [selectorMarks_nil] using h
  | case2 t n hn ih => simp [selectorMarks_dot_of_some hn, Mark.spell, beforeDot]
  | case3 t hn ih => simp [selectorMarks_dot_of_none hn, Mark.spell, beforeDot]
  | case4 c t hc ih =>
    have htext : c :: t ++ y = c :: t.take (passedLength c t) ++ (t.drop (passedLength c t) ++ y) := by
      rw [List.cons_append, List.cons_append, ← List.append_assoc, List.take_append_drop]
    rw [selectorMarks_cons hc, spell_append, spell_atoms, List.append_assoc, htext]
    exact beforeDot_append_congr _ ih

theorem beforeDot_spell_itemMarks (i : Item) {x y : List Char} (h : beforeDot x = beforeDot y) :
    beforeDot (spell σ (itemMarks selects i) ++ x) = beforeDot (i.text ++ y) := by
  rw [itemMarks]
  split
  · exact beforeDot_spell_selectorMarks _ h
  · rw [spell_atoms]
    exact beforeDot_append_congr _ h

theorem beforeDot_spell_sheetMarks {pos : Nat} {s : List Char} (h : (scanFrom pos s).unreadable = none) :
    beforeDot (spell σ (sheetMarks selects pos s)) = beforeDot s := by
  have hitems (is : List Item) :
      beforeDot (spell σ (is.flatMap (itemMarks selects))) = beforeDot (is.flatMap Item.text) := by
    induction is with
    | nil => rfl
    | cons i is ih =>
      rw [List.flatMap_cons, spell_append, List.flatMap_cons]
      exact beforeDot_spell_itemMarks selects i ih
  rw [sheetMarks, hitems, text_itemsFrom h]

theorem prefix_of_beforeDot {p x y : List Char} (hp : '.' ∉ p) (h : beforeDot x = beforeDot y) (hx : p <+: x) :
    p <+: y := by
  have hpx : p <+: beforeDot x := by
    obtain ⟨u, rfl⟩ := hx
    have hall : ∀ c ∈ p, (c != '.') = true := by
      intro c hc
      have hne : c ≠ '.' := by rintro rfl; exact hp hc
      simpa using hne
    rw [beforeDot, List.takeWhile_append_of_pos hall]
    exact List.prefix_append _ _
  rw [h] at hpx
  exact hpx.trans (List.takeWhile_prefix _)

end Marks

theorem skipped_eq_none_of_beforeDot {c : Char} {t u : List Char} {l : Token.Kind × Nat}
    (h : skipped c t = none) (hl : lexeme c t = some l) (hb : beforeDot (c :: u) = beforeDot (c :: t)) :
    skipped c u = none := by
  have hpre {p : List Char} (hp : '.' ∉ p) (hc : c ≠ '.') (hu : p <+: u) : p <+: t := by
    have hcp : '.' ∉ c :: p := by simp [hp, Ne.symm hc]
    exact (List.cons_prefix_cons.1 (prefix_of_beforeDot hcp hb (List.cons_prefix_cons.2 ⟨rfl, hu⟩))).2
  rw [skipped] at h ⊢
  split at h
  · simp at h
  next hblank =>
  rw [if_neg hblank]
  split
  · next hc =>
    -- the start of a comment starts no token
    obtain ⟨rfl, hu⟩ := hc
    obtain ⟨v, rfl⟩ := List.head?_eq_some_iff.1 hu
    obtain ⟨w, rfl⟩ := hpre (p := ['*']) (by decide) (by decide) ⟨v, rfl⟩
    simp [lexeme, preludePiece, isQuote, isSpace] at hl
  split
  · next hc =>
    obtain ⟨rfl, hu⟩ := hc
    obtain ⟨w, rfl⟩ := hpre (p := ['!', '-', '-']) (by decide) (by decide) (hu ▸ List.take_prefix 3 u)
    simp at h
  split
  · next hc =>
    obtain ⟨rfl, hu⟩ := hc
    obtain ⟨w, rfl⟩ := hpre (p := ['-', '>']) (by decide) (by decide) (hu ▸ List.take_prefix 2 u)
    simp at h
  · rfl

theorem takeWhile_isKeywordChar_append {t r : List Char} {n : Nat} (hn : n = (t.takeWhile isKeywordChar).length)
    (hr : beforeDot r = beforeDot (t.drop n)) : (t.take n ++ r).takeWhile isKeywordChar = t.take n := by
  have htake : t.take n = t.takeWhile isKeywordChar := by
    rw [hn]
    exact (List.prefix_iff_eq_take.1 (List.takeWhile_prefix _)).symm
  have hdrop : t.drop n = t.dropWhile isKeywordChar := by
    have hsplit : t.take n ++ t.drop n = t.take n ++ t.dropWhile isKeywordChar := by
      rw [List.take_append_drop, htake, List.takeWhile_append_dropWhile]
    exact List.append_cancel_left hsplit
  apply takeWhile_append_of_head?
  · rw [htake]
    exact List.all_eq_true.1 List.all_takeWhile
  · intro c hc
    by_cases hdot : c = '.'
    · subst hdot
      decide
    · obtain ⟨v, rfl⟩ := List.head?_eq_some_iff.1 hc
      obtain ⟨w, hw⟩ := prefix_of_beforeDot (p := [c]) (by simpa using Ne.symm hdot) hr ⟨v, rfl⟩
      have hhead := List.head?_dropWhile_not isKeywordChar t
      rw [← hdrop, ← hw] at hhead
      simpa using hhead

structure Item.Respelled (σ : List Char → List Char) (selects : Nat → Bool) (i j : Item) : Prop where
  kind : j.kind = i.kind
  text : j.text = spell σ (itemMarks selects i)

section Respelled

variable {σ : List Char → List Char} {selects : Nat → Bool} {pos : Nat} {c : Char} {t : List Char} {n : Nat}
  {kind : Token.Kind}

theorem itemMarks_of_ne_prelude {i : Item} (h : i.kind ≠ some .prelude) : itemMarks selects i = atoms i.text := by
  rw [itemMarks, if_neg fun hi => h hi.1]

theorem spell_itemMarks_cons (selects : Nat → Bool) (σ : List Char → List Char) (i : Item) {c : Char} {t : List Char}
    (hi : i.text = c :: t) : ∃ u, spell σ (itemMarks selects i) = c :: u := by
  rw [itemMarks, hi]
  split
  · obtain ⟨u, hu, -⟩ := spell_selectorMarks_cons σ c t
    exact ⟨u, hu⟩
  · exact ⟨t, spell_atoms σ _⟩

theorem preludeRun_spell (hσ : IsSpelling σ) (ms ns : List Mark) (hms : ∀ τ, IsSpelling τ → Aligned τ (ms ++ ns))
    (h : preludeRun (spell id (ms ++ ns)) = (spell id ms).length) :
    preludeRun (spell σ (ms ++ ns)) = (spell σ ms).length := by
  obtain ⟨k, hk⟩ := preludeRun_takes (ms ++ ns)
  have hid := hms id isSpelling_id
  have ht : (ms ++ ns).take k = ms := by
    rw [hk id hid] at h
    simpa using eq_of_length_spell_take (j := ms.length) hid (by simpa using h)
  rw [hk σ (hms σ hσ), ht]

theorem lexeme_spell (hσ : IsSpelling σ) (h : lexeme c t = some (kind, n))
    (hread : (scanFrom (pos + 1 + n) (t.drop n)).unreadable = none) {u : List Char}
    (hu : spell σ (itemMarks selects ⟨some kind, c :: t.take n, pos⟩) = c :: u) :
    lexeme c (u ++ spell σ (sheetMarks selects (pos + 1 + n) (t.drop n))) = some (kind, u.length) := by
  rcases lexeme_cases h with ⟨rfl, hc⟩ | ⟨rfl, rfl, hn, hpos⟩ | ⟨h1, h2, h3, h4, hs, rfl, hrun⟩
  · have hk : kind ≠ .prelude := by rcases hc with ⟨-, rfl⟩ | ⟨-, rfl⟩ | ⟨-, rfl⟩ <;> decide
    rw [itemMarks_of_ne_prelude (by simpa using hk), spell_atoms] at hu
    obtain rfl : u = [] := by simpa using hu.symm
    rcases hc with ⟨rfl, rfl⟩ | ⟨rfl, rfl⟩ | ⟨rfl, rfl⟩ <;> rfl
  · rw [itemMarks_of_ne_prelude (by simp), spell_atoms] at hu
    obtain rfl : u = t.take n := by simpa using hu.symm
    have hlen : (t.take n).length = n := List.length_take_of_le (closed_lexeme h).1
    have hkey := takeWhile_isKeywordChar_append hn (beforeDot_spell_sheetMarks (σ := σ) selects hread)
    have hne : n ≠ 0 := by omega
    simp [lexeme, hkey, hlen, hne]
  · apply lexeme_of_preludeRun h1 h2 h3 h4 hs
    have hle : n ≤ t.length := (closed_lexeme h).1
    have hrun' := preludeRun_spell hσ (itemMarks selects ⟨some .prelude, c :: t.take n, pos⟩)
      (sheetMarks selects (pos + 1 + n) (t.drop n)) ?_ ?_
    · rw [spell_append, hu] at hrun'
      exact hrun'
    · intro τ hτ
      exact (aligned_itemMarks selects hτ (closed_lexeme h).2).append (aligned_sheetMarks selects hτ _ _)
    · rw [spell_append, spell_id_itemMarks, spell_id_sheetMarks selects hread, List.cons_append,
        List.take_append_drop, hrun, List.length_cons, List.length_take_of_le hle]

end Respelled

theorem itemsFrom_spell {σ : List Char → List Char} (hσ : IsSpelling σ) (selects : Nat → Bool) {pos : Nat}
    {s : List Char} (h : (scanFrom pos s).unreadable = none) (pos' : Nat) :
    (scanFrom pos' (spell σ (sheetMarks selects pos s))).unreadable = none ∧
      List.Forall₂ (Item.Respelled σ selects) (itemsFrom pos s)
        (itemsFrom pos' (spell σ (sheetMarks selects pos s))) := by
  fun_induction itemsFrom pos s generalizing pos' with
  | case1 pos => simp [sheetMarks, itemsFrom, scanFrom]
  | case2 pos c t n hs ih =>
    rw [scanFrom_of_skipped hs] at h
    obtain ⟨hle, -, hpre⟩ := skipped_spec hs
    have htext : spell σ (sheetMarks selects pos (c :: t)) =
        c :: (t.take n ++ spell σ (sheetMarks selects (pos + 1 + n) (t.drop n))) := by
      rw [sheetMarks, itemsFrom_of_skipped hs, List.flatMap_cons, spell_append,
        itemMarks_of_ne_prelude (by simp), spell_atoms]
      rfl
    have hlen := List.length_take_of_le hle
    obtain ⟨hread, hitems⟩ := ih h (pos' + 1 + n)
    rw [htext, scanFrom_of_skipped (hpre _), itemsFrom_of_skipped (hpre _), List.drop_left' hlen,
      List.take_left' hlen]
    refine ⟨hread, .cons ⟨rfl, ?_⟩ hitems⟩
    rw [itemMarks_of_ne_prelude (by simp), spell_atoms]
  | case3 pos c t hs kind n hl ih =>
    have hread : (scanFrom (pos + 1 + n) (t.drop n)).unreadable = none := by
      rw [scanFrom_of_lexeme hs hl] at h
      exact h
    obtain ⟨u, hu⟩ := spell_itemMarks_cons selects σ ⟨some kind, c :: t.take n, pos⟩ rfl
    have htext : spell σ (sheetMarks selects pos (c :: t)) =
        c :: (u ++ spell σ (sheetMarks selects (pos + 1 + n) (t.drop n))) := by
      rw [sheetMarks, itemsFrom_of_lexeme hs hl, List.flatMap_cons, spell_append, hu]
      rfl
    -- no name stands before the first dot, so nothing before it can turn into skipped text
    have hs' := skipped_eq_none_of_beforeDot hs hl (htext ▸ beforeDot_spell_sheetMarks selects h)
    have hl' := lexeme_spell hσ hl hread hu
    obtain ⟨hread', hitems⟩ := ih hread (pos' + 1 + u.length)
    rw [htext, scanFrom_of_lexeme hs' hl', itemsFrom_of_lexeme hs' hl', List.drop_left, List.take_left]
    exact ⟨hread', .cons ⟨rfl, hu.symm⟩ hitems⟩
  | case4 pos c t hs hl =>
    rw [scanFrom, hs, hl] at h
    simp at h

end ShortClass.Stylesheet
