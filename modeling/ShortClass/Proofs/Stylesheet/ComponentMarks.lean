import ShortClass.Proofs.Splice
import ShortClass.Proofs.Stylesheet.SelectorPieces

namespace ShortClass.Stylesheet

def markComponents (pos : Nat) : List Mark → List Component
  | [] => []
  | .char _ :: ms => markComponents (pos + 1) ms
  | .pair _ :: ms => markComponents (pos + 2) ms
  | .name w :: ms => ⟨unescape w, pos, pos + w.length⟩ :: markComponents (pos + w.length) ms

theorem markComponents_append (pos : Nat) (ms ns : List Mark) :
    markComponents pos (ms ++ ns) =
      markComponents pos ms ++ markComponents (pos + (spell id ms).length) ns := by
  induction ms generalizing pos with
  | nil => simp [markComponents]
  | cons m ms ih =>
    have hpos : pos + (spell id (m :: ms)).length = pos + (m.spell id).length + (spell id ms).length := by
      rw [spell_cons, List.length_append, Nat.add_assoc]
    rw [hpos]
    cases m <;> simp [markComponents, ih, Mark.spell]

theorem markComponents_atoms (pos : Nat) (t : List Char) : markComponents pos (atoms t) = [] := by
  fun_induction atoms t generalizing pos with
  | case1 => rfl
  | case2 => rfl
  | case3 c t ih => exact ih _
  | case4 c t _ _ ih => exact ih _

theorem componentsFrom_cons {c : Char} {t : List Char} (pos : Nat) (hc : c ≠ '.') (h : Closed (c :: t)) :
    componentsFrom pos (c :: t) =
      componentsFrom (pos + 1 + passedLength c t) (t.drop (passedLength c t)) := by
  rw [componentsFrom, if_neg hc]
  by_cases hb : c = '\\'
  · subst hb
    rw [passedLength_backslash]
    cases hn : escapeTail t with
    | some n => simp [isQuote]
    | none =>
      -- the backslash and the line break after it are passed one by one
      cases t with
      | nil => cases h with
        | char hc _ => exact absurd rfl hc
      | cons d t =>
        have hd : d = '\n' ∨ d = '\r' ∨ d = '\x0c' := by
          simp only [escapeTail] at hn
          split at hn
          · simp at hn
          split at hn
          · next hd => exact hd
          · simp at hn
        have hne : d ≠ '.' := by rcases hd with rfl | rfl | rfl <;> decide
        have hstep : componentsFrom (pos + 1) (d :: t) = componentsFrom (pos + 1 + 1) t := by
          rw [componentsFrom, if_neg hne]
          rcases hd with rfl | rfl | rfl <;> simp [isQuote]
        simpa [isQuote, hn] using hstep
  · simp only [passedLength, if_neg hb]
    split
    · rfl
    split <;> rfl

theorem componentsFrom_eq (pos : Nat) {s : List Char} (hs : Closed s) :
    componentsFrom pos s = markComponents pos (selectorMarks s) := by
  fun_induction pieces s generalizing pos with
  | case1 => simp [selectorMarks_nil, componentsFrom, markComponents]
  | case2 t n h ih =>
    obtain ⟨-, hle, -, -⟩ := classLength_spec h
    rw [selectorMarks_dot_of_some h, componentsFrom, if_pos rfl, h]
    simp only [markComponents, List.length_take_of_le hle]
    rw [ih _ (closed_drop_classLength hs h)]
  | case3 t h ih =>
    rw [selectorMarks_dot_of_none h, componentsFrom, if_pos rfl, h]
    exact ih _ (hs.tail (by decide))
  | case4 c t hc ih =>
    rw [componentsFrom_cons pos hc hs, selectorMarks_cons hc, markComponents_append, markComponents_atoms,
      spell_atoms, List.nil_append, List.length_cons, List.length_take_of_le (passedLength_le hs),
      ih _ (closed_drop_passedLength hs), Nat.add_assoc, Nat.add_comm 1]

def Piece.name? : Piece → Option (List Char)
  | other _ => none
  | name w => some w

theorem values_componentsFrom (pos : Nat) {s : List Char} (hs : Closed s) :
    (componentsFrom pos s).map (·.value) = ((pieces s).filterMap Piece.name?).map unescape := by
  fun_induction pieces s generalizing pos with
  | case1 => simp [componentsFrom]
  | case2 t n h ih =>
    rw [componentsFrom, if_pos rfl, h]
    simp [List.filterMap_cons, Piece.name?, ih _ (closed_drop_classLength hs h)]
  | case3 t h ih =>
    rw [componentsFrom, if_pos rfl, h]
    simp [List.filterMap_cons, Piece.name?, ih _ (hs.tail (by decide))]
  | case4 c t hc ih =>
    rw [componentsFrom_cons pos hc hs, ih _ (closed_drop_passedLength hs)]
    simp [List.filterMap_cons, Piece.name?]

theorem values_spell {σ : List Char → List Char} (hσ : IsSpelling σ) (pos : Nat) {s : List Char} (hs : Closed s) :
    (componentsFrom pos (spell σ (selectorMarks s))).map (·.value) =
      ((pieces s).filterMap Piece.name?).map fun w => unescape (σ w) := by
  have hname : Piece.name? ∘ Piece.respell σ = fun p => p.name?.map σ := by
    funext p
    cases p <;> rfl
  rw [values_componentsFrom pos (aligned_selectorMarks hσ hs).closed, pieces_spell hσ hs, List.filterMap_map,
    hname, ← List.map_filterMap, List.map_map]
  rfl

/-- The spelling that renaming by `f` stands for: a class keeps its written form unless it gets another
name. -/
def respelling (f : ClassName → Option ClassName) (w : List Char) : List Char :=
  match f (unescape w) with
  | some name => if name = unescape w then w else name
  | none => w

def componentEdit? (f : ClassName → Option ClassName) (c : Component) : Option (Edit Char) :=
  match f c.value with
  | some name => if name = c.value then none else some ⟨c.start, c.stop, name⟩
  | none => none

theorem renameEdits_eq (f : ClassName → Option ClassName) (cs : List Component) :
    renameEdits f cs = cs.filterMap (componentEdit? f) := rfl

theorem componentEdit?_name (f : ClassName → Option ClassName) (w : List Char) (start stop : Nat) :
    (componentEdit? f ⟨unescape w, start, stop⟩ = none ∧ respelling f w = w) ∨
      componentEdit? f ⟨unescape w, start, stop⟩ = some ⟨start, stop, respelling f w⟩ := by
  rw [componentEdit?, respelling]
  simp only
  split
  · split
    · exact .inl ⟨rfl, rfl⟩
    · exact .inr rfl
  · exact .inl ⟨rfl, rfl⟩

theorem spliced_name (f : ClassName → Option ClassName) (pos : Nat) {w : List Char} (hw : w ≠ []) :
    Spliced pos w (componentEdit? f ⟨unescape w, pos, pos + w.length⟩).toList (respelling f w) := by
  rcases componentEdit?_name f w pos (pos + w.length) with ⟨he, hsame⟩ | he
  · rw [he, hsame]
    exact .copy pos w
  · rw [he]
    exact .put _ _ hw

theorem spliced_markComponents (f : ClassName → Option ClassName) {ms : List Mark} (hms : Aligned id ms) (pos : Nat) :
    Spliced pos (spell id ms) (renameEdits f (markComponents pos ms)) (spell (respelling f) ms) := by
  induction ms generalizing pos with
  | nil => exact .copy pos []
  | cons m ms ih =>
    have hrest := ih hms.tail
    rw [spell_cons, spell_cons]
    cases m with
    | char c => exact (Spliced.copy pos [c]).append (hrest (pos + 1))
    | pair c => exact (Spliced.copy pos ['\\', c]).append (hrest (pos + 2))
    | name w =>
      obtain ⟨-, hw⟩ : Passed w ∧ w ≠ [] := hms (.name w) (by simp)
      have hedits : renameEdits f (markComponents pos (.name w :: ms)) =
          (componentEdit? f ⟨unescape w, pos, pos + w.length⟩).toList ++
            renameEdits f (markComponents (pos + w.length) ms) := by
        simp only [markComponents, renameEdits_eq, List.filterMap_cons]
        cases componentEdit? f ⟨unescape w, pos, pos + w.length⟩ <;> rfl
      rw [hedits]
      exact (spliced_name f pos hw).append (hrest (pos + w.length))

end ShortClass.Stylesheet
