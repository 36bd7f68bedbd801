import ShortClass.Proofs.Outcome
import ShortClass.Proofs.ShortName
import ShortClass.Proofs.Stylesheet.KeptWhole
import ShortClass.Proofs.Stylesheet.SheetSegments

namespace ShortClass.Stylesheet

theorem exists_map_of_forall₂ {R : Item → Item → Prop} {is js : List Item} (h : List.Forall₂ R is js)
    (hn : is.Nodup) : ∃ g : Item → Item, js = is.map g ∧ ∀ i ∈ is, R i (g i) := by
  obtain ⟨hlen, hR⟩ := List.forall₂_iff_get.1 h
  refine ⟨fun i => js.getD (is.idxOf i) i, ?_, fun i hi => ?_⟩
  · apply List.ext_getElem (by simpa using hlen.symm)
    intro k hk hk'
    have hidx : is.idxOf is[k] = k := hn.idxOf_getElem k _
    simp [hidx, hk]
  · obtain ⟨k, hk, rfl⟩ := List.getElem_of_mem hi
    have hidx : is.idxOf is[k] = k := hn.idxOf_getElem k _
    have hk' : k < js.length := hlen ▸ hk
    simpa [hidx, hk'] using hR k hk hk'

def onSegment (g : Item → Item) (s : Segment) : Segment :=
  ⟨(g ⟨some .prelude, s.text, s.start⟩).text, (g ⟨some .prelude, s.text, s.start⟩).start⟩

theorem forall₂_token? {σ : List Char → List Char} {selects : Nat → Bool} {g : Item → Item} {is : List Item}
    (h : ∀ i ∈ is, i.Respelled σ selects (g i)) :
    List.Forall₂ (Token.Maps (onSegment g)) (is.filterMap Item.token?) ((is.map g).filterMap Item.token?) := by
  induction is with
  | nil => exact .nil
  | cons i is ih =>
    have hrest := ih fun j hj => h j (by simp [hj])
    obtain ⟨hkind, htext⟩ := h i (by simp)
    obtain ⟨kind, text, start⟩ := i
    cases kind with
    | none =>
      rw [List.map_cons, List.filterMap_cons_none rfl, List.filterMap_cons_none (by simp [Item.token?, hkind])]
      exact hrest
    | some k =>
      simp only [List.map_cons, List.filterMap_cons, Item.token?, Option.map_some, hkind]
      refine .cons ⟨rfl, ?_, ?_⟩ hrest
      · rintro rfl
        rfl
      · rintro rfl
        rw [htext, itemMarks_of_ne_prelude (by simp), spell_atoms]

section Sheet

variable {σ : List Char → List Char} {css : List Char} {ss : List Statement}

def respelled (σ : List Char → List Char) (ss : List Statement) (css : List Char) : List Char :=
  spell σ (sheetMarks (selects ss) 0 css)

theorem mem_itemsFrom_of_mem_selectorsOf (h : statements css = .ok ss) {s : Segment}
    (hs : s ∈ (selectorsOf ss).flatten) :
    ⟨some .prelude, s.text, s.start⟩ ∈ itemsFrom 0 css ∧ selects ss s.start = true := by
  rw [← filter_selects h] at hs
  obtain ⟨hs, hsel⟩ := List.mem_filter.1 hs
  obtain ⟨i, hi, his⟩ := List.mem_filterMap.1 hs
  rw [eq_of_segment? his] at hi
  exact ⟨hi, hsel⟩

theorem statements_respelled (hσ : IsSpelling σ) (h : statements css = .ok ss) :
    ∃ g : Segment → Segment, statements (respelled σ ss css) = .ok (mapStatements g ss) ∧
      ∀ s ∈ (selectorsOf ss).flatten, (g s).text = spell σ (selectorMarks s.text) := by
  obtain ⟨hread, hitems⟩ := itemsFrom_spell hσ (selects ss) (unreadable_of_statements h) 0
  have hnodup : (itemsFrom 0 css).Nodup :=
    (itemsFrom_pairwise 0 css).imp fun hlt heq => absurd (congrArg Item.start heq) (Nat.ne_of_lt hlt)
  obtain ⟨g, hg, hitem⟩ := exists_map_of_forall₂ hitems hnodup
  refine ⟨onSegment g, ?_, fun s hs => ?_⟩
  · have hbuild := build_map (forall₂_token? hitem) rfl (build_of_statements h)
    rw [← hg, ← tokens_scanFrom] at hbuild
    rw [statements, scan, respelled, hread]
    exact hbuild
  · obtain ⟨hmem, hsel⟩ := mem_itemsFrom_of_mem_selectorsOf h hs
    exact (hitem _ hmem).text.trans (by rw [itemMarks, if_pos ⟨rfl, hsel⟩])

theorem parse_eq_ok_iff : parse css = .ok ss ↔ statements css = .ok ss := by
  rw [parse]
  cases statements css <;> simp [Except.mapError]

end Sheet

def ruleClasses (p : List Segment) : List ClassName := (p.flatMap Segment.components).map (·.value)

theorem values_components (ss : List Statement) :
    (components ss).map (·.value) = (selectorsOf ss).flatMap ruleClasses := by
  rw [components, List.map_flatMap]
  rfl

def renamed (f : ClassName → Option ClassName) (c : ClassName) : ClassName := (f c).getD c

section Rename

variable {f : ClassName → Option ClassName} {css : List Char} {ss : List Statement}

theorem isSpelling_respelling (hf : ∀ c n, f c = some n → IsShortName n) : IsSpelling (respelling f) := by
  intro w
  rw [respelling]
  split
  · next n hn =>
    split
    · exact .inl rfl
    · exact .inr (hf _ _ hn).isWord
  · exact .inl rfl

theorem unescape_respelling (hf : ∀ c n, f c = some n → IsShortName n) (w : List Char) :
    unescape (respelling f w) = renamed f (unescape w) := by
  rw [respelling, renamed]
  split
  · next n hn =>
    rw [hn, Option.getD_some]
    split
    · next heq => exact heq.symm
    · exact (hf _ _ hn).unescape
  · next hn => rw [hn, Option.getD_none]

theorem ruleClasses_respelled (hf : ∀ c n, f c = some n → IsShortName n) {g : Segment → Segment} {p : List Segment}
    (hp : ∀ s ∈ p, Closed s.text ∧ (g s).text = spell (respelling f) (selectorMarks s.text)) :
    ruleClasses (p.map g) = (ruleClasses p).map (renamed f) := by
  induction p with
  | nil => rfl
  | cons s p ih =>
    obtain ⟨hcl, htext⟩ := hp s (by simp)
    have hrest := ih fun t ht => hp t (by simp [ht])
    have hs : ((g s).components).map (·.value) = (s.components.map (·.value)).map (renamed f) := by
      rw [Segment.components, Segment.components, htext, values_spell (isSpelling_respelling hf) _ hcl,
        values_componentsFrom _ hcl, List.map_map]
      exact List.map_congr_left fun w _ => unescape_respelling hf w
    simp only [ruleClasses, List.map_cons, List.flatMap_cons, List.map_append] at hrest ⊢
    rw [hs, hrest]

theorem closed_of_mem_selectorsOf (h : statements css = .ok ss) {s : Segment} (hs : s ∈ (selectorsOf ss).flatten) :
    Closed s.text :=
  closed_of_mem_itemsFrom (mem_itemsFrom_of_mem_selectorsOf h hs).1

theorem parse_respelled (hf : ∀ c n, f c = some n → IsShortName n) (h : parse css = .ok ss) :
    ∃ g : Segment → Segment, parse (respelled (respelling f) ss css) = .ok (mapStatements g ss) ∧
      ∀ p ∈ selectorsOf ss, ruleClasses (p.map g) = (ruleClasses p).map (renamed f) := by
  rw [parse_eq_ok_iff] at h
  obtain ⟨g, hg, htext⟩ := statements_respelled (isSpelling_respelling hf) h
  refine ⟨g, parse_eq_ok_iff.2 hg, fun p hp => ruleClasses_respelled hf fun s hs => ?_⟩
  have hmem := List.mem_flatten_of_mem hp hs
  exact ⟨closed_of_mem_selectorsOf h hmem, htext s hmem⟩

theorem classes_of_parse (h : parse css = .ok ss) : classes css = .ok ((components ss).map (·.value)) := by
  rw [classes, h]
  rfl

theorem exists_parse_of_classes {cs : List ClassName} (h : classes css = .ok cs) :
    ∃ ss, parse css = .ok ss ∧ cs = (components ss).map (·.value) := by
  cases hp : parse css with
  | error e =>
    rw [classes, hp] at h
    simp [bind, Except.bind] at h
  | ok ss =>
    rw [classes_of_parse hp] at h
    exact ⟨ss, rfl, (Except.ok.inj h).symm⟩

theorem classes_respelled (hf : ∀ c n, f c = some n → IsShortName n) (h : parse css = .ok ss) :
    classes (respelled (respelling f) ss css) = .ok (((components ss).map (·.value)).map (renamed f)) := by
  obtain ⟨g, hg, hrules⟩ := parse_respelled hf h
  rw [classes_of_parse hg, values_components, values_components, selectorsOf_mapStatements, List.flatMap_map,
    List.map_flatMap, List.flatMap_congr hrules]

theorem renameClasses_eq_respelled (f : ClassName → Option ClassName) (h : parse css = .ok ss) :
    renameClasses f css = .ok (respelled (respelling f) ss css) := by
  have hs := parse_eq_ok_iff.1 h
  have hsplice := spliced_markComponents f (aligned_sheetMarks (selects ss) isSpelling_id 0 css) 0
  rw [spell_id_sheetMarks _ (unreadable_of_statements hs), ← components_eq_markComponents hs] at hsplice
  rw [renameClasses, h]
  simp only [Except.mapError, bind, Except.bind]
  rw [EditBuffer.applyAll_of_spliced hsplice]
  rfl

end Rename

/-- Is `j` the item `i` with names written by `σ` and every other cut as it was? Only a prelude has
another text. Its strings, attribute selectors and escapes are the same, its groups stand where they
stood, and its names are written by `σ`. -/
structure Item.SameCut (σ : List Char → List Char) (i j : Item) : Prop where
  kind : j.kind = i.kind
  other : i.kind ≠ some .prelude → j.text = i.text
  pieces : j.text = i.text ∨ pieces j.text = (pieces i.text).map (Piece.respell σ)
  wholes : ∃ gs : List (List Mark), wholes i.text = gs.map (spell id) ∧ wholes j.text = gs.map (spell σ)

theorem Item.Respelled.sameCut {σ : List Char → List Char} {selects : Nat → Bool} {i j : Item}
    (h : i.Respelled σ selects j) (hσ : IsSpelling σ) (hi : Closed i.text) : i.SameCut σ j where
  kind := h.kind
  other hk := by rw [h.text, itemMarks_of_ne_prelude hk, spell_atoms]
  pieces := by
    rw [h.text, itemMarks]
    split
    · exact .inr (pieces_spell hσ hi)
    · exact .inl (spell_atoms σ _)
  wholes := by
    obtain ⟨gs, hgs⟩ := wholes_spell (itemMarks selects i)
    have hid := hgs id (aligned_itemMarks selects isSpelling_id hi)
    rw [spell_id_itemMarks] at hid
    exact ⟨gs, hid, h.text ▸ hgs σ (aligned_itemMarks selects hσ hi)⟩

theorem itemsFrom_respelled {f : ClassName → Option ClassName} (hf : ∀ c n, f c = some n → IsShortName n)
    {css : List Char} {ss : List Statement} (h : parse css = .ok ss) :
    (itemsFrom 0 (respelled (respelling f) ss css)).flatMap Item.text = respelled (respelling f) ss css ∧
      List.Forall₂ (Item.SameCut (respelling f)) (itemsFrom 0 css)
        (itemsFrom 0 (respelled (respelling f) ss css)) := by
  have hσ := isSpelling_respelling hf
  obtain ⟨hread, hitems⟩ := itemsFrom_spell hσ (selects ss) (unreadable_of_statements (parse_eq_ok_iff.1 h)) 0
  refine ⟨text_itemsFrom hread, ?_⟩
  have hclosed : ∀ i ∈ itemsFrom 0 css, Closed i.text := fun i hi => closed_of_mem_itemsFrom hi
  exact ((List.forall₂_and_left _ _).2 ⟨hclosed, hitems⟩).imp fun _ _ hij => hij.2.sameCut hσ hij.1

theorem classes_renameClasses {f : ClassName → Option ClassName} (hf : ∀ c n, f c = some n → IsShortName n)
    {css : List Char} {ss : List Statement} (h : parse css = .ok ss) :
    ∃ css' cs, renameClasses f css = .ok css' ∧ classes css = .ok cs ∧
      classes css' = .ok (cs.map fun c => (f c).getD c) ∧
      (∃ g : Segment → Segment, parse css' = .ok (mapStatements g ss) ∧
        ∀ p ∈ selectorsOf ss, ruleClasses (p.map g) = (ruleClasses p).map fun c => (f c).getD c) ∧
      (itemsFrom 0 css').flatMap Item.text = css' ∧
      List.Forall₂ (Item.SameCut (respelling f)) (itemsFrom 0 css) (itemsFrom 0 css') :=
  ⟨_, _, renameClasses_eq_respelled f h, classes_of_parse h, classes_respelled hf h, parse_respelled hf h,
    itemsFrom_respelled hf h⟩

theorem classes_renameClasses_escapes :
    ∃ css', renameClasses (fun c => if c = "a1b".toList then some "Z-9".toList else none)
        ".a\\31 b:not(.c\\)):x\x7b\x7d".toList = .ok css' ∧
      classes css' = .ok ["Z-9".toList, "c)".toList] := by
  have hcs : classes ".a\\31 b:not(.c\\)):x\x7b\x7d".toList = .ok ["a1b".toList, "c)".toList] :=
    eq_ok_of_toOption (by decide +kernel)
  obtain ⟨ss, hss, -⟩ := exists_parse_of_classes hcs
  have hf : ∀ c n, (if c = "a1b".toList then some "Z-9".toList else none) = some n → IsShortName n := by
    intro c n h
    obtain ⟨-, hn⟩ := Option.ite_none_right_eq_some.1 h
    obtain rfl := Option.some.inj hn
    decide
  obtain ⟨css', cs, hrename, hclasses, hclasses', -⟩ := classes_renameClasses hf hss
  obtain rfl := Except.ok.inj (hclasses.symm.trans hcs)
  exact ⟨css', hrename, hclasses'⟩

end ShortClass.Stylesheet
