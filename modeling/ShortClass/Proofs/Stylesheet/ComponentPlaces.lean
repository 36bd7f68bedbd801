import ShortClass.Proofs.Stylesheet.Renaming
import ShortClass.Proofs.Stylesheet.RuleOrder

namespace ShortClass.Stylesheet

structure Component.Stands (source : List Char) (c : Component) : Prop where
  start_pos : 0 < c.start
  start_lt_stop : c.start < c.stop
  stop_le : c.stop ≤ source.length
  dot : source[c.start - 1]? = some '.'
  value : c.value = unescape (source.extract c.start c.stop)

def Component.Before (c d : Component) : Prop := c.start < d.start ∧ c.stop ≤ d.start

def rewritten (source : List Char) (new : Component → List Char) (pos : Nat) : List Component → List Char
  | [] => source.drop pos
  | c :: cs => source.extract pos c.start ++ new c ++ rewritten source new c.stop cs

theorem extract_of_drop_eq {source t r : List Char} {pos : Nat} (h : source.drop pos = t ++ r) :
    source.extract pos (pos + t.length) = t := by
  rw [List.extract_eq_take_drop, h, Nat.add_sub_cancel_left, List.take_left]

theorem drop_of_drop_eq {source t r : List Char} {pos : Nat} (h : source.drop pos = t ++ r) :
    source.drop (pos + t.length) = r := by
  rw [← List.drop_drop, h, List.drop_left]

theorem drop_drop_sub {source : List Char} {a b : Nat} (hab : a ≤ b) :
    (source.drop a).drop (b - a) = source.drop b := by
  rw [List.drop_drop, Nat.add_sub_of_le hab]

theorem extract_append_extract {source : List Char} {a b c : Nat} (hab : a ≤ b) (hbc : b ≤ c) :
    source.extract a b ++ source.extract b c = source.extract a c := by
  have hlen : c - a = (b - a) + (c - b) := by omega
  simp only [List.extract_eq_take_drop]
  rw [hlen, List.take_add, drop_drop_sub hab]

theorem rewritten_of_le {source : List Char} {new : Component → List Char} {a b : Nat} {cs : List Component}
    (hab : a ≤ b) (hcs : ∀ c ∈ cs, b ≤ c.start) :
    rewritten source new a cs = source.extract a b ++ rewritten source new b cs := by
  cases cs with
  | nil => rw [rewritten, rewritten, List.extract_eq_take_drop, ← drop_drop_sub hab, List.take_append_drop]
  | cons c cs =>
    have hbc := hcs c (by simp)
    rw [rewritten, rewritten, ← extract_append_extract hab hbc]
    simp only [List.append_assoc]

theorem extract_of_mem_itemsFrom {source s : List Char} {pos : Nat} (hs : source.drop pos = s) {i : Item}
    (h : i ∈ itemsFrom pos s) : source.extract i.start (i.start + i.text.length) = i.text := by
  have hitem {c : Char} {t : List Char} {pos n : Nat} (hs : source.drop pos = c :: t) :
      source.extract pos (pos + (c :: t.take n).length) = c :: t.take n ∧ source.drop (pos + 1 + n) = t.drop n := by
    constructor
    · have hsplit : source.drop pos = (c :: t.take n) ++ t.drop n := by
        rw [hs, List.cons_append, List.take_append_drop]
      exact extract_of_drop_eq hsplit
    · rw [← List.drop_drop, ← List.drop_drop, hs, List.drop_one, List.tail_cons]
  fun_induction itemsFrom pos s with
  | case1 pos => simp at h
  | case2 pos c t n _ ih =>
    obtain ⟨htext, hrest⟩ := hitem (n := n) hs
    rcases List.mem_cons.1 h with rfl | h
    · exact htext
    · exact ih hrest h
  | case3 pos c t _ kind n _ ih =>
    obtain ⟨htext, hrest⟩ := hitem (n := n) hs
    rcases List.mem_cons.1 h with rfl | h
    · exact htext
    · exact ih hrest h
  | case4 pos c t _ _ => simp at h

theorem extract_of_mem_segmentsOf {css : List Char} {ss : List Statement} (h : statements css = .ok ss) {g : Segment}
    (hg : g ∈ segmentsOf ss) : css.extract g.start g.stop = g.text := by
  rw [segmentsOf_statements h] at hg
  obtain ⟨i, hi, hig⟩ := List.mem_filterMap.1 hg
  rw [eq_of_segment? hig] at hi
  exact extract_of_mem_itemsFrom List.drop_zero hi

inductive Dotted : List Mark → Prop where
  | nil : Dotted []
  | char (c : Char) {ms : List Mark} : Dotted ms → Dotted (.char c :: ms)
  | pair (c : Char) {ms : List Mark} : Dotted ms → Dotted (.pair c :: ms)
  | name {w : List Char} {ms : List Mark} : w ≠ [] → Dotted ms → Dotted (.char '.' :: .name w :: ms)

namespace Dotted

variable {ms ns : List Mark}

theorem append (hms : Dotted ms) (hns : Dotted ns) : Dotted (ms ++ ns) := by
  induction hms with
  | nil => exact hns
  | char c _ ih => exact .char c ih
  | pair c _ ih => exact .pair c ih
  | name hw _ ih => exact .name hw ih

theorem of_atoms (t : List Char) : Dotted (atoms t) := by
  fun_induction atoms t with
  | case1 => exact .nil
  | case2 => exact .char _ .nil
  | case3 c t ih => exact .pair c ih
  | case4 c t _ _ ih => exact .char c ih

theorem of_selectorMarks (s : List Char) : Dotted (selectorMarks s) := by
  fun_induction pieces s with
  | case1 =>
    rw [selectorMarks_nil]
    exact .nil
  | case2 t n hn ih =>
    obtain ⟨hpos, hle, -, -⟩ := classLength_spec hn
    rw [selectorMarks_dot_of_some hn]
    refine .name (List.ne_nil_of_length_pos ?_) ih
    rwa [List.length_take_of_le hle]
  | case3 t hn ih =>
    rw [selectorMarks_dot_of_none hn]
    exact .char '.' ih
  | case4 c t hc ih =>
    rw [selectorMarks_cons hc]
    exact (of_atoms _).append ih

theorem of_sheetMarks (selects : Nat → Bool) (pos : Nat) (s : List Char) : Dotted (sheetMarks selects pos s) := by
  rw [sheetMarks]
  induction itemsFrom pos s with
  | nil => exact .nil
  | cons i is ih =>
    rw [List.flatMap_cons, itemMarks]
    split
    · exact (of_selectorMarks _).append ih
    · exact (of_atoms _).append ih

theorem lt_start (h : Dotted ms) {pos : Nat} {c : Component} (hc : c ∈ markComponents pos ms) : pos < c.start := by
  induction h generalizing pos with
  | nil => simp [markComponents] at hc
  | char d _ ih =>
    have hlt := ih hc
    omega
  | pair d _ ih =>
    have hlt := ih hc
    omega
  | name hw _ ih =>
    rcases List.mem_cons.1 hc with rfl | hc
    · exact Nat.lt_succ_self pos
    · have hlt := ih hc
      omega

theorem stands (h : Dotted ms) {source : List Char} {pos : Nat} (hs : source.drop pos = spell id ms) {c : Component}
    (hc : c ∈ markComponents pos ms) : c.Stands source := by
  induction h generalizing pos with
  | nil => simp [markComponents] at hc
  | char d _ ih => exact ih (drop_of_drop_eq (t := [d]) hs) hc
  | pair d _ ih => exact ih (drop_of_drop_eq (t := ['\\', d]) hs) hc
  | @name w ms hw _ ih =>
    have hname : source.drop (pos + 1) = w ++ spell id ms := drop_of_drop_eq (t := ['.']) hs
    rcases List.mem_cons.1 hc with rfl | hc
    · have hlen := congrArg List.length hname
      have hpos := List.length_pos_of_ne_nil hw
      rw [List.length_drop, List.length_append] at hlen
      refine ⟨Nat.succ_pos pos, Nat.lt_add_of_pos_right hpos, ?_, ?_, ?_⟩
      · show pos + 1 + w.length ≤ source.length
        omega
      · show source[pos]? = some '.'
        rw [← Nat.add_zero pos, ← List.getElem?_drop, hs]
        rfl
      · exact congrArg unescape (extract_of_drop_eq hname).symm
    · exact ih (drop_of_drop_eq hname) hc

theorem pairwise (h : Dotted ms) (pos : Nat) : (markComponents pos ms).Pairwise Component.Before := by
  induction h generalizing pos with
  | nil => exact .nil
  | char d _ ih => exact ih (pos + 1)
  | pair d _ ih => exact ih (pos + 2)
  | @name w ms _ hms ih =>
    refine .cons (fun d hd => ?_) (ih (pos + 1 + w.length))
    have hlt := hms.lt_start hd
    exact ⟨show pos + 1 < d.start by omega, Nat.le_of_lt hlt⟩

theorem rewritten_eq (h : Dotted ms) (σ : List Char → List Char) {source : List Char} {pos : Nat}
    (hs : source.drop pos = spell id ms) :
    rewritten source (fun c => σ (source.extract c.start c.stop)) pos (markComponents pos ms) = spell σ ms := by
  induction h generalizing pos with
  | nil =>
    rw [markComponents, rewritten, hs]
    rfl
  | @char d ms hms ih =>
    have hd : source.drop pos = [d] ++ spell id ms := hs
    rw [spell_cons, ← ih (drop_of_drop_eq hd), markComponents,
      rewritten_of_le (Nat.le_succ pos) fun c hc => Nat.le_of_lt (hms.lt_start hc)]
    exact congrArg (· ++ _) (extract_of_drop_eq hd)
  | @pair d ms hms ih =>
    have hd : source.drop pos = ['\\', d] ++ spell id ms := hs
    rw [spell_cons, ← ih (drop_of_drop_eq hd), markComponents,
      rewritten_of_le (Nat.le_add_right pos 2) fun c hc => Nat.le_of_lt (hms.lt_start hc)]
    exact congrArg (· ++ _) (extract_of_drop_eq hd)
  | @name w ms hw hms ih =>
    have hdot : source.extract pos (pos + 1) = ['.'] := extract_of_drop_eq (t := ['.']) hs
    have hname : source.drop (pos + 1) = w ++ spell id ms := drop_of_drop_eq (t := ['.']) hs
    rw [spell_cons, spell_cons, ← ih (drop_of_drop_eq hname), markComponents, markComponents, rewritten, hdot,
      extract_of_drop_eq hname, List.append_assoc]
    rfl

end Dotted

section Sheet

variable {css : List Char} {sheet : Stylesheet}

theorem components_eq_met (sheet : Stylesheet) :
    components sheet = (metFrom 0 sheet).flatMap fun m => m.2.flatMap Segment.components := by
  rw [components, ← map_snd_metFrom 0 sheet, List.flatMap_map]

theorem components_located (h : parse css = .ok sheet) :
    (∀ g ∈ segmentsOf sheet, css.extract g.start g.stop = g.text) ∧
      (∀ c ∈ components sheet, c.Stands css) ∧
      (components sheet).Pairwise Component.Before ∧
      (∃ met : List (List Nat × List Segment), met.Pairwise (fun m n => m.1 < n.1) ∧
        (∀ a p, (a, p) ∈ met ↔ Meets sheet a p) ∧
        components sheet = met.flatMap fun m => m.2.flatMap Segment.components) ∧
      ∀ f, renameClasses f css =
        .ok (rewritten css (fun c => respelling f (css.extract c.start c.stop)) 0 (components sheet)) := by
  have hs := parse_eq_ok_iff.1 h
  have hdotted := Dotted.of_sheetMarks (selects sheet) 0 css
  have htext : css.drop 0 = spell id (sheetMarks (selects sheet) 0 css) :=
    (spell_id_sheetMarks _ (unreadable_of_statements hs)).symm
  refine ⟨fun g hg => extract_of_mem_segmentsOf hs hg, ?_, ?_, ?_, fun f => ?_⟩
  · rw [components_eq_markComponents hs]
    exact fun c hc => hdotted.stands htext hc
  · rw [components_eq_markComponents hs]
    exact hdotted.pairwise 0
  · exact ⟨metFrom 0 sheet, metFrom_pairwise 0 sheet, fun a p => mem_met_iff, components_eq_met sheet⟩
  · rw [renameClasses_eq_respelled f h, components_eq_markComponents hs, hdotted.rewritten_eq (respelling f) htext]
    rfl

def nestedSheet : List Char := "@media x\x7b.a/**/ .b\\:c\x7b\x7d\x7d@KEYFRAMES k\x7b.z\x7b\x7d\x7d".toList

theorem components_located_nested :
    ∃ sheet, parse nestedSheet = .ok sheet ∧
      components sheet = [⟨['a'], 10, 11⟩, ⟨['b', ':', 'c'], 17, 21⟩] ∧
      renameClasses (fun _ => some ['q']) nestedSheet =
        .ok "@media x\x7b.q/**/ .q\x7b\x7d\x7d@KEYFRAMES k\x7b.z\x7b\x7d\x7d".toList := by
  have hparse : (parse nestedSheet).toOption.map components =
      some [⟨['a'], 10, 11⟩, ⟨['b', ':', 'c'], 17, 21⟩] := by decide +kernel
  obtain ⟨sheet, hsheet, hcs⟩ := Option.map_eq_some_iff.1 hparse
  have hok := eq_ok_of_toOption hsheet
  obtain ⟨-, -, -, -, hrename⟩ := components_located hok
  refine ⟨sheet, hok, hcs, (hrename _).trans ?_⟩
  rw [hcs]
  exact eq_ok_of_toOption (by decide +kernel)

end Sheet

end ShortClass.Stylesheet
