import Mathlib.Data.List.Forall2
import ShortClass.Stylesheet.Statement

namespace ShortClass.Stylesheet

mutual

def Statement.segments : Statement → List Segment
  | .rule p children => p ++ segmentsOf children
  | .atBlock _ p children => p ++ segmentsOf children
  | .atLine _ p => p
  | .declaration p => p

def segmentsOf : List Statement → List Segment
  | [] => []
  | s :: ss => s.segments ++ segmentsOf ss

end

theorem segmentsOf_append (ss ts : List Statement) : segmentsOf (ss ++ ts) = segmentsOf ss ++ segmentsOf ts := by
  induction ss with
  | nil => simp [segmentsOf]
  | cons s ss ih => simp [segmentsOf, ih]

mutual

theorem Statement.selectors_sublist : (s : Statement) → s.selectors.flatten.Sublist s.segments
  | .rule p children => by
    rw [Statement.selectors, Statement.segments, List.flatten_cons]
    exact (selectorsOf_sublist children).append_left p
  | .atBlock name p children => by
    rw [Statement.selectors, Statement.segments]
    split
    · exact List.nil_sublist _
    · exact (selectorsOf_sublist children).trans (List.sublist_append_right _ _)
  | .atLine _ p => by rw [Statement.selectors]; exact List.nil_sublist _
  | .declaration p => by rw [Statement.selectors]; exact List.nil_sublist _

theorem selectorsOf_sublist : (ss : List Statement) → (selectorsOf ss).flatten.Sublist (segmentsOf ss)
  | [] => by rw [selectorsOf]; exact List.nil_sublist _
  | s :: ss => by
    rw [selectorsOf, segmentsOf, List.flatten_append]
    exact s.selectors_sublist.append (selectorsOf_sublist ss)

end

def Head.segments : Head → List Segment
  | plain p => p
  | atRule _ p => p

@[simp] theorem Head.segments_extend (h : Head) (s : Segment) : (h.extend s).segments = h.segments ++ [s] := by
  cases h <;> rfl

@[simp] theorem Head.segments_line (h : Head) : h.line.segments = h.segments := by
  cases h <;> simp [Head.line, Statement.segments, Head.segments]

@[simp] theorem Head.segments_block (h : Head) (ss : List Statement) :
    (h.block ss).segments = h.segments ++ segmentsOf ss := by
  cases h <;> simp [Head.block, Statement.segments, Head.segments]

def Token.segments (t : Token) : List Segment := if t.kind = .prelude then [⟨t.text, t.start⟩] else []

namespace Builder

def segments (b : Builder) : List Segment :=
  b.outer.reverse.flatMap (fun o => segmentsOf o.2 ++ o.1.segments) ++ segmentsOf b.done ++
    (b.head.map Head.segments).getD []

theorem segments_flush (b : Builder) : b.flush.segments = b.segments := by
  rw [flush]
  split
  · rfl
  · next h hh => simp [segments, hh, segmentsOf_append, segmentsOf]

theorem head_flush (b : Builder) : b.flush.head = none := by
  rw [flush]
  split
  · assumption
  · rfl

theorem outer_flush (b : Builder) : b.flush.outer = b.outer := by
  rw [flush]
  split <;> rfl

theorem segments_step {b b' : Builder} {t : Token} (h : b.step t = some b') :
    b'.segments = b.segments ++ t.segments := by
  rw [step] at h
  split at h
  · next hk hh =>
    cases h
    simp [segments, hk, hh, Token.segments, Head.segments]
  · next d hk hh =>
    cases h
    simp [segments, hk, hh, Token.segments]
  · next hk hh =>
    cases h
    simp [segments, hk, hh, Token.segments, Head.segments]
  · simp at h
  · next hk =>
    cases h
    simp [segments_flush, hk, Token.segments]
  · simp at h
  · next d hk hh =>
    cases h
    simp [segments, hk, hh, Token.segments, segmentsOf]
  · next hk =>
    split at h
    · simp at h
    · next d before outer ho =>
      cases h
      have hf := b.segments_flush
      simp only [segments, head_flush, outer_flush, Option.map_none, Option.getD_none, List.append_nil] at hf ⊢
      rw [← hf, ho]
      simp [hk, Token.segments, segmentsOf_append, segmentsOf]

end Builder

theorem segmentsOf_build {b : Builder} {last : Option Token} {ts : List Token} {ss : List Statement}
    (hb : last = none → b.isComplete = true) (h : build b last none ts = .ok ss) :
    segmentsOf ss = b.segments ++ ts.flatMap Token.segments := by
  induction ts generalizing b last with
  | nil =>
    have hdone : b.isComplete = true ∧ ss = b.done := by
      cases last with
      | none =>
        cases h
        exact ⟨hb rfl, rfl⟩
      | some t =>
        simp only [build] at h
        split at h
        · next hc =>
          cases h
          exact ⟨hc, rfl⟩
        · simp at h
    obtain ⟨hc, rfl⟩ := hdone
    simp only [Builder.isComplete, Bool.and_eq_true, List.isEmpty_iff, Option.isNone_iff_eq_none] at hc
    simp [Builder.segments, hc.1, hc.2]
  | cons t ts ih =>
    rw [build] at h
    split at h
    · next b' hs =>
      rw [ih (by simp) h, Builder.segments_step hs, List.flatMap_cons, List.append_assoc]
    · simp at h

mutual

def Statement.map (g : Segment → Segment) : Statement → Statement
  | .rule p children => .rule (p.map g) (mapStatements g children)
  | .atBlock name p children => .atBlock name (p.map g) (mapStatements g children)
  | .atLine name p => .atLine name (p.map g)
  | .declaration p => .declaration (p.map g)

def mapStatements (g : Segment → Segment) : List Statement → List Statement
  | [] => []
  | s :: ss => s.map g :: mapStatements g ss

end

theorem mapStatements_append (g : Segment → Segment) (ss ts : List Statement) :
    mapStatements g (ss ++ ts) = mapStatements g ss ++ mapStatements g ts := by
  induction ss with
  | nil => simp [mapStatements]
  | cons s ss ih => simp [mapStatements, ih]

mutual

theorem Statement.selectors_map (g : Segment → Segment) :
    (s : Statement) → (s.map g).selectors = s.selectors.map (List.map g)
  | .rule p children => by
    simp [Statement.map, Statement.selectors, selectorsOf_mapStatements g children]
  | .atBlock name p children => by
    simp only [Statement.map, Statement.selectors, selectorsOf_mapStatements g children]
    split <;> rfl
  | .atLine _ _ => by simp [Statement.map, Statement.selectors]
  | .declaration _ => by simp [Statement.map, Statement.selectors]

theorem selectorsOf_mapStatements (g : Segment → Segment) :
    (ss : List Statement) → selectorsOf (mapStatements g ss) = (selectorsOf ss).map (List.map g)
  | [] => by simp [mapStatements, selectorsOf]
  | s :: ss => by
    simp [mapStatements, selectorsOf, s.selectors_map g, selectorsOf_mapStatements g ss]

end

namespace Head

def map (g : Segment → Segment) : Head → Head
  | plain p => plain (p.map g)
  | atRule name p => atRule name (p.map g)

variable (g : Segment → Segment) (h : Head)

@[simp] theorem map_extend (s : Segment) : (h.extend s).map g = (h.map g).extend (g s) := by
  cases h <;> simp [map, extend]

@[simp] theorem line_map : (h.map g).line = h.line.map g := by
  cases h <;> simp [map, line, Statement.map]

@[simp] theorem block_map (ss : List Statement) : (h.map g).block (mapStatements g ss) = (h.block ss).map g := by
  cases h <;> simp [map, block, Statement.map]

end Head

structure Token.Maps (g : Segment → Segment) (t t' : Token) : Prop where
  kind : t'.kind = t.kind
  segment : t.kind = .prelude → Segment.mk t'.text t'.start = g ⟨t.text, t.start⟩
  name : t.kind = .atKeyword → t'.text = t.text

namespace Builder

variable (g : Segment → Segment)

def map (b : Builder) : Builder :=
  ⟨b.outer.map fun o => (o.1.map g, mapStatements g o.2), mapStatements g b.done, b.head.map (Head.map g)⟩

theorem flush_map (b : Builder) : (b.map g).flush = b.flush.map g := by
  cases b with
  | mk outer done head =>
    cases head <;> simp [flush, map, mapStatements_append, mapStatements]

theorem step_map {b b' : Builder} {t t' : Token} (ht : t.Maps g t') (h : b.step t = some b') :
    (b.map g).step t' = some (b'.map g) := by
  obtain ⟨hkind, hseg, hname⟩ := ht
  rw [step] at h
  split at h
  · next hk hh =>
    cases h
    simp [step, hkind, hk, map, hh, hseg hk, Head.map]
  · next d hk hh =>
    cases h
    simp [step, hkind, hk, map, hh, hseg hk]
  · next hk hh =>
    cases h
    simp [step, hkind, hk, map, hh, hname hk, Head.map]
  · simp at h
  · next hk =>
    cases h
    simp [step, hkind, hk, flush_map]
  · simp at h
  · next d hk hh =>
    cases h
    simp [step, hkind, hk, map, hh, mapStatements]
  · next hk =>
    split at h
    · simp at h
    · next d before outer ho =>
      cases h
      have hd : (b.map g).flush.done = mapStatements g b.flush.done := by rw [flush_map]; rfl
      simp only [step, hkind, hk, hd]
      simp [map, ho, mapStatements_append, mapStatements]

end Builder

theorem build_map {g : Segment → Segment} {b : Builder} {last last' : Option Token} {ts ts' : List Token}
    {ss : List Statement} (hts : List.Forall₂ (Token.Maps g) ts ts') (hl : last'.isSome = last.isSome)
    (h : build b last none ts = .ok ss) : build (b.map g) last' none ts' = .ok (mapStatements g ss) := by
  induction hts generalizing b last last' with
  | nil =>
    cases last with
    | none =>
      obtain rfl : last' = none := by simpa using hl
      cases h
      rfl
    | some t =>
      obtain ⟨t', rfl⟩ := Option.isSome_iff_exists.1 hl
      have hc : (b.map g).isComplete = b.isComplete := by simp [Builder.isComplete, Builder.map]
      simp only [build] at h ⊢
      rw [hc]
      split at h
      · next hb =>
        cases h
        rw [if_pos hb]
        rfl
      · simp at h
  | cons ht _ ih =>
    rw [build] at h ⊢
    split at h
    · next b' hs =>
      rw [Builder.step_map g ht hs]
      exact ih (by simp) h
    · simp at h

end ShortClass.Stylesheet
