import Mathlib.Data.List.Flatten
import ShortClass.Proofs.Program.ReachedNodes
import ShortClass.Proofs.Program.ParsedTree
import ShortClass.Proofs.RenamedSource
import ShortClass.Proofs.SeparateEdits

namespace ShortClass.Program

variable {p : Program}

def Node.IsBare (n : Node) : Prop := n.hasKind .string = false ∧ n.hasKind .template = false

/-- How a node lies in the source, and its children in it. What is in a string does not matter. -/
structure Node.LaidOut (n : Node) : Prop where
  le : n.start ≤ n.stop
  delimited : n.kind = .string ∨ n.kind = .template → n.start + 2 ≤ n.stop
  inside : n.kind ≠ .string → ∀ c ∈ n.children, n.start ≤ c.start ∧ c.stop ≤ n.stop
  inOrder : n.kind ≠ .string → n.children.Pairwise fun c d => c.stop ≤ d.start
  between : n.kind = .template → ∀ c ∈ n.children, c.kind = .substitution → n.start < c.start ∧ c.stop < n.stop
  bare : n.kind = .template → ∀ c ∈ n.children, c.kind ≠ .substitution → c.IsBare

structure LaidOut (p : Program) : Prop where
  nodes : ∀ path n, p.Reached path n → n.LaidOut
  inside : p.root.stop ≤ p.source.length

section Nested

theorem Chained.inside {pos stop : Nat} {ns : List Node} (h : Chained pos stop ns) :
    ∀ n ∈ ns, pos ≤ n.start ∧ n.stop ≤ stop := by
  induction ns generalizing pos with
  | nil => simp
  | cons m ns ih =>
    obtain ⟨hpos, hm, hns⟩ := chained_cons.1 h
    refine List.forall_mem_cons.2 ⟨⟨hpos, hns.le⟩, fun n hn => ?_⟩
    obtain ⟨hstart, hstop⟩ := ih hns n hn
    exact ⟨hpos.trans (hm.le.trans hstart), hstop⟩

theorem Chained.inOrder {pos stop : Nat} {ns : List Node} (h : Chained pos stop ns) :
    ns.Pairwise fun m n => m.stop ≤ n.start := by
  induction ns generalizing pos with
  | nil => exact .nil
  | cons m ns ih =>
    obtain ⟨-, -, hns⟩ := chained_cons.1 h
    exact .cons (fun n hn => (hns.inside n hn).1) (ih hns)

theorem Node.Nested.laidOut {n : Node} (h : n.Nested) : n.LaidOut := by
  have hchain : n.kind ≠ .string → ∃ lo hi, n.start ≤ lo ∧ hi ≤ n.stop ∧ Chained lo hi n.children := by
    intro hs
    by_cases ht : n.kind = .template
    · obtain ⟨hlong, -, hchain⟩ := h.of_template ht
      exact ⟨_, _, by omega, by omega, hchain⟩
    · exact ⟨_, _, Nat.le_refl _, Nat.le_refl _, h.of_other hs ht⟩
  refine ⟨h.le, ?_, fun hs c hc => ?_, fun hs => ?_, fun ht c hc _ => ?_, fun ht c hc hk => ?_⟩
  · rintro (hs | ht)
    · exact h.of_string hs
    · exact (h.of_template ht).1
  · obtain ⟨lo, hi, hlo, hhi, hchain⟩ := hchain hs
    obtain ⟨hstart, hstop⟩ := hchain.inside c hc
    exact ⟨hlo.trans hstart, hstop.trans hhi⟩
  · obtain ⟨lo, hi, -, -, hchain⟩ := hchain hs
    exact hchain.inOrder
  · obtain ⟨hlong, -, hchain⟩ := h.of_template ht
    have hinside := hchain.inside c hc
    omega
  · exact absurd ((h.of_template ht).2.1 c hc) hk

theorem WellNested.laidOut (hp : p.WellNested) : p.LaidOut :=
  ⟨fun _ _ hn => (hn.nested hp).1.laidOut, hp.inside⟩

end Nested

section Spans

def Span.Apart (s t : Span) : Prop := s.stop ≤ t.start ∨ t.stop ≤ s.start

structure SpansWithin (lo hi : Nat) (ss : List Span) : Prop where
  bounds : ∀ s ∈ ss, lo ≤ s.start ∧ s.start ≤ s.stop ∧ s.stop ≤ hi
  apart : ss.Pairwise Span.Apart

namespace SpansWithin

variable {lo hi : Nat} {ss ts : List Span}

theorem nil : SpansWithin lo hi [] := ⟨by simp, .nil⟩

theorem mono {lo' hi' : Nat} (h : SpansWithin lo hi ss) (hlo : lo' ≤ lo) (hhi : hi ≤ hi') :
    SpansWithin lo' hi' ss := by
  refine ⟨fun s hs => ?_, h.apart⟩
  have hbounds := h.bounds s hs
  omega

theorem both (hs : SpansWithin lo hi ss) (ht : SpansWithin lo hi ts) (h : ∀ s ∈ ss, ∀ t ∈ ts, s.Apart t) :
    SpansWithin lo hi (ss ++ ts) where
  bounds s hmem := (List.mem_append.1 hmem).elim (hs.bounds s) (ht.bounds s)
  apart := List.pairwise_append.2 ⟨hs.apart, ht.apart, h⟩

end SpansWithin

end Spans

section Bare

mutual

theorem Node.IsBare.literalsIn : (n : Node) → n.IsBare → (path : Ancestry) → p.literalsIn path n = []
  | .mk kind start stop children, h, path => by
    simp only [Node.IsBare, Node.hasKind, Bool.or_eq_false_iff, decide_eq_false_iff_not] at h
    obtain ⟨⟨hs, hstrings⟩, ht, htemplates⟩ := h
    have hother : p.literalsIn path (.mk kind start stop children) =
        p.literalsInAll (.mk kind start stop children) path 0 children := literalsIn_of_other hs ht
    rw [hother]
    exact bare_literalsInAll children hstrings htemplates _ path 0

theorem bare_literalsInAll : (ns : List Node) → Node.anyHasKind .string ns = false →
    Node.anyHasKind .template ns = false → (parent : Node) → (path : Ancestry) → (index : Nat) →
      p.literalsInAll parent path index ns = []
  | [], _, _, _, _, _ => by rw [literalsInAll]
  | n :: ns, hs, ht, parent, path, index => by
    simp only [Node.anyHasKind, Bool.or_eq_false_iff] at hs ht
    rw [literalsInAll, Node.IsBare.literalsIn n ⟨hs.1, ht.1⟩, List.nil_append]
    exact bare_literalsInAll ns hs.2 ht.2 parent path (index + 1)

end

end Bare

section Chunks

structure Interpolated (pos stop : Nat) (ns : List Node) : Prop where
  le : pos ≤ stop
  each : ∀ n ∈ ns, n.start ≤ n.stop
  between : ∀ n ∈ ns, n.kind = .substitution → pos ≤ n.start ∧ n.stop ≤ stop
  inOrder : ns.Pairwise fun m n => m.stop ≤ n.start

section Interpolated

variable {pos stop : Nat} {n : Node} {ns : List Node}

theorem Interpolated.tail (h : Interpolated pos stop (n :: ns)) : Interpolated pos stop ns where
  le := h.le
  each m hm := h.each m (List.mem_cons_of_mem n hm)
  between m hm := h.between m (List.mem_cons_of_mem n hm)
  inOrder := (List.pairwise_cons.1 h.inOrder).2

theorem Interpolated.after (h : Interpolated pos stop (n :: ns)) (hk : n.kind = .substitution) :
    Interpolated n.stop stop ns where
  le := (h.between n List.mem_cons_self hk).2
  each := h.tail.each
  between m hm hkm := ⟨(List.pairwise_cons.1 h.inOrder).1 m hm, (h.tail.between m hm hkm).2⟩
  inOrder := h.tail.inOrder

theorem chunkBounds_spec (h : Interpolated pos stop ns) :
    (∀ b ∈ chunkBounds pos stop ns, pos ≤ b.1 ∧ b.1 ≤ b.2 ∧ b.2 ≤ stop) ∧
      (chunkBounds pos stop ns).Pairwise (fun b c => b.2 ≤ c.1) ∧
      ∀ b ∈ chunkBounds pos stop ns, ∀ n ∈ ns, n.kind = .substitution → b.2 ≤ n.start ∨ n.stop ≤ b.1 := by
  induction ns generalizing pos with
  | nil => simp [chunkBounds, h.le]
  | cons n ns ih =>
    rw [chunkBounds]
    split
    · next hk =>
      obtain ⟨hbounds, hpairs, hsides⟩ := ih (h.after hk)
      obtain ⟨hpos, hstop⟩ := h.between n List.mem_cons_self hk
      have hle := h.each n List.mem_cons_self
      have hfirst := (List.pairwise_cons.1 h.inOrder).1
      simp only [List.forall_mem_cons]
      refine ⟨⟨⟨Nat.le_refl pos, hpos, hle.trans hstop⟩, fun b hb => ?_⟩, ?_, ⟨?_, fun m hm _ => ?_⟩, fun b hb => ?_⟩
      · have hb := hbounds b hb
        omega
      · exact List.pairwise_cons.2 ⟨fun b hb => hle.trans (hbounds b hb).1, hpairs⟩
      · exact fun _ => .inl (Nat.le_refl n.start)
      · exact .inl (hle.trans (hfirst m hm))
      · exact ⟨fun _ => .inr (hbounds b hb).1, hsides b hb⟩
    · next hk =>
      obtain ⟨hbounds, hpairs, hsides⟩ := ih h.tail
      exact ⟨hbounds, hpairs, fun b hb => List.forall_mem_cons.2 ⟨fun hk' => absurd hk' hk, hsides b hb⟩⟩

end Interpolated

theorem map_chunks (outer : Joins) (after : Bool) (bounds : List (Nat × Nat)) :
    (p.chunks outer after bounds).map (fun s => (s.start, s.stop)) = bounds := by
  induction bounds generalizing after with
  | nil => rfl
  | cons b bounds ih => rw [chunks, List.map_cons, ih]

theorem exists_chunk_of_mem_chunks {outer : Joins} {after : Bool} {bounds : List (Nat × Nat)} {s : Span}
    (h : s ∈ p.chunks outer after bounds) : ∃ after more, s = p.chunk outer after more s.start s.stop := by
  induction bounds generalizing after with
  | nil => simp [chunks] at h
  | cons b bounds ih =>
    rw [chunks] at h
    rcases List.mem_cons.1 h with rfl | h
    · exact ⟨_, _, rfl⟩
    · exact ih h

theorem spansWithin_chunks {pos stop : Nat} {ns : List Node} (h : Interpolated pos stop ns) (outer : Joins) :
    SpansWithin pos stop (p.chunks outer false (chunkBounds pos stop ns)) := by
  obtain ⟨hbounds, hpairs, -⟩ := chunkBounds_spec h
  rw [← map_chunks (p := p) outer false (chunkBounds pos stop ns)] at hbounds hpairs
  exact ⟨List.forall_mem_map.1 hbounds, (List.pairwise_map.1 hpairs).imp .inl⟩

theorem apart_of_mem_chunks {pos stop : Nat} {ns : List Node} (h : Interpolated pos stop ns) {outer : Joins}
    {s t : Span} (hs : s ∈ p.chunks outer false (chunkBounds pos stop ns)) {n : Node} (hn : n ∈ ns)
    (hk : n.kind = .substitution) (ht : n.start ≤ t.start ∧ t.stop ≤ n.stop) : s.Apart t := by
  obtain ⟨-, -, hsides⟩ := chunkBounds_spec h
  rw [← map_chunks (p := p) outer false (chunkBounds pos stop ns)] at hsides
  rcases List.forall_mem_map.1 hsides s hs n hn hk with hside | hside
  · exact .inl (hside.trans ht.1)
  · exact .inr (ht.2.trans hside)

end Chunks

section Places

def spansIn (p : Program) (path : Ancestry) (n : Node) : List Span := (p.literalsIn path n).flatMap Literal.spans

def spansInAll (p : Program) (parent : Node) (path : Ancestry) (index : Nat) (ns : List Node) : List Span :=
  (p.literalsInAll parent path index ns).flatMap Literal.spans

theorem spansInAll_cons (parent : Node) (path : Ancestry) (index : Nat) (n : Node) (ns : List Node) :
    p.spansInAll parent path index (n :: ns) =
      p.spansIn (⟨parent, index⟩ :: path) n ++ p.spansInAll parent path (index + 1) ns := by
  rw [spansInAll, literalsInAll, List.flatMap_append]
  rfl

theorem spansIn_of_string {path : Ancestry} {n : Node} (hk : n.kind = .string) :
    p.spansIn path n = [p.stringSpan path n] := by
  rw [spansIn, literalsIn_of_string hk]
  rfl

theorem spansIn_of_template {path : Ancestry} {n : Node} (hk : n.kind = .template) :
    p.spansIn path n = p.chunks path.joins false (chunkBounds (n.start + 1) (n.stop - 1) n.children) ++
      p.spansInAll n path 0 n.children := by
  rw [spansIn, literalsIn_of_template hk]
  rfl

theorem spansIn_of_other {path : Ancestry} {n : Node} (hs : n.kind ≠ .string) (ht : n.kind ≠ .template) :
    p.spansIn path n = p.spansInAll n path 0 n.children := by
  rw [spansIn, literalsIn_of_other hs ht]
  rfl

theorem spansWithin_spansInAll {parent : Node} {path : Ancestry} {lo hi : Nat} {ns : List Node} {index : Nat}
    (hns : ∀ k n, ns[k]? = some n → SpansWithin n.start n.stop (p.spansIn (⟨parent, index + k⟩ :: path) n))
    (hin : ∀ n ∈ ns, lo ≤ n.start ∧ n.stop ≤ hi) (horder : ns.Pairwise fun m n => m.stop ≤ n.start) :
    SpansWithin lo hi (p.spansInAll parent path index ns) ∧
      ∀ s ∈ p.spansInAll parent path index ns, ∃ n ∈ ns, ¬n.IsBare ∧ n.start ≤ s.start ∧ s.stop ≤ n.stop := by
  induction ns generalizing index with
  | nil => simp [spansInAll, literalsInAll, SpansWithin.nil]
  | cons n ns ih =>
    obtain ⟨hfirst, horder⟩ := List.pairwise_cons.1 horder
    obtain ⟨hbounds, hin⟩ := List.forall_mem_cons.1 hin
    have hn : SpansWithin n.start n.stop (p.spansIn (⟨parent, index⟩ :: path) n) := hns 0 n rfl
    have hrest : ∀ k m, ns[k]? = some m →
        SpansWithin m.start m.stop (p.spansIn (⟨parent, index + 1 + k⟩ :: path) m) := by
      intro k m hm
      rw [Nat.add_assoc, Nat.add_comm 1 k]
      exact hns (k + 1) m hm
    obtain ⟨hrest, hhosts⟩ := ih hrest hin horder
    rw [spansInAll_cons]
    refine ⟨(hn.mono hbounds.1 hbounds.2).both hrest fun s hs t ht => .inl ?_, fun s hs => ?_⟩
    · obtain ⟨m, hm, -, hstart, -⟩ := hhosts t ht
      have hs := hn.bounds s hs
      have hm := hfirst m hm
      omega
    · rcases List.mem_append.1 hs with hs | hs
      · refine ⟨n, List.mem_cons_self, fun hbare => ?_, (hn.bounds s hs).1, (hn.bounds s hs).2.2⟩
        rw [spansIn, Node.IsBare.literalsIn n hbare] at hs
        simp at hs
      · obtain ⟨m, hm, hhost⟩ := hhosts s hs
        exact ⟨m, List.mem_cons_of_mem n hm, hhost⟩

theorem LaidOut.interpolated (hp : p.LaidOut) {path : Ancestry} {n : Node} (hn : p.Reached path n)
    (hk : n.kind = .template) : Interpolated (n.start + 1) (n.stop - 1) n.children := by
  have hlaid := hp.nodes path n hn
  have hs : n.kind ≠ .string := by simp [hk]
  have hlong := hlaid.delimited (.inr hk)
  refine ⟨by omega, fun c hc => ?_, fun c hc hsub => ?_, hlaid.inOrder hs⟩
  · obtain ⟨k, hc⟩ := List.getElem?_of_mem hc
    exact (hp.nodes _ c (.child hn hs hc)).le
  · have hbetween := hlaid.between hk c hc hsub
    omega

theorem LaidOut.spansWithin_template (hp : p.LaidOut) {path : Ancestry} {n : Node} (hn : p.Reached path n)
    (hk : n.kind = .template) (hinner : SpansWithin n.start n.stop (p.spansInAll n path 0 n.children))
    (hhosts : ∀ s ∈ p.spansInAll n path 0 n.children,
      ∃ c ∈ n.children, ¬c.IsBare ∧ c.start ≤ s.start ∧ s.stop ≤ c.stop) :
    SpansWithin n.start n.stop (p.spansIn path n) := by
  have hholes := hp.interpolated hn hk
  have hchunks := spansWithin_chunks (p := p) hholes path.joins
  rw [spansIn_of_template hk]
  refine (hchunks.mono (by omega) (by omega)).both hinner fun s hs t ht => ?_
  obtain ⟨c, hc, hfull, hin⟩ := hhosts t ht
  -- a child that holds a literal is an interpolation
  have hsub : c.kind = .substitution := by
    by_contra hk'
    exact hfull ((hp.nodes path n hn).bare hk c hc hk')
  exact apart_of_mem_chunks hholes hs hc hsub hin

theorem LaidOut.spansWithin_of_children (hp : p.LaidOut) {path : Ancestry} {n : Node} (hn : p.Reached path n)
    (hc : n.kind ≠ .string → ∀ k c, n.children[k]? = some c →
      SpansWithin c.start c.stop (p.spansIn (⟨n, 0 + k⟩ :: path) c)) :
    SpansWithin n.start n.stop (p.spansIn path n) := by
  have hlaid := hp.nodes path n hn
  by_cases hs : n.kind = .string
  · have hlong := hlaid.delimited (.inl hs)
    rw [spansIn_of_string hs]
    refine ⟨fun s hmem => ?_, List.pairwise_singleton _ _⟩
    obtain rfl := List.mem_singleton.1 hmem
    simp only [stringSpan]
    omega
  obtain ⟨hinner, hhosts⟩ := spansWithin_spansInAll (hc hs) (hlaid.inside hs) (hlaid.inOrder hs)
  by_cases ht : n.kind = .template
  · exact hp.spansWithin_template hn ht hinner hhosts
  · rwa [spansIn_of_other hs ht]

-- by the structure of the tree; the second lemma goes through the children of `parent` from `index` on
mutual

theorem LaidOut.spansWithin_spansIn (hp : p.LaidOut) : (n : Node) → (path : Ancestry) → p.Reached path n →
    SpansWithin n.start n.stop (p.spansIn path n)
  | .mk _ _ _ children, _, hn => hp.spansWithin_of_children hn fun hs =>
    LaidOut.spansWithin_each hp children hn hs 0 fun k c hc => by rwa [Nat.zero_add]

theorem LaidOut.spansWithin_each (hp : p.LaidOut) {path : Ancestry} {parent : Node} : (ns : List Node) →
    p.Reached path parent → parent.kind ≠ .string → (index : Nat) →
      (∀ k n, ns[k]? = some n → parent.children[index + k]? = some n) →
      ∀ k n, ns[k]? = some n → SpansWithin n.start n.stop (p.spansIn (⟨parent, index + k⟩ :: path) n)
  | [], _, _, _, _, k, n, hn => by simp at hn
  | m :: ns, hparent, hs, index, hns, 0, n, hn => by
    obtain rfl : m = n := by simpa using hn
    exact LaidOut.spansWithin_spansIn hp m _ (.child hparent hs (hns 0 m rfl))
  | m :: ns, hparent, hs, index, hns, k + 1, n, hn => by
    have hrest := LaidOut.spansWithin_each hp ns hparent hs (index + 1)
      (fun i c hc => by
        have hc := hns (i + 1) c hc
        rwa [Nat.add_assoc, Nat.add_comm 1 i]) k n hn
    rwa [Nat.add_assoc, Nat.add_comm 1 k] at hrest

end

end Places

section Edits

variable {lookup : Text → Option Text} {l : Literal} {s : Span}

theorem value_eq_nil_of_mem_spans (hl : l ∈ p.literals) (hs : s ∈ l.spans) (h : p.text s.start s.stop = []) :
    s.value = [] := by
  obtain ⟨path, n, hn, ⟨-, rfl⟩ | ⟨-, rfl⟩⟩ := exists_reached_of_mem_literals hl
  · obtain rfl : s = p.stringSpan path n := List.mem_singleton.1 hs
    exact value_stringSpan_eq_nil h
  · obtain ⟨after, more, hchunk⟩ := exists_chunk_of_mem_chunks hs
    rw [hchunk]
    exact value_chunk_eq_nil h

theorem mem_edits_iff {e : Edit Char} :
    e ∈ p.edits lookup ↔ ∃ l ∈ p.literals, l.isProtected = false ∧ ∃ s ∈ l.spans, s.edit? lookup = some e := by
  simp [edits, and_assoc]

theorem exists_key_of_edit? {e : Edit Char} (h : s.edit? lookup = some e) :
    ∃ t ∈ s.value.tokens, (lookup t).isSome = true := by
  obtain ⟨source, hsource, -⟩ := Option.map_eq_some_iff.1 h
  exact ClassList.exists_key_of_text? (ClassList.exists_text?_of_source? hsource)

theorem edits_apart (h : (p.literals.flatMap Literal.spans).Pairwise Span.Apart) :
    (p.edits lookup).Pairwise Edit.Apart := by
  have hedits : p.edits lookup =
      ((p.literals.filter fun l => !l.isProtected).flatMap Literal.spans).filterMap (Span.edit? lookup) := by
    rw [edits, List.filterMap_flatMap]
  rw [hedits, List.pairwise_filterMap]
  have hsub := (List.filter_sublist (p := fun l => !l.isProtected) (l := p.literals)).flatMap Literal.spans
  refine (h.sublist hsub).imp fun {s t} hst e he f hf => ?_
  obtain ⟨hstart, hstop, -⟩ := edit?_eq_some he
  obtain ⟨hstart', hstop', -⟩ := edit?_eq_some hf
  rwa [Edit.Apart, hstart, hstop, hstart', hstop']

theorem LaidOut.rename_frame (hp : p.LaidOut) (lookup : Text → Option Text) :
    (∀ s ∈ p.literals.flatMap Literal.spans, s.start ≤ s.stop ∧ s.stop ≤ p.source.length) ∧
      (p.literals.flatMap Literal.spans).Pairwise Span.Apart ∧
      ∃ new, p.rename lookup = .ok new ∧ Spliced 0 p.source (p.edits lookup) new ∧
        ∀ e ∈ p.edits lookup, ∃ l ∈ p.literals, l.isProtected = false ∧ ∃ s ∈ l.spans,
          e.start = s.start ∧ e.stop = s.stop ∧ ∃ t ∈ s.value.tokens, (lookup t).isSome = true := by
  obtain ⟨hbounds, hapart⟩ := hp.spansWithin_spansIn p.root [] .root
  have hin : ∀ s ∈ p.literals.flatMap Literal.spans, s.start ≤ s.stop ∧ s.stop ≤ p.source.length :=
    fun s hs => ⟨(hbounds s hs).2.1, (hbounds s hs).2.2.trans hp.inside⟩
  have hedits : ∀ e ∈ p.edits lookup, e.start < e.stop ∧ e.stop ≤ p.source.length := by
    intro e he
    obtain ⟨l, hl, -, s, hs, he⟩ := mem_edits_iff.1 he
    obtain ⟨hstart, hstop, hvalue⟩ := edit?_eq_some he
    obtain ⟨hle, hend⟩ := hin s (List.mem_flatMap.2 ⟨l, hl, hs⟩)
    have hlength := length_text p (a := s.start) hend
    have htext : p.text s.start s.stop ≠ [] := fun hnil => hvalue (value_eq_nil_of_mem_spans hl hs hnil)
    have hpos := List.length_pos_of_ne_nil htext
    omega
  obtain ⟨new, hnew⟩ := Spliced.exists_of_apart hedits (edits_apart hapart)
  refine ⟨hin, hapart, new, EditBuffer.applyAll_of_spliced hnew, hnew, fun e he => ?_⟩
  obtain ⟨l, hl, hprotected, s, hs, he⟩ := mem_edits_iff.1 he
  obtain ⟨hstart, hstop, -⟩ := edit?_eq_some he
  exact ⟨l, hl, hprotected, s, hs, hstart, hstop, exists_key_of_edit? he⟩

def nestedSource : List Char := "y=\x60btn $\x7bc?\"btn\":\x60$\x7b\"off btn\"\x7d\x60\x7d x\x60;import 'btn'".toList

theorem LaidOut.rename_frame_nested :
    ∃ p, parse? nestedSource = some p ∧
      (p.literals.flatMap Literal.spans).map (fun s => (s.start, s.stop)) =
        [(3, 7), (32, 34), (12, 15), (18, 18), (30, 30), (21, 28), (44, 47)] ∧
      (p.literals.flatMap Literal.spans).Pairwise Span.Apart ∧
      (p.edits (ClassList.only "btn" "a")).map (fun e => (e.start, e.stop, e.replacement)) =
        [(3, 7, "a ".toList), (12, 15, "a".toList), (21, 28, "off a".toList)] ∧
      ∃ new, p.rename (ClassList.only "btn" "a") = .ok new ∧
        Spliced 0 p.source (p.edits (ClassList.only "btn" "a")) new := by
  have hread : (parse? nestedSource).map (fun p =>
      ((p.literals.flatMap Literal.spans).map (fun s => (s.start, s.stop)),
        (p.edits (ClassList.only "btn" "a")).map fun e => (e.start, e.stop, e.replacement))) =
      some ([(3, 7), (32, 34), (12, 15), (18, 18), (30, 30), (21, 28), (44, 47)],
        [(3, 7, "a ".toList), (12, 15, "a".toList), (21, 28, "off a".toList)]) := by decide +kernel
  obtain ⟨p, hp, hread⟩ := Option.map_eq_some_iff.1 hread
  obtain ⟨hplaces, hedits⟩ := Prod.mk.inj hread
  obtain ⟨-, hapart, new, hnew, hspliced, -⟩ :=
    LaidOut.rename_frame (wellNested_of_parse hp).laidOut (ClassList.only "btn" "a")
  exact ⟨p, hp, hplaces, hapart, hedits, new, hnew, hspliced⟩

end Edits

end ShortClass.Program
