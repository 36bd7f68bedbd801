import ShortClass.Proofs.Program.NewText

namespace ShortClass.Program

variable {p : Program} {lookup : Text → Option Text}

structure Stretch where
  start : Nat
  stop : Nat
  edits : List (Edit Char)
  text : List Char

/-- The stretch `s` in a longer one: the other edits make of what is before and after it what stands around its
text. -/
def Stretch.Within (p : Program) (s outer : Stretch) : Prop :=
  outer.start ≤ s.start ∧ s.stop ≤ outer.stop ∧ ∃ es fs before after,
    (es ++ s.edits ++ fs).Perm outer.edits ∧ Spliced outer.start (p.text outer.start s.start) es before ∧
      Spliced s.stop (p.text s.stop outer.stop) fs after ∧ outer.text = before ++ s.text ++ after

theorem Stretch.Within.refl (p : Program) (s : Stretch) : s.Within p s := by
  refine ⟨Nat.le_refl _, Nat.le_refl _, [], [], _, _, by simp, .copy s.start _, .copy s.stop _, ?_⟩
  simp [text_self]

theorem Stretch.Within.trans {s t u : Stretch} (hu : u.stop ≤ p.source.length) (hle : s.start ≤ s.stop)
    (hst : s.Within p t) (htu : t.Within p u) : s.Within p u := by
  obtain ⟨hstart, hstop, es, fs, before, after, hperm, hbefore, hafter, htext⟩ := hst
  obtain ⟨hstart', hstop', es', fs', before', after', hperm', hbefore', hafter', htext'⟩ := htu
  have hinside : s.start ≤ p.source.length := Nat.le_trans hle (Nat.le_trans hstop (Nat.le_trans hstop' hu))
  refine ⟨Nat.le_trans hstart' hstart, Nat.le_trans hstop hstop', es' ++ es, fs ++ fs', before' ++ before,
    after ++ after', ?_, Spliced.text_append hstart' hstart hinside hbefore' hbefore,
    Spliced.text_append hstop hstop' hu hafter hafter', ?_⟩
  · have hedits : es' ++ es ++ s.edits ++ (fs ++ fs') = es' ++ (es ++ s.edits ++ fs) ++ fs' := by
      simp only [List.append_assoc]
    rw [hedits]
    exact ((hperm.append_left es').append_right fs').trans hperm'
  · rw [htext', htext]
    simp only [List.append_assoc]

/-- In `new` the text `t` stands for the source from `start` to `stop`: some of the edits make it of that stretch, and
what stands before and after it the others make of the rest. -/
def Rewrites (p : Program) (lookup : Text → Option Text) (start stop : Nat) (t new : List Char) : Prop :=
  ∃ es own fs before after, (es ++ own ++ fs).Perm (p.edits lookup) ∧ Spliced 0 (p.source.take start) es before ∧
    Spliced start (p.text start stop) own t ∧ Spliced stop (p.source.drop stop) fs after ∧
    new = before ++ t ++ after

def nodeStretch (p : Program) (lookup : Text → Option Text) (path : Ancestry) (n : Node) : Stretch :=
  ⟨n.start, n.stop, literalEdits lookup (p.literalsIn path n), p.newText lookup path n⟩

def spanStretch (p : Program) (lookup : Text → Option Text) (isProtected : Bool) (s : Span) : Stretch :=
  ⟨s.start, s.stop, literalEdit lookup isProtected s, p.literalText lookup isProtected s⟩

def sourceStretch (p : Program) (lookup : Text → Option Text) (new : List Char) : Stretch :=
  ⟨0, p.source.length, p.edits lookup, new⟩

theorem Stretch.Within.rewrites {s : Stretch} {new : List Char} (h : s.Within p (p.sourceStretch lookup new))
    (hs : Spliced s.start (p.text s.start s.stop) s.edits s.text) :
    p.Rewrites lookup s.start s.stop s.text new := by
  obtain ⟨-, -, es, fs, before, after, hperm, hbefore, hafter, htext⟩ := h
  have hrest : p.text s.stop p.source.length = p.source.drop s.stop :=
    List.take_of_length_le (Nat.le_of_eq List.length_drop)
  exact ⟨es, s.edits, fs, before, after, hperm, hbefore, hs, hrest ▸ hafter, htext⟩

section Weave

variable {parent : Node} {path : Ancestry} {edits : Bool → Bool → Nat → Nat → List (Edit Char)}
  {gap : Bool → Bool → Nat → Nat → List Char}

def weaveStretch (p : Program) (lookup : Text → Option Text) (edits : Bool → Bool → Nat → Nat → List (Edit Char))
    (gap : Bool → Bool → Nat → Nat → List Char) (parent : Node) (path : Ancestry) (index pos stop : Nat)
    (ns : List Node) : Stretch :=
  ⟨pos, stop, overGaps edits index pos stop ns ++ literalEdits lookup (p.literalsInAll parent path index ns),
    p.weave lookup gap parent path index pos stop ns⟩

theorem head_within_weave (hgap : p.FillsGaps edits gap) (parent : Node) (path : Ancestry) (index : Nat) {n : Node}
    {ns : List Node} {pos stop : Nat} (hns : Chained pos stop (n :: ns)) (hstop : stop ≤ p.source.length) :
    (p.nodeStretch lookup (⟨parent, index⟩ :: path) n).Within p
      (p.weaveStretch lookup edits gap parent path index pos stop (n :: ns)) := by
  obtain ⟨hpos, hn, hns⟩ := chained_cons.1 hns
  have hle := hn.le
  have hrest := hns.le
  refine ⟨hpos, hrest, edits (0 < index) true pos n.start,
    overGaps edits (index + 1) n.stop stop ns ++ literalEdits lookup (p.literalsInAll parent path (index + 1) ns),
    _, _, ?_, hgap (0 < index) true pos n.start hpos (by omega),
    spliced_weave p lookup hgap parent path (index + 1) ns n.stop stop hns hstop, ?_⟩
  · simp only [nodeStretch, weaveStretch, overGaps, literalsInAll, literalEdits_append, List.append_assoc]
    exact (List.perm_append_comm_assoc ..).append_left _
  · simp only [nodeStretch, weaveStretch, weave]

theorem tail_within_weave (hgap : p.FillsGaps edits gap) (parent : Node) (path : Ancestry) (index : Nat) {n : Node}
    {ns : List Node} {pos stop : Nat} (hns : Chained pos stop (n :: ns)) (hstop : stop ≤ p.source.length) :
    (p.weaveStretch lookup edits gap parent path (index + 1) n.stop stop ns).Within p
      (p.weaveStretch lookup edits gap parent path index pos stop (n :: ns)) := by
  obtain ⟨hpos, hn, hns⟩ := chained_cons.1 hns
  have hle := hn.le
  have hrest := hns.le
  have hfirst := hgap (0 < index) true pos n.start hpos (by omega)
  have hnode := spliced_newText p lookup n (⟨parent, index⟩ :: path) hn (by omega)
  refine ⟨Nat.le_trans hpos hle, Nat.le_refl stop, edits (0 < index) true pos n.start ++
      literalEdits lookup (p.literalsIn (⟨parent, index⟩ :: path) n), [], _, p.text stop stop, ?_,
    Spliced.text_append hpos hle (Nat.le_trans hrest hstop) hfirst hnode, .copy stop _, ?_⟩
  · simp only [weaveStretch, overGaps, literalsInAll, literalEdits_append, List.append_nil, List.append_assoc]
    exact (List.perm_append_comm_assoc ..).append_left _
  · simp only [weaveStretch, weave, text_self, List.append_nil]

theorem gap_within_weave (hgap : p.FillsGaps edits gap) (parent : Node) (path : Ancestry) (index : Nat) {n : Node}
    {ns : List Node} {pos stop : Nat} (hns : Chained pos stop (n :: ns)) (hstop : stop ≤ p.source.length) :
    Stretch.Within p ⟨pos, n.start, edits (0 < index) true pos n.start, gap (0 < index) true pos n.start⟩
      (p.weaveStretch lookup edits gap parent path index pos stop (n :: ns)) := by
  obtain ⟨-, hn, hns⟩ := chained_cons.1 hns
  have hle := hn.le
  have hrest := hns.le
  have hnode := spliced_newText p lookup n (⟨parent, index⟩ :: path) hn (Nat.le_trans hrest hstop)
  have hothers := spliced_weave p lookup hgap parent path (index + 1) ns n.stop stop hns hstop
  refine ⟨Nat.le_refl pos, Nat.le_trans hle hrest, [], _, p.text pos pos, _, ?_, .copy pos _,
    Spliced.text_append hle hrest hstop hnode hothers, ?_⟩
  · simp only [weaveStretch, overGaps, literalsInAll, literalEdits_append, List.nil_append, List.append_assoc]
    exact (List.perm_append_comm_assoc ..).append_left _
  · simp only [weaveStretch, weave, text_self, List.nil_append, List.append_assoc]

theorem child_within_weave (lookup : Text → Option Text) (hgap : p.FillsGaps edits gap) (parent : Node)
    (path : Ancestry) {ns : List Node} {k : Nat} {n : Node} (hn : ns[k]? = some n) (index : Nat)
    {pos stop : Nat} (hns : Chained pos stop ns) (hstop : stop ≤ p.source.length) :
    (p.nodeStretch lookup (⟨parent, index + k⟩ :: path) n).Within p
      (p.weaveStretch lookup edits gap parent path index pos stop ns) := by
  induction ns generalizing index pos k with
  | nil => simp at hn
  | cons m ns ih =>
    cases k with
    | zero =>
      obtain rfl : m = n := by simpa using hn
      exact head_within_weave hgap parent path index hns hstop
    | succ k =>
      have hrest := (chained_cons.1 hns).2.2
      have hin := ih (by simpa using hn) (index + 1) hrest
      have hle := (hrest.of_mem (List.mem_of_getElem? (by simpa using hn))).1.le
      rw [Nat.add_assoc, Nat.add_comm 1 k] at hin
      exact hin.trans hstop hle (tail_within_weave hgap parent path index hns hstop)

end Weave

section Nodes

variable {path : Ancestry} {n : Node}

theorem within_delimiters {start stop : Nat} {edits : List (Edit Char)} {t : List Char} :
    Stretch.Within p ⟨start + 1, stop - 1, edits, t⟩
      ⟨start, stop, edits, p.text start (start + 1) ++ t ++ p.text (stop - 1) stop⟩ := by
  refine ⟨Nat.le_succ start, Nat.sub_le stop 1, [], [], _, _, ?_, .copy start _, .copy (stop - 1) _, rfl⟩
  rw [List.nil_append, List.append_nil]

theorem string_within_node (hk : n.kind = .string) :
    (p.spanStretch lookup (p.isProtectedString path) (p.stringSpan path n)).Within p (p.nodeStretch lookup path n) := by
  rw [nodeStretch, newText_of_string hk, literalsIn_of_string hk, literalEdits_singleton, stringLiteral_eq,
    Literal.spans, List.flatMap_singleton]
  exact within_delimiters

theorem chunks_within_node (hn : n.Nested) (hk : n.kind = .template) :
    (p.weaveStretch lookup (fun after more start stop =>
      literalEdit lookup (p.isProtectedTemplate path) (p.chunk path.joins after more start stop))
      (p.chunkText lookup path) n path 0 (n.start + 1) (n.stop - 1) n.children).Within p
      (p.nodeStretch lookup path n) := by
  obtain ⟨-, hsub, -⟩ := hn.of_template hk
  have hchunks := flatMap_chunks (p := p) path.joins (literalEdit lookup (p.isProtectedTemplate path)) hsub 0
    (n.start + 1) (n.stop - 1)
  rw [nodeStretch, newText_of_template hk, literalsIn_of_template hk, literalEdits_cons, weaveStretch, ← hchunks]
  exact within_delimiters

theorem child_within_node {c : Node} {k : Nat} (hn : n.Nested) (hin : n.stop ≤ p.source.length)
    (hs : n.kind ≠ .string) (hc : n.children[k]? = some c) :
    (p.nodeStretch lookup (⟨n, k⟩ :: path) c).Within p (p.nodeStretch lookup path n) := by
  have hindex : 0 + k = k := Nat.zero_add k
  by_cases ht : n.kind = .template
  · obtain ⟨hle, -, hchain⟩ := hn.of_template ht
    have hstop : n.stop - 1 ≤ p.source.length := by omega
    have hweave := child_within_weave lookup (fillsGaps_chunkText lookup path) n path hc 0 hchain hstop
    rw [hindex] at hweave
    have hcn := (hchain.of_mem (List.mem_of_getElem? hc)).1.le
    exact hweave.trans hin hcn (chunks_within_node hn ht)
  · have hchain := hn.of_other hs ht
    have hweave := child_within_weave lookup fillsGaps_text n path hc 0 hchain hin
    rw [hindex] at hweave
    have hnode : p.nodeStretch lookup path n =
        p.weaveStretch lookup (fun _ _ _ _ => []) (fun _ _ => p.text) n path 0 n.start n.stop n.children := by
      rw [nodeStretch, weaveStretch, newText_of_other hs ht, literalsIn_of_other hs ht, overGaps_nil, List.nil_append]
    rwa [hnode]

theorem WellNested.root_within (hp : p.WellNested) (lookup : Text → Option Text) :
    ∃ new, p.rename lookup = .ok new ∧
      (p.nodeStretch lookup [] p.root).Within p (p.sourceStretch lookup new) := by
  refine ⟨_, hp.rename lookup, Nat.zero_le _, hp.inside, [], [], _, _, ?_, .copy 0 _, .copy p.root.stop _, rfl⟩
  rw [List.nil_append, List.append_nil]
  exact .refl _

end Nodes

end ShortClass.Program
