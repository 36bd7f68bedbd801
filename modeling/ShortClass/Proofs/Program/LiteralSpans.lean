import ShortClass.Proofs.Program.LiteralText
import ShortClass.Proofs.Program.ReachedNodes

namespace ShortClass.Program

variable {p : Program} {path : Ancestry} {n : Node} {l : Literal} {s : Span}

theorem isProtected_templateLiteral : (p.templateLiteral path n).isProtected = p.isProtectedTemplate path := rfl

theorem mem_spans_templateLiteral (hsub : ∀ c ∈ n.children, c.kind = .substitution) :
    s ∈ (p.templateLiteral path n).spans ↔
      s ∈ overGaps (fun after more start stop => [p.chunk path.joins after more start stop]) 0 (n.start + 1)
        (n.stop - 1) n.children := by
  rw [← flatMap_chunks path.joins (fun s => [s]) hsub, List.flatMap_singleton']
  rfl

theorem exists_chunk_of_mem_overGaps {outer : Joins} {ns : List Node} {index pos stop : Nat}
    (h : s ∈ overGaps (fun after more start stop => [p.chunk outer after more start stop]) index pos stop ns) :
    ∃ after more start stop, s = p.chunk outer after more start stop := by
  induction ns generalizing index pos with
  | nil => exact ⟨_, _, _, _, List.mem_singleton.1 h⟩
  | cons m ns ih =>
    rcases List.mem_append.1 h with h | h
    · exact ⟨_, _, _, _, List.mem_singleton.1 h⟩
    · exact ih h

theorem chunk_within_weave (lookup : Text → Option Text) (parent : Node) {ns : List Node} {index pos stop : Nat}
    (hns : Chained pos stop ns) (hstop : stop ≤ p.source.length)
    (h : s ∈ overGaps (fun after more start stop => [p.chunk path.joins after more start stop]) index pos stop ns) :
    s.start ≤ s.stop ∧ s.stop ≤ p.source.length ∧
      (p.spanStretch lookup (p.isProtectedTemplate path) s).Within p
        (p.weaveStretch lookup (fun after more start stop =>
          literalEdit lookup (p.isProtectedTemplate path) (p.chunk path.joins after more start stop))
          (p.chunkText lookup path) parent path index pos stop ns) := by
  have hgap := fillsGaps_chunkText (p := p) lookup path
  induction ns generalizing index pos with
  | nil =>
    obtain rfl := List.mem_singleton.1 h
    refine ⟨chained_nil.1 hns, hstop, ?_⟩
    rw [weaveStretch, overGaps, weave, literalsInAll, literalEdits_nil, List.append_nil]
    exact .refl p _
  | cons m ns ih =>
    obtain ⟨hpos, hm, hrest⟩ := chained_cons.1 hns
    rcases List.mem_append.1 h with h | h
    · obtain rfl := List.mem_singleton.1 h
      have hin : m.start ≤ p.source.length := Nat.le_trans hm.le (Nat.le_trans hrest.le hstop)
      exact ⟨hpos, hin, gap_within_weave hgap parent path index hns hstop⟩
    · obtain ⟨hle, hin, hwithin⟩ := ih hrest h
      exact ⟨hle, hin, hwithin.trans hstop hle (tail_within_weave hgap parent path index hns hstop)⟩

theorem span_within_node (hat : p.IsLiteralAt l path n) (hn : n.Nested) (hin : n.stop ≤ p.source.length)
    (hs : s ∈ l.spans) (lookup : Text → Option Text) :
    s.start ≤ s.stop ∧ s.stop ≤ p.source.length ∧
      (p.spanStretch lookup l.isProtected s).Within p (p.nodeStretch lookup path n) := by
  rcases hat with ⟨hk, rfl⟩ | ⟨hk, rfl⟩
  · obtain rfl : s = p.stringSpan path n := List.mem_singleton.1 hs
    have hle := hn.of_string hk
    refine ⟨?_, ?_, string_within_node hk⟩ <;> simp only [stringSpan] <;> omega
  · obtain ⟨hle, hsub, hchain⟩ := hn.of_template hk
    have hstop : n.stop - 1 ≤ p.source.length := by omega
    obtain ⟨hspan, hsin, hwithin⟩ := chunk_within_weave lookup n hchain hstop ((mem_spans_templateLiteral hsub).1 hs)
    exact ⟨hspan, hsin, hwithin.trans hin hspan (chunks_within_node hn hk)⟩

theorem WellNested.span_cases (hp : p.WellNested) (hl : l ∈ p.literals) (hs : s ∈ l.spans) :
    (∃ path n, s = p.stringSpan path n) ∨ ∃ outer after more start stop, s = p.chunk outer after more start stop := by
  obtain ⟨path, n, hn, ⟨-, rfl⟩ | ⟨hk, rfl⟩⟩ := exists_reached_of_mem_literals hl
  · exact .inl ⟨path, n, List.mem_singleton.1 hs⟩
  · obtain ⟨-, hsub, -⟩ := (hn.nested hp).1.of_template hk
    exact .inr ⟨_, exists_chunk_of_mem_overGaps ((mem_spans_templateLiteral hsub).1 hs)⟩

theorem WellNested.value_of_mem_spans (hp : p.WellNested) (hl : l ∈ p.literals) (hs : s ∈ l.spans) :
    s.value = readBody s.raw (p.text s.start s.stop) := by
  rcases hp.span_cases hl hs with ⟨path, n, rfl⟩ | ⟨outer, after, more, start, stop, rfl⟩ <;> rfl

theorem readBody_nil (raw : Bool) : readBody raw [] = [] := by
  cases raw
  · exact cook_nil
  · rfl

theorem WellNested.rename_spans (hp : p.WellNested) (lookup : Text → Option Text) :
    ∃ new, p.rename lookup = .ok new ∧ ∀ l ∈ p.literals, ∀ s ∈ l.spans,
      p.Rewrites lookup s.start s.stop (p.literalText lookup l.isProtected s) new := by
  obtain ⟨new, hnew, hrewrites⟩ := hp.rename_stretch lookup
  refine ⟨new, hnew, fun l hl s hs => ?_⟩
  obtain ⟨path, n, hn, hat⟩ := exists_reached_of_mem_literals hl
  obtain ⟨hnested, hin⟩ := hn.nested hp
  obtain ⟨hle, hsin, hwithin⟩ := span_within_node hat hnested hin hs lookup
  refine hrewrites path n hn _ hle (spliced_literalText _ hle hsin fun hnil => ?_) hwithin
  rw [hp.value_of_mem_spans hl hs, hnil, readBody_nil]

theorem joins_of_markupAttribute (h : parentIs .markupAttribute path = true) : path.joins = {} := by
  cases path with
  | nil => rfl
  | cons a above =>
    have hk : a.parent.kind = .markupAttribute := by simpa [parentIs] using h
    simp [Ancestry.joins, Ancestry.joinsUpTo, Ancestry.outsideParentheses, maxLinks, hk]

theorem WellNested.joins_of_raw (hp : p.WellNested) (hl : l ∈ p.literals) (hs : s ∈ l.spans) (hraw : s.raw = true) :
    s.joins = {} := by
  rcases hp.span_cases hl hs with ⟨path, n, rfl⟩ | ⟨outer, after, more, start, stop, rfl⟩
  · exact joins_of_markupAttribute hraw
  · exact absurd hraw (by simp [chunk])

end ShortClass.Program
