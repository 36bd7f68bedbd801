import ShortClass.Proofs.Splice
import ShortClass.Program.Rename

namespace ShortClass.Program

mutual

/-- Do the children of every node lie inside it, in order, those of a template between its delimiters? -/
def Node.Nested : Node → Prop
  | .mk kind start stop children =>
    if kind = .string then start + 2 ≤ stop
    else if kind = .template then
      start + 2 ≤ stop ∧ (∀ c ∈ children, c.kind = .substitution) ∧ Chained (start + 1) (stop - 1) children
    else Chained start stop children

def Chained (pos stop : Nat) : List Node → Prop
  | [] => pos ≤ stop
  | n :: ns => pos ≤ n.start ∧ n.Nested ∧ Chained n.stop stop ns

end

structure WellNested (p : Program) : Prop where
  root : p.root.Nested
  inside : p.root.stop ≤ p.source.length

mutual

theorem Node.Nested.le : {n : Node} → n.Nested → n.start ≤ n.stop
  | .mk kind start stop children, h => by
    rw [Node.Nested] at h
    simp only [Node.start, Node.stop]
    split at h
    · omega
    split at h
    · omega
    · exact h.le

theorem Chained.le {stop : Nat} : {pos : Nat} → {ns : List Node} → Chained pos stop ns → pos ≤ stop
  | pos, [], h => by rwa [Chained] at h
  | pos, n :: ns, h => by
    rw [Chained] at h
    obtain ⟨hpos, hn, hns⟩ := h
    have h1 := hn.le
    have h2 := hns.le
    omega

end

namespace Node.Nested

variable {n : Node}

theorem of_string (h : n.Nested) (hk : n.kind = .string) : n.start + 2 ≤ n.stop := by
  obtain ⟨kind, start, stop, children⟩ := n
  obtain rfl : kind = .string := hk
  rwa [Nested, if_pos rfl] at h

theorem of_template (h : n.Nested) (hk : n.kind = .template) :
    n.start + 2 ≤ n.stop ∧ (∀ c ∈ n.children, c.kind = .substitution) ∧
      Chained (n.start + 1) (n.stop - 1) n.children := by
  obtain ⟨kind, start, stop, children⟩ := n
  obtain rfl : kind = .template := hk
  rwa [Nested, if_neg (by decide), if_pos rfl] at h

theorem of_other (h : n.Nested) (hs : n.kind ≠ .string) (ht : n.kind ≠ .template) :
    Chained n.start n.stop n.children := by
  obtain ⟨kind, start, stop, children⟩ := n
  simp only [Node.kind] at hs ht
  rwa [Nested, if_neg hs, if_neg ht] at h

end Node.Nested

theorem Node.nested_mk {kind : Kind} {start stop : Nat} {children : List Node}
    (hk : kind ≠ .string ∧ kind ≠ .template) :
    (Node.mk kind start stop children).Nested ↔ Chained start stop children := by
  rw [Node.Nested, if_neg hk.1, if_neg hk.2]

theorem chained_nil {pos stop : Nat} : Chained pos stop [] ↔ pos ≤ stop := by rw [Chained]

theorem chained_cons {pos stop : Nat} {n : Node} {ns : List Node} :
    Chained pos stop (n :: ns) ↔ pos ≤ n.start ∧ n.Nested ∧ Chained n.stop stop ns := by rw [Chained]

theorem chained_singleton {pos stop : Nat} {n : Node} (hn : n.Nested) (h : pos ≤ n.start ∧ n.stop ≤ stop) :
    Chained pos stop [n] := by
  rw [chained_cons, chained_nil]
  exact ⟨h.1, hn, h.2⟩

theorem chained_pair {pos stop : Nat} {m n : Node} (hm : m.Nested) (hn : n.Nested)
    (h : pos ≤ m.start ∧ m.stop ≤ n.start ∧ n.stop ≤ stop) : Chained pos stop [m, n] := by
  rw [chained_cons]
  exact ⟨h.1, hm, chained_singleton hn h.2⟩

theorem Chained.mono {pos pos' stop stop' : Nat} {ns : List Node} (h : Chained pos stop ns)
    (hle : pos' ≤ pos ∧ stop ≤ stop') : Chained pos' stop' ns := by
  induction ns generalizing pos pos' with
  | nil =>
    rw [chained_nil] at h ⊢
    omega
  | cons n ns ih =>
    rw [chained_cons] at h ⊢
    exact ⟨by omega, h.2.1, ih h.2.2 ⟨Nat.le_refl _, hle.2⟩⟩

theorem Chained.append {pos mid stop : Nat} {ms ns : List Node} (hm : Chained pos mid ms)
    (hn : Chained mid stop ns) : Chained pos stop (ms ++ ns) := by
  induction ms generalizing pos with
  | nil => exact hn.mono ⟨chained_nil.1 hm, Nat.le_refl _⟩
  | cons m ms ih =>
    rw [List.cons_append, chained_cons]
    rw [chained_cons] at hm
    exact ⟨hm.1, hm.2.1, ih hm.2.2⟩

theorem Chained.to_last {pos stop : Nat} {ns : List Node} (h : Chained pos stop ns) {n : Node}
    (hn : ns.getLast? = some n) : Chained pos n.stop ns ∧ n.stop ≤ stop := by
  obtain ⟨ms, rfl⟩ := List.getLast?_eq_some_iff.1 hn
  induction ms generalizing pos with
  | nil =>
    rw [List.nil_append, chained_cons, chained_nil] at h ⊢
    exact ⟨⟨h.1, h.2.1, Nat.le_refl _⟩, h.2.2⟩
  | cons m ms ih =>
    rw [List.cons_append, chained_cons] at h ⊢
    obtain ⟨hms, hstop⟩ := ih h.2.2 (by simp)
    exact ⟨⟨h.1, h.2.1, hms⟩, hstop⟩

theorem Node.toPattern_start (n : Node) : n.toPattern.start = n.start := by
  obtain ⟨kind, start, stop, children⟩ := n
  cases kind <;> rfl

theorem Node.toPattern_stop (n : Node) : n.toPattern.stop = n.stop := by
  obtain ⟨kind, start, stop, children⟩ := n
  cases kind <;> rfl

mutual

theorem Node.Nested.toPattern : {n : Node} → n.Nested → n.toPattern.Nested
  | .mk kind start stop children, h => by
    cases kind
    case object | array | pair =>
      rw [Node.toPattern, Node.nested_mk (by decide)]
      exact ((Node.nested_mk (by decide)).1 h).toPatterns
    case shorthandDefault =>
      rw [Node.toPattern, Node.nested_mk (by decide)]
      exact (Node.nested_mk (by decide)).1 h
    all_goals exact h

theorem Chained.toPatterns {stop : Nat} : {pos : Nat} → {ns : List Node} → Chained pos stop ns →
    Chained pos stop (Node.toPatterns ns)
  | pos, [], h => h
  | pos, n :: ns, h => by
    rw [Node.toPatterns, chained_cons, n.toPattern_start, n.toPattern_stop]
    rw [chained_cons] at h
    exact ⟨h.1, h.2.1.toPattern, h.2.2.toPatterns⟩

end

theorem Chained.of_mem {pos stop : Nat} {ns : List Node} (h : Chained pos stop ns) {n : Node} (hn : n ∈ ns) :
    n.Nested ∧ n.stop ≤ stop := by
  induction ns generalizing pos with
  | nil => simp at hn
  | cons m ns ih =>
    rw [Chained] at h
    obtain ⟨-, hm, hns⟩ := h
    rcases List.mem_cons.1 hn with rfl | hn
    · exact ⟨hm, hns.le⟩
    · exact ih hns hn

theorem Node.Nested.of_mem {parent n : Node} (h : parent.Nested) (hk : parent.kind ≠ .string)
    (hn : n ∈ parent.children) : n.Nested ∧ n.stop ≤ parent.stop := by
  by_cases ht : parent.kind = .template
  · obtain ⟨hle, -, hchain⟩ := h.of_template ht
    obtain ⟨hn, hstop⟩ := hchain.of_mem hn
    exact ⟨hn, by omega⟩
  · exact (h.of_other hk ht).of_mem hn

section Text

variable (p : Program)

theorem text_self (i : Nat) : p.text i i = [] := by simp [text]

theorem text_append {a b c : Nat} (hab : a ≤ b) (hbc : b ≤ c) : p.text a b ++ p.text b c = p.text a c := by
  rw [text, text, text]
  have hb : p.source.drop b = (p.source.drop a).drop (b - a) := by
    rw [List.drop_drop, Nat.add_sub_of_le hab]
  have hc : c - a = (b - a) + (c - b) := by omega
  rw [hb, hc, List.take_add]

theorem length_text {a b : Nat} (hb : b ≤ p.source.length) : (p.text a b).length = b - a := by
  rw [text, List.length_take, List.length_drop]
  omega

end Text

def literalEdits (lookup : Text → Option Text) (ls : List Literal) : List (Edit Char) :=
  (ls.filter fun l => !l.isProtected).flatMap fun l => l.spans.filterMap (Span.edit? lookup)

theorem literalEdits_nil (lookup : Text → Option Text) : literalEdits lookup [] = [] := rfl

theorem literalEdits_append (lookup : Text → Option Text) (ks ls : List Literal) :
    literalEdits lookup (ks ++ ls) = literalEdits lookup ks ++ literalEdits lookup ls := by
  simp [literalEdits]

def spanText (p : Program) (lookup : Text → Option Text) (s : Span) : List Char :=
  match s.edit? lookup with
  | some e => e.replacement
  | none => p.text s.start s.stop

theorem edit?_eq_some {lookup : Text → Option Text} {s : Span} {e : Edit Char} (h : s.edit? lookup = some e) :
    e.start = s.start ∧ e.stop = s.stop ∧ s.value ≠ [] := by
  obtain ⟨t, ht, rfl⟩ := Option.map_eq_some_iff.1 h
  refine ⟨rfl, rfl, fun hnil => ?_⟩
  rw [hnil, ClassList.renamed_of_tokens_nil (by rw [Text.tokens])] at ht
  simp [Renaming.source?, Renaming.text?] at ht

theorem spliced_span (p : Program) (lookup : Text → Option Text) {s : Span} (hle : s.start ≤ s.stop)
    (hin : s.stop ≤ p.source.length) (hval : p.text s.start s.stop = [] → s.value = []) :
    Spliced s.start (p.text s.start s.stop) (s.edit? lookup).toList (p.spanText lookup s) := by
  rw [spanText]
  cases h : s.edit? lookup with
  | none => exact .copy _ _
  | some e =>
    obtain ⟨hstart, hstop, hne⟩ := edit?_eq_some h
    have hput := Spliced.put s.start e.replacement fun hnil => hne (hval hnil)
    have hend : s.start + (p.text s.start s.stop).length = e.stop := by
      rw [length_text p hin, hstop]
      omega
    rw [hend, ← hstart] at hput
    rw [← hstart]
    exact hput

end ShortClass.Program
