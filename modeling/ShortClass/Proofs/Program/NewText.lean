import ShortClass.Proofs.Program.NestedTree

namespace ShortClass.Program

variable {p : Program} {lookup : Text → Option Text}

def literalText (p : Program) (lookup : Text → Option Text) (isProtected : Bool) (s : Span) : List Char :=
  if isProtected then p.text s.start s.stop else p.spanText lookup s

def stringSpan (p : Program) (path : Ancestry) (n : Node) : Span :=
  let written := Text.ofChars (p.text (n.start + 1) (n.stop - 1))
  let raw := parentIs .markupAttribute path
  ⟨n.start + 1, n.stop - 1, if raw then written else cook written, p.quoteAt n.start, path.joins, raw⟩

def isProtectedString (p : Program) (path : Ancestry) : Bool :=
  parentIs .expressionStatement path || namesModule path || p.inStyleValue path

theorem stringLiteral_eq (path : Ancestry) (n : Node) :
    p.stringLiteral path n = .string (p.stringSpan path n) (p.isProtectedString path) := rfl

def chunk (p : Program) (outer : Joins) (after more : Bool) (start stop : Nat) : Span :=
  ⟨start, stop, cook (Text.ofChars (p.text start stop)), .backtick, ⟨after || outer.left, more || outer.right⟩, false⟩

def isProtectedTemplate (p : Program) (path : Ancestry) : Bool := isTagged path || p.inStyleValue path

def chunkText (p : Program) (lookup : Text → Option Text) (path : Ancestry) (after more : Bool)
    (start stop : Nat) : List Char :=
  p.literalText lookup (p.isProtectedTemplate path) (p.chunk path.joins after more start stop)

mutual

def newText (p : Program) (lookup : Text → Option Text) (path : Ancestry) : Node → List Char
  | .mk kind start stop children =>
    let n := Node.mk kind start stop children
    if kind = .string then
      p.text start (start + 1) ++ p.literalText lookup (p.isProtectedString path) (p.stringSpan path n) ++
        p.text (stop - 1) stop
    else if kind = .template then
      p.text start (start + 1) ++ weave p lookup (p.chunkText lookup path) n path 0 (start + 1) (stop - 1) children ++
        p.text (stop - 1) stop
    else weave p lookup (fun _ _ => p.text) n path 0 start stop children

def weave (p : Program) (lookup : Text → Option Text) (gap : Bool → Bool → Nat → Nat → List Char)
    (parent : Node) (path : Ancestry) (index pos stop : Nat) : List Node → List Char
  | [] => gap (0 < index) false pos stop
  | n :: ns =>
    gap (0 < index) true pos n.start ++ newText p lookup (⟨parent, index⟩ :: path) n ++
      weave p lookup gap parent path (index + 1) n.stop stop ns

end

section Kinds

variable {path : Ancestry} {n : Node}

theorem newText_of_string (hk : n.kind = .string) :
    p.newText lookup path n = p.text n.start (n.start + 1) ++
      p.literalText lookup (p.isProtectedString path) (p.stringSpan path n) ++ p.text (n.stop - 1) n.stop := by
  obtain ⟨kind, start, stop, children⟩ := n
  obtain rfl : kind = .string := hk
  rw [newText, if_pos rfl]
  rfl

theorem newText_of_template (hk : n.kind = .template) :
    p.newText lookup path n = p.text n.start (n.start + 1) ++
      p.weave lookup (p.chunkText lookup path) n path 0 (n.start + 1) (n.stop - 1) n.children ++
      p.text (n.stop - 1) n.stop := by
  obtain ⟨kind, start, stop, children⟩ := n
  obtain rfl : kind = .template := hk
  rw [newText, if_neg (by decide), if_pos rfl]
  rfl

theorem newText_of_other (hs : n.kind ≠ .string) (ht : n.kind ≠ .template) :
    p.newText lookup path n = p.weave lookup (fun _ _ => p.text) n path 0 n.start n.stop n.children := by
  obtain ⟨kind, start, stop, children⟩ := n
  simp only [Node.kind] at hs ht
  rw [newText, if_neg hs, if_neg ht]
  rfl

theorem literalsIn_of_string (hk : n.kind = .string) : p.literalsIn path n = [p.stringLiteral path n] := by
  obtain ⟨kind, start, stop, children⟩ := n
  obtain rfl : kind = .string := hk
  rw [literalsIn]

theorem literalsIn_of_template (hk : n.kind = .template) :
    p.literalsIn path n = p.templateLiteral path n :: p.literalsInAll n path 0 n.children := by
  obtain ⟨kind, start, stop, children⟩ := n
  obtain rfl : kind = .template := hk
  rw [literalsIn]
  rfl

theorem literalsIn_of_other (hs : n.kind ≠ .string) (ht : n.kind ≠ .template) :
    p.literalsIn path n = p.literalsInAll n path 0 n.children := by
  obtain ⟨kind, start, stop, children⟩ := n
  rw [literalsIn]
  · rfl
  · intro h; exact absurd h hs
  · intro h; exact absurd h ht

end Kinds

def overGaps {β : Type} (f : Bool → Bool → Nat → Nat → List β) (index pos stop : Nat) : List Node → List β
  | [] => f (0 < index) false pos stop
  | n :: ns => f (0 < index) true pos n.start ++ overGaps f (index + 1) n.stop stop ns

theorem overGaps_nil {β : Type} (index pos stop : Nat) (ns : List Node) :
    overGaps (fun _ _ _ _ => ([] : List β)) index pos stop ns = [] := by
  induction ns generalizing index pos with
  | nil => rfl
  | cons n ns ih => rw [overGaps, ih, List.nil_append]

def literalEdit (lookup : Text → Option Text) (isProtected : Bool) (s : Span) : List (Edit Char) :=
  if isProtected then [] else (s.edit? lookup).toList

theorem spliced_literalText (isProtected : Bool) {s : Span} (hle : s.start ≤ s.stop)
    (hin : s.stop ≤ p.source.length) (hval : p.text s.start s.stop = [] → s.value = []) :
    Spliced s.start (p.text s.start s.stop) (literalEdit lookup isProtected s)
      (p.literalText lookup isProtected s) := by
  rw [literalEdit, literalText]
  cases isProtected with
  | true => exact .copy _ _
  | false => exact spliced_span p lookup hle hin hval

theorem chunkBounds_ne_nil (pos stop : Nat) (cs : List Node) : chunkBounds pos stop cs ≠ [] := by
  induction cs generalizing pos with
  | nil => simp [chunkBounds]
  | cons c cs ih =>
    rw [chunkBounds]
    split
    · simp
    · exact ih pos

theorem flatMap_chunks {β : Type} (outer : Joins) (f : Span → List β) {cs : List Node}
    (hcs : ∀ c ∈ cs, c.kind = .substitution) (index pos stop : Nat) :
    (p.chunks outer (0 < index) (chunkBounds pos stop cs)).flatMap f =
      overGaps (fun after more start stop => f (p.chunk outer after more start stop)) index pos stop cs := by
  induction cs generalizing pos index with
  | nil => simp [chunkBounds, chunks, overGaps, chunk]
  | cons c cs ih =>
    have hrest := ih (fun d hd => hcs d (by simp [hd])) (index + 1) c.stop
    have hmore : (chunkBounds c.stop stop cs).isEmpty = false := by
      simpa using chunkBounds_ne_nil c.stop stop cs
    rw [chunkBounds, if_pos (hcs c (by simp)), chunks, List.flatMap_cons, overGaps, ← hrest, hmore]
    simp [chunk]

theorem literalEdits_singleton (l : Literal) :
    literalEdits lookup [l] = l.spans.flatMap (literalEdit lookup l.isProtected) := by
  cases h : l.isProtected with
  | true => simp [literalEdits, literalEdit, h]
  | false =>
    have hspan : literalEdit lookup false = fun s => (s.edit? lookup).toList := rfl
    simp only [literalEdits, h, Bool.not_false, List.filter_cons_of_pos, List.filter_nil, List.flatMap_cons,
      List.flatMap_nil, List.append_nil]
    rw [hspan, List.filterMap_eq_flatMap_toList]

theorem literalEdits_cons (l : Literal) (ls : List Literal) :
    literalEdits lookup (l :: ls) = l.spans.flatMap (literalEdit lookup l.isProtected) ++ literalEdits lookup ls := by
  rw [← List.singleton_append, literalEdits_append, literalEdits_singleton]

theorem Spliced.text_append {a b c : Nat} {es fs : List (Edit Char)} {x y : List Char} (hab : a ≤ b) (hbc : b ≤ c)
    (hc : c ≤ p.source.length) (hx : Spliced a (p.text a b) es x) (hy : Spliced b (p.text b c) fs y) :
    Spliced a (p.text a c) (es ++ fs) (x ++ y) := by
  have hb : a + (p.text a b).length = b := by
    rw [length_text p (by omega)]
    omega
  rw [← Program.text_append p hab hbc]
  exact hx.append (hb.symm ▸ hy)

theorem Spliced.delimited {start stop : Nat} {es : List (Edit Char)} {x : List Char} (hle : start + 2 ≤ stop)
    (hin : stop ≤ p.source.length) (h : Spliced (start + 1) (p.text (start + 1) (stop - 1)) es x) :
    Spliced start (p.text start stop) es (p.text start (start + 1) ++ x ++ p.text (stop - 1) stop) := by
  have hopen := Spliced.text_append (by omega) (by omega) (by omega) (.copy start (p.text start (start + 1))) h
  have hclose := Spliced.text_append (by omega) (by omega) hin hopen (.copy (stop - 1) (p.text (stop - 1) stop))
  rwa [List.nil_append, List.append_nil] at hclose

theorem cook_nil : cook [] = [] := by rw [cook]

theorem value_stringSpan_eq_nil {path : Ancestry} {n : Node} (h : p.text (n.start + 1) (n.stop - 1) = []) :
    (p.stringSpan path n).value = [] := by
  simp only [stringSpan, h]
  split
  · rfl
  · exact cook_nil

theorem value_chunk_eq_nil {outer : Joins} {after more : Bool} {start stop : Nat} (h : p.text start stop = []) :
    (p.chunk outer after more start stop).value = [] := by
  simp only [chunk, h]
  exact cook_nil

def FillsGaps (p : Program) (edits : Bool → Bool → Nat → Nat → List (Edit Char))
    (gap : Bool → Bool → Nat → Nat → List Char) : Prop :=
  ∀ after more start stop, start ≤ stop → stop ≤ p.source.length →
    Spliced start (p.text start stop) (edits after more start stop) (gap after more start stop)

theorem fillsGaps_text : p.FillsGaps (fun _ _ _ _ => []) fun _ _ => p.text := fun _ _ _ _ _ _ => .copy _ _

theorem fillsGaps_chunkText (lookup : Text → Option Text) (path : Ancestry) :
    p.FillsGaps (fun after more start stop =>
      literalEdit lookup (p.isProtectedTemplate path) (p.chunk path.joins after more start stop))
      (p.chunkText lookup path) := fun after more start stop hle hin =>
  spliced_literalText (s := p.chunk path.joins after more start stop) _ hle hin value_chunk_eq_nil

theorem spliced_of_children {n : Node} {path : Ancestry} (hn : n.Nested) (hstop : n.stop ≤ p.source.length)
    (hweave : ∀ edits gap, p.FillsGaps edits gap → ∀ pos stop, Chained pos stop n.children →
      stop ≤ p.source.length →
        Spliced pos (p.text pos stop)
          (overGaps edits 0 pos stop n.children ++ literalEdits lookup (p.literalsInAll n path 0 n.children))
          (p.weave lookup gap n path 0 pos stop n.children)) :
    Spliced n.start (p.text n.start n.stop) (literalEdits lookup (p.literalsIn path n))
      (p.newText lookup path n) := by
  by_cases hs : n.kind = .string
  · have hle := hn.of_string hs
    rw [literalsIn_of_string hs, newText_of_string hs, literalEdits_singleton, stringLiteral_eq, Literal.spans,
      List.flatMap_singleton]
    apply Spliced.delimited hle hstop
    exact spliced_literalText (s := p.stringSpan path n) _ (by simp only [stringSpan]; omega)
      (by simp only [stringSpan]; omega) value_stringSpan_eq_nil
  by_cases ht : n.kind = .template
  · obtain ⟨hle, hsub, hchain⟩ := hn.of_template ht
    have h := hweave _ _ (fillsGaps_chunkText lookup path) _ _ hchain (by omega)
    rw [← flatMap_chunks _ (literalEdit lookup (p.isProtectedTemplate path)) hsub] at h
    rw [literalsIn_of_template ht, newText_of_template ht, literalEdits_cons]
    exact Spliced.delimited hle hstop h
  · have h := hweave _ _ fillsGaps_text _ _ (hn.of_other hs ht) hstop
    rw [overGaps_nil, List.nil_append] at h
    rw [literalsIn_of_other hs ht, newText_of_other hs ht]
    exact h

mutual

theorem spliced_newText (p : Program) (lookup : Text → Option Text) :
    (n : Node) → (path : Ancestry) → n.Nested → n.stop ≤ p.source.length →
      Spliced n.start (p.text n.start n.stop) (literalEdits lookup (p.literalsIn path n))
        (p.newText lookup path n)
  | .mk _ _ _ children, path, hn, hstop => spliced_of_children hn hstop fun _ _ hgap pos stop hchain hle =>
    spliced_weave p lookup hgap _ path 0 children pos stop hchain hle

theorem spliced_weave (p : Program) (lookup : Text → Option Text)
    {edits : Bool → Bool → Nat → Nat → List (Edit Char)} {gap : Bool → Bool → Nat → Nat → List Char}
    (hgap : p.FillsGaps edits gap) (parent : Node) (path : Ancestry) (index : Nat) :
    (ns : List Node) → (pos stop : Nat) → Chained pos stop ns → stop ≤ p.source.length →
      Spliced pos (p.text pos stop)
        (overGaps edits index pos stop ns ++ literalEdits lookup (p.literalsInAll parent path index ns))
        (p.weave lookup gap parent path index pos stop ns)
  | [], pos, stop, hns, hstop => by
    rw [Chained] at hns
    rw [weave, overGaps, literalsInAll]
    simpa [literalEdits] using hgap (0 < index) false pos stop hns hstop
  | n :: ns, pos, stop, hns, hstop => by
    rw [Chained] at hns
    obtain ⟨hpos, hn, hns⟩ := hns
    have hle := hn.le
    have hrest := hns.le
    have hfirst := hgap (0 < index) true pos n.start hpos (by omega)
    have hnode := spliced_newText p lookup n (⟨parent, index⟩ :: path) hn (by omega)
    have hothers := spliced_weave p lookup hgap parent path (index + 1) ns n.stop stop hns hstop
    have hall := Spliced.text_append (by omega) hrest hstop
      (Spliced.text_append hpos hle (by omega) hfirst hnode) hothers
    rw [weave, overGaps, literalsInAll, literalEdits_append]
    -- the gaps come first in the list of edits, and in the source they alternate with the children
    refine hall.perm ?_
    rw [List.append_assoc, List.append_assoc]
    exact (List.perm_append_comm_assoc ..).append_left _

end

theorem WellNested.spliced_edits (hp : p.WellNested) (lookup : Text → Option Text) :
    Spliced 0 p.source (p.edits lookup)
      (p.text 0 p.root.start ++ p.newText lookup [] p.root ++ p.text p.root.stop p.source.length) := by
  have hroot := spliced_newText p lookup p.root [] hp.root hp.inside
  have hbefore := Spliced.text_append (Nat.zero_le _) hp.root.le hp.inside (.copy 0 (p.text 0 p.root.start)) hroot
  have hafter := Spliced.text_append (Nat.zero_le _) hp.inside (Nat.le_refl _) hbefore (.copy _ _)
  have hsource : p.text 0 p.source.length = p.source := by simp [text]
  rwa [List.nil_append, List.append_nil, hsource] at hafter

theorem WellNested.rename (hp : p.WellNested) (lookup : Text → Option Text) :
    p.rename lookup =
      .ok (p.text 0 p.root.start ++ p.newText lookup [] p.root ++ p.text p.root.stop p.source.length) :=
  EditBuffer.applyAll_of_spliced (hp.spliced_edits lookup)

end ShortClass.Program
