import Mathlib.Data.List.Pairwise
import ShortClass.Proofs.Program.KeptNames

namespace ShortClass.Program

variable {p : Program} {path : Ancestry} {n : Node} {l : Literal} {k : Link}

section Style

def NamesStyle (p : Program) (key : Node) : Prop :=
  key.kind = .identifier ∧ p.text key.start key.stop = "style".toList ∨
    key.kind = .string ∧ p.text (key.start + 1) (key.stop - 1) = "style".toList

/-- The link leads out of the value of a property `style`, or out of an attribute `style`. -/
inductive LeavesStyle (p : Program) : Link → Prop where
  | property {parent key value : Node} {others : List Node} : parent.kind = .pair →
    parent.children = key :: value :: others → p.NamesStyle key → LeavesStyle p ⟨parent, 1⟩
  | attribute {parent name : Node} {others : List Node} {index : Nat} : parent.kind = .markupAttribute →
    parent.children = name :: others → p.NamesStyle name → LeavesStyle p ⟨parent, index⟩

def InStyle (p : Program) (path : Ancestry) : Prop := ∃ i < 64, ∃ k ∈ path[i]?, p.LeavesStyle k

theorem keyText?_eq_style_iff {key : Node} : p.keyText? key = some "style".toList ↔ p.NamesStyle key := by
  rw [keyText?, NamesStyle]
  split
  · next hk => simp [hk]
  · next hk => simp [hk]
  · next hi hs =>
    constructor
    · nofun
    · rintro (⟨hk, -⟩ | ⟨hk, -⟩)
      · exact absurd hk hi
      · exact absurd hk hs

theorem head?_keyText?_iff {cs : List Node} :
    cs.head?.bind p.keyText? = some "style".toList ↔ ∃ key others, cs = key :: others ∧ p.NamesStyle key := by
  cases cs with
  | nil => simp
  | cons key others =>
    rw [List.head?_cons, Option.bind_some, keyText?_eq_style_iff]
    constructor
    · intro h
      exact ⟨key, others, rfl, h⟩
    · rintro ⟨_, _, ⟨rfl, rfl⟩, h⟩
      exact h

theorem isStyleLink_iff (hk : k.index < k.parent.children.length) : p.isStyleLink k = true ↔ p.LeavesStyle k := by
  obtain ⟨parent, index⟩ := k
  simp only [isStyleLink]
  constructor
  · intro h
    split at h
    · next hkind =>
      simp only [Bool.and_eq_true, decide_eq_true_eq, beq_iff_eq, head?_keyText?_iff] at h
      obtain ⟨rfl, key, others, hchildren, hkey⟩ := h
      rw [hchildren] at hk
      obtain ⟨value, others, rfl⟩ := List.exists_cons_of_length_pos (Nat.lt_of_succ_lt_succ hk)
      exact .property hkind hchildren hkey
    · next hkind =>
      simp only [beq_iff_eq, head?_keyText?_iff] at h
      obtain ⟨name, others, hchildren, hname⟩ := h
      exact .attribute hkind hchildren hname
    · cases h
  · rintro (⟨hkind, hchildren, hkey⟩ | ⟨hkind, hchildren, hname⟩)
    · simp [hkind, hchildren, keyText?_eq_style_iff.2 hkey]
    · simp [hkind, hchildren, keyText?_eq_style_iff.2 hname]

theorem Reached.index_lt (h : p.Reached path n) (hk : k ∈ path) : k.index < k.parent.children.length := by
  induction h with
  | root => simp at hk
  | child _ _ hn ih =>
    rcases List.mem_cons.1 hk with rfl | hk
    · exact (List.getElem?_eq_some_iff.1 hn).1
    · exact ih hk

theorem Reached.inStyleValue_iff (h : p.Reached path n) : p.inStyleValue path = true ↔ p.InStyle path := by
  have hlink {k : Link} (hk : k ∈ path) : p.isStyleLink k = true ↔ p.LeavesStyle k := isStyleLink_iff (h.index_lt hk)
  rw [inStyleValue, List.any_eq_true]
  constructor
  · rintro ⟨k, hk, hstyle⟩
    obtain ⟨i, hi⟩ := List.mem_iff_getElem?.1 hk
    rw [List.getElem?_take, Option.ite_none_right_eq_some] at hi
    exact ⟨i, hi.1, k, hi.2, (hlink (List.mem_of_mem_take hk)).1 hstyle⟩
  · rintro ⟨i, hi, k, hk, hstyle⟩
    refine ⟨k, List.mem_iff_getElem?.2 ⟨i, ?_⟩, (hlink (List.mem_of_getElem? hk)).2 hstyle⟩
    have hlt : i < maxLinks := hi
    rw [List.getElem?_take_of_lt hlt]
    exact hk

end Style

section Reasons

def ChildOf (kind : Kind) (path : Ancestry) : Prop := ∃ k ∈ path.head?, k.parent.kind = kind

def ImportArgument (path : Ancestry) : Prop :=
  ChildOf .arguments path ∧ ∃ call ∈ path[1]?, call.parent.kind = .call ∧
    ∃ function ∈ call.parent.children.head?, function.kind = .importWord

def IsTag (path : Ancestry) : Prop := ∃ k ∈ path.head?, k.parent.kind = .call ∧ k.index = 1

theorem parentIs_iff {kind : Kind} : parentIs kind path = true ↔ ChildOf kind path := by
  cases path <;> simp [parentIs, ChildOf]

theorem isTagged_iff : isTagged path = true ↔ IsTag path := by
  cases path <;> simp [isTagged, IsTag]

theorem childOf_cons {kind : Kind} {above : Ancestry} : ChildOf kind (k :: above) ↔ k.parent.kind = kind := by
  simp [ChildOf]

theorem importArgument_cons {above : Ancestry} (hk : k.parent.kind = .arguments) :
    ImportArgument (k :: above) ↔ namesModule (k :: above) = true := by
  simp only [ImportArgument, childOf_cons, hk, true_and, List.getElem?_cons_succ, namesModule]
  rcases above with _ | ⟨⟨⟨kind, start, stop, children⟩, index⟩, above⟩
  · simp
  rcases children with _ | ⟨function, others⟩
  · simp [Node.children]
  by_cases hcall : kind = .call
  · subst hcall
    have hparent : (Node.mk .call start stop (function :: others)).kind = .call := rfl
    simp [hparent, Node.children]
  · have hparent : (Node.mk kind start stop (function :: others)).kind ≠ .call := hcall
    simp [hcall, hparent]

theorem namesModule_iff :
    namesModule path = true ↔
      ChildOf .importStatement path ∨ ChildOf .exportStatement path ∨ ImportArgument path := by
  cases path with
  | nil => simp [namesModule, ChildOf, ImportArgument]
  | cons k above =>
    rw [childOf_cons, childOf_cons]
    by_cases harguments : k.parent.kind = .arguments
    · rw [importArgument_cons harguments]
      simp [harguments]
    · have hnot : ¬ImportArgument (k :: above) := fun h => harguments (childOf_cons.1 h.1)
      simp only [hnot, or_false, namesModule]
      split <;> simp_all

theorem Reached.isProtected_string (h : p.Reached path n) (hl : p.IsLiteralAt l path n) (hk : n.kind = .string) :
    l.isProtected = true ↔ p.InStyle path ∨ ChildOf .expressionStatement path ∨ ChildOf .importStatement path ∨
      ChildOf .exportStatement path ∨ ImportArgument path := by
  rcases hl with ⟨-, rfl⟩ | ⟨hk', -⟩
  · rw [stringLiteral_eq, Literal.isProtected, isProtectedString, Bool.or_eq_true, Bool.or_eq_true, parentIs_iff,
      namesModule_iff, h.inStyleValue_iff, or_comm]
  · cases hk.symm.trans hk'

theorem Reached.isProtected_template (h : p.Reached path n) (hl : p.IsLiteralAt l path n) (hk : n.kind = .template) :
    l.isProtected = true ↔ p.InStyle path ∨ IsTag path := by
  rcases hl with ⟨hk', -⟩ | ⟨-, rfl⟩
  · cases hk.symm.trans hk'
  · rw [isProtected_templateLiteral, isProtectedTemplate, Bool.or_eq_true, isTagged_iff, h.inStyleValue_iff, or_comm]

theorem Reached.isProtected_of_inStyle (h : p.Reached path n) (hl : p.IsLiteralAt l path n) (hstyle : p.InStyle path) :
    l.isProtected = true := by
  by_cases hk : n.kind = .string
  · exact (h.isProtected_string hl hk).2 (.inl hstyle)
  · exact (h.isProtected_template hl (hl.resolve_left fun hs => hk hs.1).1).2 (.inl hstyle)

end Reasons

section Kept

theorem literalsIn_subset_literalsInAll {parent : Node} {cs : List Node} {i : Nat} (hn : cs[i]? = some n)
    (index : Nat) : p.literalsIn (⟨parent, index + i⟩ :: path) n ⊆ p.literalsInAll parent path index cs := by
  induction cs generalizing index i with
  | nil => simp at hn
  | cons c cs ih =>
    rw [literalsInAll]
    cases i with
    | zero =>
      obtain rfl : c = n := by simpa using hn
      exact List.subset_append_left _ _
    | succ i =>
      have hrest := ih (by simpa using hn) (index + 1)
      rw [Nat.add_assoc, Nat.add_comm 1 i] at hrest
      exact List.Subset.trans hrest (List.subset_append_right _ _)

theorem Reached.literalsIn_subset (h : p.Reached path n) : p.literalsIn path n ⊆ p.literals := by
  induction h with
  | root => exact List.Subset.refl _
  | @child path parent n index _ hs hn ih =>
    have hchild : p.literalsIn (⟨parent, 0 + index⟩ :: path) n ⊆ p.literalsInAll parent path 0 parent.children :=
      literalsIn_subset_literalsInAll hn 0
    rw [Nat.zero_add] at hchild
    refine List.Subset.trans (List.Subset.trans hchild ?_) ih
    by_cases ht : parent.kind = .template
    · rw [literalsIn_of_template ht]
      exact List.subset_cons_self _ _
    · rw [literalsIn_of_other hs ht]
      exact List.Subset.refl _

theorem Reached.mem_literals (h : p.Reached path n) (hl : p.IsLiteralAt l path n) : l ∈ p.literals := by
  apply h.literalsIn_subset
  rcases hl with ⟨hk, rfl⟩ | ⟨hk, rfl⟩
  · rw [literalsIn_of_string hk]
    exact List.mem_singleton_self _
  · rw [literalsIn_of_template hk]
    exact List.mem_cons_self

theorem LaidOut.apart_of_isProtected (hp : p.LaidOut) (hl : l ∈ p.literals) (hprotected : l.isProtected = true)
    {s : Span} (hs : s ∈ l.spans) {lookup : Text → Option Text} {e : Edit Char} (he : e ∈ p.edits lookup) :
    e.stop ≤ s.start ∨ s.stop ≤ e.start := by
  obtain ⟨l', hl', hfree, t, ht, he⟩ := mem_edits_iff.1 he
  obtain ⟨hstart, hstop, -⟩ := edit?_eq_some he
  have hspans := (hp.spansWithin_spansIn p.root [] .root).apart
  have hpairs := (List.pairwise_flatMap.1 hspans).2
  have hsymm : Std.Symm fun l l' : Literal => ∀ s ∈ l.spans, ∀ t ∈ l'.spans, s.Apart t :=
    ⟨fun l l' h s hs t ht => (h t ht s hs).symm⟩
  have hne : l' ≠ l := by
    rintro rfl
    rw [hprotected] at hfree
    cases hfree
  rw [hstart, hstop]
  exact hpairs.forall hl' hl hne t ht s hs

/-- The text of the span stands in `new` between what the edits before and after it make of the rest. -/
def KeepsSpan (p : Program) (lookup : Text → Option Text) (s : Span) (new : List Char) : Prop :=
  ∃ es fs before after, (es ++ fs).Perm (p.edits lookup) ∧ Spliced 0 (p.source.take s.start) es before ∧
    Spliced s.stop (p.source.drop s.stop) fs after ∧ new = before ++ p.text s.start s.stop ++ after

theorem WellNested.exists_keepsSpan (hp : p.WellNested) (lookup : Text → Option Text) :
    ∃ new, p.rename lookup = .ok new ∧
      ∀ l ∈ p.literals, l.isProtected = true → ∀ s ∈ l.spans, p.KeepsSpan lookup s new := by
  refine ⟨_, hp.rename lookup, fun l hl hprotected s hs => ?_⟩
  have hbounds := (hp.laidOut.spansWithin_spansIn p.root [] .root).bounds s (List.mem_flatMap.2 ⟨l, hl, hs⟩)
  exact (hp.spliced_edits lookup).around hbounds.2.1 (hbounds.2.2.trans hp.inside) fun e he =>
    hp.laidOut.apart_of_isProtected hl hprotected hs he

end Kept

section OwnText

def Node.Interpolates (n : Node) (i : Nat) : Prop := ∃ c ∈ n.children, c.kind = .substitution ∧ c.start ≤ i ∧ i < c.stop

theorem chunkBounds_cover {pos stop i : Nat} (cs : List Node) (hpos : pos ≤ i) (hstop : i < stop) :
    (∃ b ∈ chunkBounds pos stop cs, b.1 ≤ i ∧ i < b.2) ∨
      ∃ c ∈ cs, c.kind = .substitution ∧ c.start ≤ i ∧ i < c.stop := by
  induction cs generalizing pos with
  | nil => exact .inl ⟨(pos, stop), by simp [chunkBounds], hpos, hstop⟩
  | cons c cs ih =>
    rw [chunkBounds]
    split
    · next hk =>
      by_cases hbefore : i < c.start
      · exact .inl ⟨_, List.mem_cons_self, hpos, hbefore⟩
      by_cases hinside : i < c.stop
      · exact .inr ⟨c, List.mem_cons_self, hk, Nat.le_of_not_lt hbefore, hinside⟩
      rcases ih (Nat.le_of_not_lt hinside) with ⟨b, hb, hi⟩ | ⟨d, hd, hi⟩
      · exact .inl ⟨b, List.mem_cons_of_mem _ hb, hi⟩
      · exact .inr ⟨d, List.mem_cons_of_mem _ hd, hi⟩
    · rcases ih hpos with hchunk | ⟨d, hd, hi⟩
      · exact .inl hchunk
      · exact .inr ⟨d, List.mem_cons_of_mem _ hd, hi⟩

theorem IsLiteralAt.spans_cover (hl : p.IsLiteralAt l path n) {i : Nat} (hstart : n.start < i)
    (hstop : i + 1 < n.stop) :
    (∃ s ∈ l.spans, s.start ≤ i ∧ i < s.stop) ∨ n.kind = .template ∧ n.Interpolates i := by
  rcases hl with ⟨-, rfl⟩ | ⟨hk, rfl⟩
  · exact .inl ⟨p.stringSpan path n, List.mem_singleton_self _, hstart, by simp only [stringSpan]; omega⟩
  · rcases chunkBounds_cover n.children (Nat.succ_le_of_lt hstart) (Nat.lt_sub_of_add_lt hstop) with
      ⟨b, hb, hi⟩ | hin
    · rw [← map_chunks (p := p) path.joins false (chunkBounds _ _ n.children), List.mem_map] at hb
      obtain ⟨s, hs, rfl⟩ := hb
      exact .inl ⟨s, hs, hi⟩
    · exact .inr ⟨hk, hin⟩

end OwnText

theorem style_values_kept {source : List Char} (hp : parse? source = some p) (hn : p.Reached path n)
    (hl : p.IsLiteralAt l path n) :
    (p.InStyle path → l ∈ p.literals ∧ l.isProtected = true ∧
      (∀ i, n.start < i → i + 1 < n.stop →
        (∃ s ∈ l.spans, s.start ≤ i ∧ i < s.stop) ∨ n.kind = .template ∧ n.Interpolates i) ∧
      ∀ lookup, ∃ new, p.rename lookup = .ok new ∧ ∀ s ∈ l.spans, p.KeepsSpan lookup s new) ∧
    (n.kind = .string → l.isProtected = true → p.InStyle path ∨ ChildOf .expressionStatement path ∨
      ChildOf .importStatement path ∨ ChildOf .exportStatement path ∨ ImportArgument path) ∧
    (n.kind = .template → l.isProtected = true → p.InStyle path ∨ IsTag path) := by
  refine ⟨fun hstyle => ?_, fun hk => (hn.isProtected_string hl hk).1, fun hk => (hn.isProtected_template hl hk).1⟩
  have hmem := hn.mem_literals hl
  have hprotected := hn.isProtected_of_inStyle hl hstyle
  refine ⟨hmem, hprotected, fun i => hl.spans_cover, fun lookup => ?_⟩
  obtain ⟨new, hnew, hkept⟩ := (wellNested_of_parse hp).exists_keepsSpan lookup
  exact ⟨new, hnew, hkept l hmem hprotected⟩

section Nested

def descend (path : Ancestry) (n : Node) : List Nat → Option (Ancestry × Node)
  | [] => some (path, n)
  | i :: rest => if n.kind = .string then none else n.children[i]?.bind fun c => descend (⟨n, i⟩ :: path) c rest

theorem Reached.descend {indices : List Nat} {path' : Ancestry} {n' : Node} (h : p.Reached path n)
    (hd : descend path n indices = some (path', n')) : p.Reached path' n' := by
  induction indices generalizing path n with
  | nil =>
    obtain ⟨rfl, rfl⟩ := Prod.mk.inj (Option.some.inj hd)
    exact h
  | cons i rest ih =>
    obtain ⟨hk, hd⟩ := Option.ite_none_left_eq_some.1 hd
    obtain ⟨c, hc, hd⟩ := Option.bind_eq_some_iff.1 hd
    exact ih (.child h hk hc) hd

def styleSource : List Char := "y=\x7b'style':[z(\x60btn $\x7bx\x7d\x60)]\x7d".toList

theorem style_values_kept_nested :
    ∃ p path n, parse? styleSource = some p ∧ p.Reached path n ∧ n.kind = .template ∧ p.InStyle path ∧
      (p.templateLiteral path n).spans.map (fun s => p.text s.start s.stop) = ["btn ".toList, []] ∧
      ∀ lookup, ∃ new, p.rename lookup = .ok new ∧
        ∀ s ∈ (p.templateLiteral path n).spans, p.KeepsSpan lookup s new := by
  have hread : ((parse? styleSource).bind fun p => (descend [] p.root [0, 0, 1, 0, 1, 0, 1, 0]).map fun (path, n) =>
      (n.kind, p.inStyleValue path, (p.templateLiteral path n).spans.map fun s => p.text s.start s.stop)) =
      some (.template, true, ["btn ".toList, []]) := by decide +kernel
  obtain ⟨p, hp, hread⟩ := Option.bind_eq_some_iff.1 hread
  obtain ⟨⟨path, n⟩, hd, hread⟩ := Option.map_eq_some_iff.1 hread
  simp only [Prod.mk.injEq] at hread
  obtain ⟨hk, hstyle, htexts⟩ := hread
  have hn : p.Reached path n := Reached.root.descend hd
  have hin := hn.inStyleValue_iff.1 hstyle
  obtain ⟨-, -, -, hkept⟩ := (style_values_kept hp hn (.inr ⟨hk, rfl⟩)).1 hin
  exact ⟨p, path, n, hp, hn, hk, hin, htexts, hkept⟩

end Nested

end ShortClass.Program
