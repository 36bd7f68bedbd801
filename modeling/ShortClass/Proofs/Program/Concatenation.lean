import ShortClass.Proofs.Program.EscapedText
import ShortClass.Proofs.Program.NewText
import ShortClass.Proofs.Tokens

/-!
Concatenations: strings, templates and run-time values joined by `+` and `+=`, with parentheses. A
concatenation has a source text, a value for every choice of run-time values, and parts, whose texts
make that value in order.
-/

namespace ShortClass.Program

/-- Code whose value is known only at run time; `index` tells which value it is. -/
structure Opaque where
  index : Nat
  code : List Char

structure Hole where
  opening : List Char
  value : Opaque
  closing : List Char

def Hole.source (h : Hole) : List Char := h.opening ++ h.value.code ++ h.closing

inductive Expr where
  | string (quote : Quote) (body : List Char)
  | template (first : List Char) (rest : List (Hole × List Char))
  | value (v : Opaque)
  | parens (opening : List Char) (inner : Expr) (closing : List Char)
  | sum (left : Expr) (operator : List Char) (right : Expr)
  | assign (target : Opaque) (operator : List Char) (right : Expr)

namespace Expr

def source : Expr → List Char
  | string q body => [q.char] ++ body ++ [q.char]
  | template first rest =>
    [Quote.backtick.char] ++ (first ++ rest.flatMap fun r => r.1.source ++ r.2) ++ [Quote.backtick.char]
  | value v => v.code
  | parens opening inner closing => opening ++ inner.source ++ closing
  | sum left operator right => left.source ++ operator ++ right.source
  | assign target operator right => target.code ++ operator ++ right.source

def eval (ρ : Nat → Text) : Expr → Text
  | string _ body => cook (Text.ofChars body)
  | template first rest =>
    cook (Text.ofChars first) ++ rest.flatMap fun r => ρ r.1.value.index ++ cook (Text.ofChars r.2)
  | value v => ρ v.index
  | parens _ inner _ => inner.eval ρ
  | sum left _ right => left.eval ρ ++ right.eval ρ
  | assign target _ right => ρ target.index ++ right.eval ρ

/-- The operands, chunks and interpolated values in order; `true` marks those that literals give. -/
def parts (ρ : Nat → Text) : Expr → List (Bool × Text)
  | string _ body => [(true, cook (Text.ofChars body))]
  | template first rest =>
    (true, cook (Text.ofChars first)) ::
      rest.flatMap fun r => [(false, ρ r.1.value.index), (true, cook (Text.ofChars r.2))]
  | value v => [(false, ρ v.index)]
  | parens _ inner _ => inner.parts ρ
  | sum left _ right => left.parts ρ ++ right.parts ρ
  | assign target _ right => (false, ρ target.index) :: right.parts ρ

def tokens (ρ : Nat → Text) (e : Expr) : List (Bool × Text) := (e.parts ρ).flatMap ClassList.labelled

def skeleton : Expr → Expr
  | string q _ => string q []
  | template _ rest => template [] (rest.map fun r => (⟨r.1.opening, ⟨r.1.value.index, []⟩, r.1.closing⟩, []))
  | value v => value ⟨v.index, []⟩
  | parens opening inner closing => parens opening inner.skeleton closing
  | sum left operator right => sum left.skeleton operator right.skeleton
  | assign target operator right => assign ⟨target.index, []⟩ operator right.skeleton

def Readable : Expr → Prop
  | string q body => isContained q body = true
  | template first rest => isContained .backtick first = true ∧ ∀ r ∈ rest, isContained .backtick r.2 = true
  | value _ => True
  | parens _ inner _ => inner.Readable
  | sum left _ right => left.Readable ∧ right.Readable
  | assign _ _ right => right.Readable

end Expr

def ChunksStand (p : Program) (pos stop : Nat) (first : List Char) : List (Hole × List Char) → List Node → Prop
  | [], [] => p.text pos stop = first
  | r :: rest, n :: ns =>
    p.text pos n.start = first ∧ n.kind = .substitution ∧
      (∃ v, n.children = [v] ∧ p.text n.start v.start = r.1.opening ∧ p.text v.start v.stop = r.1.value.code ∧
        p.text v.stop n.stop = r.1.closing) ∧
      ChunksStand p n.stop stop r.2 rest ns
  | _, _ => False

def Expr.StandsAt (p : Program) : Expr → Ancestry → Node → Prop
  | string q body, path, n =>
    n.kind = .string ∧ q ≠ .backtick ∧ parentIs .markupAttribute path = false ∧
      p.text n.start n.stop = [q.char] ++ body ++ [q.char]
  | template first rest, _, n =>
    n.kind = .template ∧ p.text n.start (n.start + 1) = [Quote.backtick.char] ∧
      p.text (n.stop - 1) n.stop = [Quote.backtick.char] ∧
      ChunksStand p (n.start + 1) (n.stop - 1) first rest n.children
  | value v, _, n => p.text n.start n.stop = v.code
  | parens opening inner closing, path, n =>
    n.kind = .parenthesized ∧ ∃ m, n.children = [m] ∧ p.text n.start m.start = opening ∧
      p.text m.stop n.stop = closing ∧ inner.StandsAt p (⟨n, 0⟩ :: path) m
  | sum left operator right, path, n =>
    n.kind = .sum ∧ ∃ l r, n.children = [l, r] ∧ l.start = n.start ∧ p.text l.stop r.start = operator ∧
      r.stop = n.stop ∧ left.StandsAt p (⟨n, 0⟩ :: path) l ∧ right.StandsAt p (⟨n, 1⟩ :: path) r
  | assign target operator right, path, n =>
    n.kind = .sumAssignment ∧ ∃ t r, n.children = [t, r] ∧ t.start = n.start ∧
      p.text t.start t.stop = target.code ∧ p.text t.stop r.start = operator ∧ r.stop = n.stop ∧
      right.StandsAt p (⟨n, 1⟩ :: path) r

theorem ChunksStand.text {p : Program} {pos stop : Nat} {first : List Char} {rest : List (Hole × List Char)}
    {ns : List Node} (h : ChunksStand p pos stop first rest ns) (hns : Chained pos stop ns) :
    p.text pos stop = first ++ rest.flatMap fun r => r.1.source ++ r.2 := by
  induction rest generalizing pos first ns with
  | nil =>
    cases ns with
    | cons n ns => exact h.elim
    | nil =>
      obtain rfl : p.text pos stop = first := h
      rw [List.flatMap_nil, List.append_nil]
  | cons r rest ih =>
    cases ns with
    | nil => exact h.elim
    | cons n ns =>
      obtain ⟨rfl, hk, ⟨v, hv, hopen, hcode, hclose⟩, hrest⟩ := h
      rw [Chained] at hns
      obtain ⟨hpos, hn, hns⟩ := hns
      have hvn := hn.of_other (by simp [hk]) (by simp [hk])
      rw [hv, Chained, Chained] at hvn
      obtain ⟨hvstart, hvnested, hvstop⟩ := hvn
      have hhole : p.text n.start n.stop = r.1.source := by
        rw [← text_append p (Nat.le_trans hvstart hvnested.le) hvstop, ← text_append p hvstart hvnested.le, hopen,
          hcode, hclose, Hole.source]
      rw [← text_append p (Nat.le_trans hpos hn.le) hns.le, ← text_append p hpos hn.le, hhole, ih hrest hns]
      simp

theorem Expr.StandsAt.text {p : Program} {e : Expr} {path : Ancestry} {n : Node} (h : e.StandsAt p path n)
    (hn : n.Nested) : p.text n.start n.stop = e.source := by
  induction e generalizing path n with
  | string q body => exact h.2.2.2
  | template first rest =>
    obtain ⟨hk, hopen, hclose, hchunks⟩ := h
    obtain ⟨hle, -, hchain⟩ := hn.of_template hk
    rw [← text_append p (by omega : n.start ≤ n.stop - 1) (by omega),
      ← text_append p (by omega : n.start ≤ n.start + 1) (by omega), hopen, hclose, hchunks.text hchain, source]
  | value v => exact h
  | parens opening inner closing ih =>
    obtain ⟨hk, m, hc, hopen, hclose, hinner⟩ := h
    have hchain := hn.of_other (by simp [hk]) (by simp [hk])
    rw [hc, Chained, Chained] at hchain
    obtain ⟨hstart, hm, hstop⟩ := hchain
    rw [← text_append p (Nat.le_trans hstart hm.le) hstop, ← text_append p hstart hm.le, hopen, hclose,
      ih hinner hm, source]
  | sum f operator g ihf ihg =>
    obtain ⟨hk, l, r, hc, hstart, hoperator, hstop, hf, hg⟩ := h
    have hchain := hn.of_other (by simp [hk]) (by simp [hk])
    rw [hc, Chained, Chained, Chained] at hchain
    obtain ⟨-, hl, hlr, hr, -⟩ := hchain
    rw [← hstart, ← hstop, ← text_append p (Nat.le_trans hl.le hlr) hr.le, ← text_append p hl.le hlr,
      ihf hf hl, ihg hg hr, hoperator, source]
  | assign target operator g ih =>
    obtain ⟨hk, t, r, hc, hstart, htarget, hoperator, hstop, hg⟩ := h
    have hchain := hn.of_other (by simp [hk]) (by simp [hk])
    rw [hc, Chained, Chained, Chained] at hchain
    obtain ⟨-, ht, htr, hr, -⟩ := hchain
    rw [← hstart, ← hstop, ← text_append p (Nat.le_trans ht.le htr) hr.le, ← text_append p ht.le htr,
      htarget, ih hg hr, hoperator, source]

end ShortClass.Program
