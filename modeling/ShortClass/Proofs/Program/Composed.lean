import ShortClass.Proofs.Program.Concatenation

/-!
Composed expressions: concatenations in which a conditional may be an operand, and any such expression may be
interpolated in a template. Which branch a conditional takes is chosen at run time, as values are.

Beside the literals of such an expression other parts of it may stand. How far the surroundings of a literal
tell so is a matter of the way up from the literal to the part.
-/

namespace ShortClass.Program

mutual

inductive Composed where
  | string (quote : Quote) (body : List Char)
  | template (chunks : Chunks)
  | value (v : Opaque)
  | parens (opening : List Char) (inner : Composed) (closing : List Char)
  | sum (left : Composed) (operator : List Char) (right : Composed)
  | choice (condition : Opaque) (question : List Char) (yes : Composed) (colon : List Char) (no : Composed)

inductive Chunks where
  | last (body : List Char)
  | cons (body opening : List Char) (inner : Composed) (closing : List Char) (rest : Chunks)

end

mutual

def Composed.source : Composed → List Char
  | .string q body => [q.char] ++ body ++ [q.char]
  | .template chunks => [Quote.backtick.char] ++ chunks.source ++ [Quote.backtick.char]
  | .value v => v.code
  | .parens opening inner closing => opening ++ inner.source ++ closing
  | .sum left operator right => left.source ++ operator ++ right.source
  | .choice condition question yes colon no => condition.code ++ question ++ yes.source ++ colon ++ no.source

def Chunks.source : Chunks → List Char
  | .last body => body
  | .cons body opening inner closing rest => body ++ (opening ++ inner.source ++ closing) ++ rest.source

end

mutual

def Composed.eval (ρ : Nat → Text) (β : Nat → Bool) : Composed → Text
  | .string _ body => cook (Text.ofChars body)
  | .template chunks => chunks.eval ρ β
  | .value v => ρ v.index
  | .parens _ inner _ => inner.eval ρ β
  | .sum left _ right => left.eval ρ β ++ right.eval ρ β
  | .choice condition _ yes _ no => if β condition.index then yes.eval ρ β else no.eval ρ β

def Chunks.eval (ρ : Nat → Text) (β : Nat → Bool) : Chunks → Text
  | .last body => cook (Text.ofChars body)
  | .cons body _ inner _ rest => cook (Text.ofChars body) ++ (inner.eval ρ β ++ rest.eval ρ β)

end

mutual

def Composed.skeleton : Composed → Composed
  | .string q _ => .string q []
  | .template chunks => .template chunks.skeleton
  | .value v => .value ⟨v.index, []⟩
  | .parens opening inner closing => .parens opening inner.skeleton closing
  | .sum left operator right => .sum left.skeleton operator right.skeleton
  | .choice condition question yes colon no =>
    .choice ⟨condition.index, []⟩ question yes.skeleton colon no.skeleton

def Chunks.skeleton : Chunks → Chunks
  | .last _ => .last []
  | .cons _ opening inner closing rest => .cons [] opening inner.skeleton closing rest.skeleton

end

mutual

def Composed.Readable : Composed → Prop
  | .string q body => isContained q body = true
  | .template chunks => chunks.Readable
  | .value _ => True
  | .parens _ inner _ => inner.Readable
  | .sum left _ right => left.Readable ∧ right.Readable
  | .choice _ _ yes _ no => yes.Readable ∧ no.Readable

def Chunks.Readable : Chunks → Prop
  | .last body => isContained .backtick body = true
  | .cons body _ inner _ rest => isContained .backtick body = true ∧ inner.Readable ∧ rest.Readable

end

mutual

def Composed.StandsAt (p : Program) : Composed → Ancestry → Node → Prop
  | .string q body, path, n =>
    n.kind = .string ∧ q ≠ .backtick ∧ parentIs .markupAttribute path = false ∧
      p.text n.start n.stop = [q.char] ++ body ++ [q.char]
  | .template chunks, path, n =>
    n.kind = .template ∧ p.text n.start (n.start + 1) = [Quote.backtick.char] ∧
      p.text (n.stop - 1) n.stop = [Quote.backtick.char] ∧
      chunks.StandAt p n path 0 (n.start + 1) (n.stop - 1) n.children
  | .value v, _, n => p.text n.start n.stop = v.code
  | .parens opening inner closing, path, n =>
    n.kind = .parenthesized ∧ ∃ m, n.children = [m] ∧ p.text n.start m.start = opening ∧
      p.text m.stop n.stop = closing ∧ inner.StandsAt p (⟨n, 0⟩ :: path) m
  | .sum left operator right, path, n =>
    n.kind = .sum ∧ ∃ l r, n.children = [l, r] ∧ l.start = n.start ∧ p.text l.stop r.start = operator ∧
      r.stop = n.stop ∧ left.StandsAt p (⟨n, 0⟩ :: path) l ∧ right.StandsAt p (⟨n, 1⟩ :: path) r
  | .choice condition question yes colon no, path, n =>
    n.kind = .other ∧ '?' ∈ question ∧ ':' ∈ colon ∧ ∃ c y z, n.children = [c, y, z] ∧ c.start = n.start ∧
      p.text c.start c.stop = condition.code ∧ p.text c.stop y.start = question ∧
      p.text y.stop z.start = colon ∧ z.stop = n.stop ∧ yes.StandsAt p (⟨n, 1⟩ :: path) y ∧
      no.StandsAt p (⟨n, 2⟩ :: path) z

def Chunks.StandAt (p : Program) : Chunks → Node → Ancestry → (index pos stop : Nat) → List Node → Prop
  | .last body, _, _, _, pos, stop, ns => ns = [] ∧ p.text pos stop = body
  | .cons body opening inner closing rest, parent, path, index, pos, stop, ns =>
    ∃ m ms, ns = m :: ms ∧ p.text pos m.start = body ∧ m.kind = .substitution ∧
      (∃ v, m.children = [v] ∧ p.text m.start v.start = opening ∧ p.text v.stop m.stop = closing ∧
        inner.StandsAt p (⟨m, 0⟩ :: ⟨parent, index⟩ :: path) v) ∧
      rest.StandAt p parent path (index + 1) m.stop stop ms

end

section Text

variable {p : Program}

mutual

theorem Composed.StandsAt.text : (e : Composed) → {path : Ancestry} → {n : Node} → e.StandsAt p path n →
    n.Nested → p.text n.start n.stop = e.source
  | .string q body, _, _, h, _ => h.2.2.2
  | .template chunks, _, n, h, hn => by
    obtain ⟨hk, hopen, hclose, hchunks⟩ := h
    obtain ⟨hle, -, hchain⟩ := hn.of_template hk
    rw [← text_append p (by omega : n.start ≤ n.stop - 1) (by omega),
      ← text_append p (by omega : n.start ≤ n.start + 1) (by omega), hopen, hclose,
      Chunks.StandAt.text chunks hchunks hchain, Composed.source]
  | .value _, _, _, h, _ => h
  | .parens opening inner closing, _, n, h, hn => by
    obtain ⟨hk, m, hc, hopen, hclose, hinner⟩ := h
    have hchain := hn.of_other (by simp [hk]) (by simp [hk])
    rw [hc, Chained, Chained] at hchain
    obtain ⟨hstart, hm, hstop⟩ := hchain
    rw [← text_append p (Nat.le_trans hstart hm.le) hstop, ← text_append p hstart hm.le, hopen, hclose,
      Composed.StandsAt.text inner hinner hm, Composed.source]
  | .sum left operator right, _, n, h, hn => by
    obtain ⟨hk, l, r, hc, hstart, hoperator, hstop, hleft, hright⟩ := h
    have hchain := hn.of_other (by simp [hk]) (by simp [hk])
    rw [hc, Chained, Chained, Chained] at hchain
    obtain ⟨-, hl, hlr, hr, -⟩ := hchain
    rw [← hstart, ← hstop, ← text_append p (Nat.le_trans hl.le hlr) hr.le, ← text_append p hl.le hlr,
      Composed.StandsAt.text left hleft hl, Composed.StandsAt.text right hright hr, hoperator, Composed.source]
  | .choice condition question yes colon no, _, n, h, hn => by
    obtain ⟨hk, -, -, c, y, z, hc, hstart, hcondition, hquestion, hcolon, hstop, hyes, hno⟩ := h
    have hchain := hn.of_other (by simp [hk]) (by simp [hk])
    rw [hc, Chained, Chained, Chained, Chained] at hchain
    obtain ⟨-, hcn, hcy, hy, hyz, hz, -⟩ := hchain
    rw [← hstart, ← hstop, ← text_append p (by have := hcn.le; have := hy.le; omega : c.start ≤ z.start) hz.le,
      ← text_append p (by have := hcn.le; have := hy.le; omega : c.start ≤ y.stop) hyz,
      ← text_append p (Nat.le_trans hcn.le hcy) hy.le, ← text_append p hcn.le hcy, hcondition, hquestion, hcolon,
      Composed.StandsAt.text yes hyes hy, Composed.StandsAt.text no hno hz, Composed.source]

theorem Chunks.StandAt.text : (chunks : Chunks) → {parent : Node} → {path : Ancestry} → {index pos stop : Nat} →
    {ns : List Node} → chunks.StandAt p parent path index pos stop ns → Chained pos stop ns →
    p.text pos stop = chunks.source
  | .last body, _, _, _, _, _, _, h, _ => h.2
  | .cons body opening inner closing rest, parent, path, index, pos, stop, ns, h, hns => by
    obtain ⟨m, ms, rfl, hbody, hk, ⟨v, hv, hopen, hclose, hinner⟩, hrest⟩ := h
    rw [Chained] at hns
    obtain ⟨hpos, hm, hms⟩ := hns
    have hvm := hm.of_other (by simp [hk]) (by simp [hk])
    rw [hv, Chained, Chained] at hvm
    obtain ⟨hvstart, hvnested, hvstop⟩ := hvm
    have hhole : p.text m.start m.stop = opening ++ inner.source ++ closing := by
      rw [← text_append p (Nat.le_trans hvstart hvnested.le) hvstop, ← text_append p hvstart hvnested.le, hopen,
        Composed.StandsAt.text inner hinner hvnested, hclose]
    rw [← text_append p (Nat.le_trans hpos hm.le) hms.le, ← text_append p hpos hm.le, hbody, hhole,
      Chunks.StandAt.text rest hrest hms, Chunks.source]

end

end Text

/-- What stands beside a literal in its expression: nothing, something that the way up does not tell of, or an
operand of the concatenation so many links up. -/
inductive Neighbour where
  | none
  | hidden
  | operand (links : Nat)

namespace Neighbour

def stands : Neighbour → Bool
  | none => false
  | _ => true

def further : Neighbour → Neighbour
  | operand links => operand (links + 1)
  | n => n

def hide : Neighbour → Neighbour
  | none => none
  | _ => hidden

def sees (blank : Bool) : Neighbour → Bool
  | none => true
  | hidden => !blank
  | operand links => links ≤ maxLinks || !blank

@[simp] theorem stands_further (n : Neighbour) : n.further.stands = n.stands := by cases n <;> rfl

@[simp] theorem stands_hide (n : Neighbour) : n.hide.stands = n.stands := by cases n <;> rfl

end Neighbour

def Chunks.neighbour (right : Neighbour) : Chunks → Neighbour
  | .last body => if cook (Text.ofChars body) = [] then right else .hidden
  | .cons .. => .hidden

mutual

/-- Is every literal told of its neighbours, as far as it has blanks beside them? -/
def Composed.edgesSeen : Composed → (left right : Neighbour) → Bool
  | .string _ body, left, right =>
    left.sees (cook (Text.ofChars body)).startsBlank && right.sees (cook (Text.ofChars body)).endsBlank
  | .template chunks, left, right => chunks.edgesSeen left right
  | .value _, _, _ => true
  | .parens _ inner _, left, right => inner.edgesSeen left right
  | .sum e _ f, left, right => e.edgesSeen left.further (.operand 1) && f.edgesSeen (.operand 1) right.further
  | .choice _ _ yes _ no, left, right =>
    yes.edgesSeen left.hide right.hide && no.edgesSeen left.hide right.hide

def Chunks.edgesSeen : Chunks → (left right : Neighbour) → Bool
  | .last body, left, right =>
    left.sees (cook (Text.ofChars body)).startsBlank && right.sees (cook (Text.ofChars body)).endsBlank
  | .cons body _ inner _ rest, left, right =>
    left.sees (cook (Text.ofChars body)).startsBlank &&
      inner.edgesSeen (if cook (Text.ofChars body) = [] then left else .hidden).hide (rest.neighbour right).hide &&
      rest.edgesSeen (.operand 0) right

end

end ShortClass.Program
