import ShortClass.Proofs.Stylesheet.Segments

/-!
The grammar of stylesheets over tokens, its derivations as trees, and what the builder makes of a derivation.

    sheet       = entry*
    entry       = prelude block | KEYWORD prelude? (block | ";") | prelude ";" | ";"
    block       = "{" entry* tail? "}"
    tail        = prelude | KEYWORD prelude?
    prelude     = PRELUDE+

No sequence of tokens has two derivations, and the builder accepts those that have one.
-/

namespace ShortClass.Stylesheet.Grammar

structure Terminal (k : Token.Kind) where
  text : List Char
  start : Nat

def Terminal.token {k : Token.Kind} (t : Terminal k) : Token := ⟨k, t.text, t.start⟩

@[simp] theorem Terminal.token_mk {k : Token.Kind} (text : List Char) (start : Nat) :
    Terminal.token (k := k) ⟨text, start⟩ = ⟨k, text, start⟩ := rfl

structure Prelude where
  first : Terminal .prelude
  more : List (Terminal .prelude)

inductive Tail where
  | declaration (p : Prelude)
  | atRule (keyword : Terminal .atKeyword) (p : Option Prelude)

mutual

inductive Entry where
  | rule (p : Prelude) (b : Block)
  | atBlock (keyword : Terminal .atKeyword) (p : Option Prelude) (b : Block)
  | atLine (keyword : Terminal .atKeyword) (p : Option Prelude) (stop : Terminal .semicolon)
  | declaration (p : Prelude) (stop : Terminal .semicolon)
  | empty (stop : Terminal .semicolon)

inductive Block where
  | mk (opening : Terminal .lbrace) (entries : List Entry) (tail : Option Tail) (closing : Terminal .rbrace)

end

section Tokens

def Prelude.tokens (p : Prelude) : List Token := (p.first :: p.more).map Terminal.token

def Tail.tokens : Tail → List Token
  | declaration p => p.tokens
  | atRule keyword p => keyword.token :: p.elim [] Prelude.tokens

mutual

def Entry.tokens : Entry → List Token
  | .rule p b => p.tokens ++ b.tokens
  | .atBlock keyword p b => keyword.token :: p.elim [] Prelude.tokens ++ b.tokens
  | .atLine keyword p stop => keyword.token :: p.elim [] Prelude.tokens ++ [stop.token]
  | .declaration p stop => p.tokens ++ [stop.token]
  | .empty stop => [stop.token]

def Block.tokens : Block → List Token
  | .mk opening entries tail closing => opening.token :: tokensOf entries ++ tail.elim [] Tail.tokens ++ [closing.token]

def tokensOf : List Entry → List Token
  | [] => []
  | e :: es => e.tokens ++ tokensOf es

end

theorem tokensOf_append (es fs : List Entry) : tokensOf (es ++ fs) = tokensOf es ++ tokensOf fs := by
  induction es with
  | nil => simp [tokensOf]
  | cons e es ih => simp [tokensOf, ih]

def Derivable (ts : List Token) : Prop := ∃ es, tokensOf es = ts

def Viable (ts : List Token) : Prop := ∃ rest, Derivable (ts ++ rest)

end Tokens

section Statements

def Prelude.segments (p : Prelude) : List Segment := (p.first :: p.more).map fun t => ⟨t.text, t.start⟩

def Tail.statement : Tail → Statement
  | declaration p => .declaration p.segments
  | atRule keyword p => .atLine keyword.text.tail (p.elim [] Prelude.segments)

mutual

def Entry.statements : Entry → List Statement
  | .rule p b => [.rule p.segments b.statements]
  | .atBlock keyword p b => [.atBlock keyword.text.tail (p.elim [] Prelude.segments) b.statements]
  | .atLine keyword p _ => [.atLine keyword.text.tail (p.elim [] Prelude.segments)]
  | .declaration p _ => [.declaration p.segments]
  | .empty _ => []

def Block.statements : Block → List Statement
  | .mk _ entries tail _ => statementsOf entries ++ (tail.map Tail.statement).toList

def statementsOf : List Entry → List Statement
  | [] => []
  | e :: es => e.statements ++ statementsOf es

end

theorem statementsOf_append (es fs : List Entry) :
    statementsOf (es ++ fs) = statementsOf es ++ statementsOf fs := by
  induction es with
  | nil => simp [statementsOf]
  | cons e es ih => simp [statementsOf, ih]

end Statements

namespace Tail

def extend (t : Terminal .prelude) : Tail → Tail
  | declaration p => declaration { p with more := p.more ++ [t] }
  | atRule keyword none => atRule keyword (some ⟨t, []⟩)
  | atRule keyword (some p) => atRule keyword (some { p with more := p.more ++ [t] })

def head : Tail → Head
  | declaration p => .plain p.segments
  | atRule keyword p => .atRule keyword.text.tail (p.elim [] Prelude.segments)

def line (stop : Terminal .semicolon) : Tail → Entry
  | declaration p => .declaration p stop
  | atRule keyword p => .atLine keyword p stop

def block (b : Block) : Tail → Entry
  | declaration p => .rule p b
  | atRule keyword p => .atBlock keyword p b

variable (d : Tail) (t : Terminal .prelude) (stop : Terminal .semicolon) (b : Block)

@[simp] theorem tokens_extend : (d.extend t).tokens = d.tokens ++ [t.token] := by
  cases d with
  | declaration p => simp [extend, tokens, Prelude.tokens]
  | atRule keyword p => cases p <;> simp [extend, tokens, Prelude.tokens]

@[simp] theorem tokens_line : (d.line stop).tokens = d.tokens ++ [stop.token] := by
  cases d <;> simp [line, tokens, Entry.tokens]

@[simp] theorem tokens_block : (d.block b).tokens = d.tokens ++ b.tokens := by
  cases d <;> simp [block, tokens, Entry.tokens]

@[simp] theorem head_extend : (d.extend t).head = d.head.extend ⟨t.text, t.start⟩ := by
  cases d with
  | declaration p => simp [extend, head, Head.extend, Prelude.segments]
  | atRule keyword p => cases p <;> simp [extend, head, Head.extend, Prelude.segments]

@[simp] theorem line_head : d.head.line = d.statement := by
  cases d <;> rfl

@[simp] theorem statements_line : (d.line stop).statements = [d.statement] := by
  cases d <;> simp [line, statement, Entry.statements]

@[simp] theorem statements_block : (d.block b).statements = [d.head.block b.statements] := by
  cases d <;> simp [block, head, Head.block, Entry.statements]

end Tail

/-- A derivation of which only the first tokens have been read. -/
structure Unfinished where
  outer : List (List Entry × Tail × Terminal .lbrace) := []
  done : List Entry := []
  pending : Option Tail := none

namespace Unfinished

def tokens (u : Unfinished) : List Token :=
  u.outer.reverse.flatMap (fun o => tokensOf o.1 ++ o.2.1.tokens ++ [o.2.2.token]) ++ tokensOf u.done ++
    u.pending.elim [] Tail.tokens

def builder (u : Unfinished) : Builder :=
  ⟨u.outer.map fun o => (o.2.1.head, statementsOf o.1), statementsOf u.done, u.pending.map Tail.head⟩

def step (u : Unfinished) (t : Token) : Option Unfinished :=
  match t, u.pending with
  | ⟨.prelude, text, start⟩, none => some { u with pending := some (.declaration ⟨⟨text, start⟩, []⟩) }
  | ⟨.prelude, text, start⟩, some d => some { u with pending := some (d.extend ⟨text, start⟩) }
  | ⟨.atKeyword, text, start⟩, none => some { u with pending := some (.atRule ⟨text, start⟩ none) }
  | ⟨.atKeyword, _, _⟩, some _ => none
  | ⟨.semicolon, text, start⟩, none => some { u with done := u.done ++ [.empty ⟨text, start⟩] }
  | ⟨.semicolon, text, start⟩, some d =>
    some { u with done := u.done ++ [d.line ⟨text, start⟩], pending := none }
  | ⟨.lbrace, _, _⟩, none => none
  | ⟨.lbrace, text, start⟩, some d => some ⟨(u.done, d, ⟨text, start⟩) :: u.outer, [], none⟩
  | ⟨.rbrace, text, start⟩, tail =>
    match u.outer with
    | [] => none
    | (before, d, opening) :: outer =>
      some ⟨outer, before ++ [d.block (.mk opening u.done tail ⟨text, start⟩)], none⟩

variable {u v : Unfinished} {t : Token}

theorem tokens_step (h : u.step t = some v) : v.tokens = u.tokens ++ [t] := by
  unfold step at h
  split at h
  · next hp =>
    cases h
    simp [tokens, hp, Tail.tokens, Prelude.tokens]
  · next d _ hp =>
    cases h
    simp [tokens, hp]
  · next hp =>
    cases h
    simp [tokens, hp, Tail.tokens]
  · simp at h
  · next hp =>
    cases h
    simp [tokens, hp, tokensOf_append, tokensOf, Entry.tokens]
  · next d _ hp =>
    cases h
    simp [tokens, hp, tokensOf_append, tokensOf]
  · simp at h
  · next d _ hp =>
    cases h
    simp [tokens, hp, tokensOf]
  · split at h
    · simp at h
    · next before d opening outer ho =>
      cases h
      simp [tokens, ho, tokensOf_append, tokensOf, Block.tokens]

theorem tokens_foldlM {ts : List Token} (h : ts.foldlM step u = some v) : v.tokens = u.tokens ++ ts := by
  induction ts generalizing u with
  | nil =>
    cases h
    simp
  | cons t ts ih =>
    rw [List.foldlM_cons] at h
    obtain ⟨u₁, hu, hrest⟩ := Option.bind_eq_some_iff.1 h
    rw [ih hrest, tokens_step hu, List.append_assoc]
    rfl

theorem builder_step (u : Unfinished) (t : Token) : (u.step t).map builder = u.builder.step t := by
  unfold step Builder.step
  obtain ⟨outer, done, pending⟩ := u
  obtain ⟨kind, text, start⟩ := t
  cases kind with
  | lbrace => cases pending <;> simp [builder, statementsOf]
  | rbrace =>
    cases outer with
    | nil => simp [builder]
    | cons o outer =>
      cases pending <;>
        simp [builder, Builder.flush, statementsOf_append, statementsOf, Block.statements]
  | semicolon =>
    cases pending <;> simp [builder, Builder.flush, statementsOf_append, statementsOf, Entry.statements]
  | atKeyword => cases pending <;> simp [builder, Tail.head]
  | prelude =>
    cases pending with
    | none => simp [builder, Tail.head, Prelude.segments]
    | some d => simp [builder]

theorem builder_foldlM (u : Unfinished) (ts : List Token) :
    (ts.foldlM step u).map builder = ts.foldlM Builder.step u.builder := by
  induction ts generalizing u with
  | nil => rfl
  | cons t ts ih =>
    rw [List.foldlM_cons, List.foldlM_cons, ← builder_step]
    cases u.step t with
    | none => rfl
    | some v => exact ih v

variable {outer : List (List Entry × Tail × Terminal .lbrace)} {done : List Entry}

theorem foldlM_more {f : Prelude → Tail} (hf : ∀ p t, (f p).extend t = f { p with more := p.more ++ [t] })
    (p : Prelude) (ts : List (Terminal .prelude)) :
    (ts.map Terminal.token).foldlM step ⟨outer, done, some (f p)⟩ =
      some ⟨outer, done, some (f { p with more := p.more ++ ts })⟩ := by
  induction ts generalizing p with
  | nil => simp
  | cons t ts ih =>
    have hstep : step ⟨outer, done, some (f p)⟩ t.token = some ⟨outer, done, some ((f p).extend t)⟩ := rfl
    rw [List.map_cons, List.foldlM_cons, hstep, hf, Option.bind_eq_bind, Option.bind_some, ih, List.append_assoc]
    rfl

theorem foldlM_tail (d : Tail) : d.tokens.foldlM step ⟨outer, done, none⟩ = some ⟨outer, done, some d⟩ := by
  -- a plain prelude and that of a keyword grow alike, so one lemma reads both
  cases d with
  | declaration p => exact foldlM_more (f := .declaration) (fun _ _ => rfl) ⟨p.first, []⟩ p.more
  | atRule keyword p =>
    cases p with
    | none => rfl
    | some p => exact foldlM_more (f := fun p => .atRule keyword (some p)) (fun _ _ => rfl) ⟨p.first, []⟩ p.more

theorem foldlM_tail_append (d : Tail) (ts : List Token) :
    (d.tokens ++ ts).foldlM step ⟨outer, done, none⟩ = ts.foldlM step ⟨outer, done, some d⟩ := by
  rw [List.foldlM_append, foldlM_tail]
  rfl

mutual

theorem foldlM_entry (e : Entry) : ∀ outer done,
    e.tokens.foldlM step ⟨outer, done, none⟩ = some ⟨outer, done ++ [e], none⟩ := by
  intro outer done
  cases e with
  | rule p b => exact (foldlM_tail_append (.declaration p) b.tokens).trans (foldlM_block b _ _ _)
  | atBlock keyword p b => exact (foldlM_tail_append (.atRule keyword p) b.tokens).trans (foldlM_block b _ _ _)
  | atLine keyword p stop => exact foldlM_tail_append (.atRule keyword p) [stop.token]
  | declaration p stop => exact foldlM_tail_append (.declaration p) [stop.token]
  | empty stop => rfl

theorem foldlM_block (b : Block) : ∀ outer done d,
    b.tokens.foldlM step ⟨outer, done, some d⟩ = some ⟨outer, done ++ [d.block b], none⟩ := by
  intro outer done d
  obtain ⟨opening, entries, tail, closing⟩ := b
  have hopen : step ⟨outer, done, some d⟩ opening.token = some ⟨(done, d, opening) :: outer, [], none⟩ := rfl
  rw [Block.tokens, List.append_assoc, List.cons_append, List.foldlM_cons, hopen, Option.bind_eq_bind,
    Option.bind_some, List.foldlM_append, foldlM_entries entries]
  -- what is pending at the closing brace is the tail, and goes into the block with it
  cases tail with
  | none => rfl
  | some tail => exact foldlM_tail_append tail [closing.token]

theorem foldlM_entries (es : List Entry) : ∀ outer done,
    (tokensOf es).foldlM step ⟨outer, done, none⟩ = some ⟨outer, done ++ es, none⟩ := by
  intro outer done
  cases es with
  | nil => simp [tokensOf]
  | cons e es =>
    rw [tokensOf, List.foldlM_append, foldlM_entry e, Option.bind_eq_bind, Option.bind_some, foldlM_entries es,
      List.append_assoc]
    rfl

end

end Unfinished

theorem tokensOf_injective : Function.Injective tokensOf := by
  intro es fs h
  -- the tokens are read without a choice, and each derivation is what reading its tokens leaves
  have hes := Unfinished.foldlM_entries es [] []
  rw [h, Unfinished.foldlM_entries fs] at hes
  simpa using hes.symm

theorem foldlM_builder_eq_iff {ts : List Token} {ss : List Statement} :
    ts.foldlM Builder.step {} = some ⟨[], ss, none⟩ ↔ ∃ es, tokensOf es = ts ∧ statementsOf es = ss := by
  have hrun : (ts.foldlM Unfinished.step {}).map Unfinished.builder = ts.foldlM Builder.step {} :=
    Unfinished.builder_foldlM {} ts
  rw [← hrun, Option.map_eq_some_iff]
  constructor
  · rintro ⟨⟨outer, done, pending⟩, hu, hb⟩
    have htokens := Unfinished.tokens_foldlM hu
    simp only [Unfinished.builder, Builder.mk.injEq, List.map_eq_nil_iff, Option.map_eq_none_iff] at hb
    obtain ⟨rfl, rfl, rfl⟩ := hb
    exact ⟨done, by simpa [Unfinished.tokens, tokensOf] using htokens, rfl⟩
  · rintro ⟨es, rfl, rfl⟩
    exact ⟨⟨[], [] ++ es, none⟩, Unfinished.foldlM_entries es [] [], rfl⟩

end ShortClass.Stylesheet.Grammar
