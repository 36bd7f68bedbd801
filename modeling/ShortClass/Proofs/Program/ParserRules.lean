import Mathlib.Data.List.Basic
import ShortClass.Program.Parser
import ShortClass.Proofs.Program.LexemeBounds
import ShortClass.Proofs.Program.NestedTree

/-!
What a parser that succeeds has done: where it left the cursor, and what it built from the text in between.

The cursor only moves forward and never leaves the text. A node starts no earlier than the first lexeme
after the cursor, and ends no later than where the cursor is left.
-/

namespace ShortClass.Program

namespace Cursor

def next (c : Cursor) : Nat := (skipGap false (c.pos == 0) c.pos c.rest).pos

def stop (c : Cursor) : Nat := c.pos + c.rest.length

theorem pos_le_next (c : Cursor) : c.pos ≤ c.next := (skipGap_bounds _ _ _ _).1

abbrev Leads (c d : Cursor) : Prop :=
  c.pos ≤ d.pos ∧ c.next ≤ d.next ∧ c.pos ≤ c.next ∧ d.pos ≤ d.next ∧ d.stop = c.stop

abbrev Passes (c d : Cursor) : Prop :=
  c.pos ≤ c.next ∧ c.next ≤ d.pos ∧ d.pos ≤ d.next ∧ d.stop = c.stop

theorem leads_self (c : Cursor) : c.Leads c := by
  have := c.pos_le_next
  omega

end Cursor

/-- Whatever `p` gives at `c` satisfies `Q`. -/
structure Ensures {α : Type} (p : Parser α) (c : Cursor) (Q : α → Cursor → Prop) : Prop where
  of_run : ∀ a d, p.run c = some (a, d) → Q a d

section Rules

variable {α β : Type} {c : Cursor} {p q : Parser α} {P Q : α → Cursor → Prop}

theorem Ensures.mono (h : Ensures p c P) (hPQ : ∀ a d, P a d → Q a d) : Ensures p c Q := by
  constructor
  intro a d hrun
  exact hPQ a d (h.of_run a d hrun)

theorem Ensures.bind {k : α → Parser β} {R : β → Cursor → Prop} (hp : Ensures p c P)
    (hk : ∀ a d, P a d → Ensures (k a) d R) : Ensures (p >>= k) c R := by
  constructor
  intro b e hrun
  rw [StateT.run_bind] at hrun
  obtain ⟨⟨a, d⟩, ha, hb⟩ := Option.bind_eq_some_iff.1 hrun
  exact (hk a d (hp.of_run a d ha)).of_run b e hb

theorem Ensures.and (hP : Ensures p c P) (hQ : Ensures p c Q) : Ensures p c fun a d => P a d ∧ Q a d := by
  constructor
  intro a d hrun
  exact ⟨hP.of_run a d hrun, hQ.of_run a d hrun⟩

theorem ensures_ite {b : Prop} [Decidable b] (hp : Ensures p c Q) (hq : Ensures q c Q) :
    Ensures (if b then p else q) c Q := by
  split
  · exact hp
  · exact hq

theorem Ensures.orElse (hp : Ensures p c Q) (hq : Ensures q c Q) : Ensures (p <|> q) c Q := by
  constructor
  intro a d hrun
  have hcases : p.run c = some (a, d) ∨ q.run c = some (a, d) := by
    rw [StateT.run_orElse] at hrun
    cases hp : p.run c with
    | some x => exact .inl (by simpa [hp] using hrun)
    | none => exact .inr (by simpa [hp] using hrun)
  exact hcases.elim (hp.of_run a d) (hq.of_run a d)

theorem ensures_pure {a : α} (h : Q a c) : Ensures (pure a) c Q := by
  constructor
  intro b d hrun
  cases hrun
  exact h

theorem ensures_fail : Ensures Parser.fail c Q := by
  constructor
  intro a d hrun
  cases hrun

theorem fail_bind {k : α → Parser β} {R : β → Cursor → Prop} : Ensures (Parser.fail >>= k) c R := by
  constructor
  intro a d hrun
  cases hrun

theorem ensures_get : Ensures get c fun a d => a = c ∧ d = c := by
  constructor
  intro a d hrun
  cases hrun
  exact ⟨rfl, rfl⟩

theorem ensures_set {Q : PUnit → Cursor → Prop} {d : Cursor} (h : Q ⟨⟩ d) : Ensures (set d) c Q := by
  constructor
  intro a e hrun
  cases hrun
  exact h

end Rules

def Stays {α : Type} (p : Parser α) : Prop := ∀ c, Ensures p c fun _ d => d = c

def Passes {α : Type} (p : Parser α) : Prop := ∀ c, Ensures p c fun _ d => c.Passes d

def Takes (p : Parser Bool) : Prop := ∀ c, Ensures p c fun b d => c.Leads d ∧ (b = true → c.next ≤ d.pos)

def Leads {α : Type} (p : Parser α) : Prop := ∀ c, Ensures p c fun _ d => c.Leads d

section Moves

variable {α β : Type} {c : Cursor} {p : Parser α} {k : α → Parser β} {R : β → Cursor → Prop}

theorem Stays.bind (hp : Stays p) (hk : ∀ a, Ensures (k a) c R) : Ensures (p >>= k) c R := by
  apply (hp c).bind
  rintro a _ rfl
  exact hk a

theorem Passes.bind (hp : Passes p) (hk : ∀ a d, c.Passes d → Ensures (k a) d R) : Ensures (p >>= k) c R :=
  (hp c).bind hk

theorem Leads.bind (hp : Leads p) (hk : ∀ a d, c.Leads d → Ensures (k a) d R) : Ensures (p >>= k) c R :=
  (hp c).bind hk

theorem Takes.leads {p : Parser Bool} (hp : Takes p) : Leads p := fun c => (hp c).mono fun _ _ h => h.1

theorem Passes.leads (hp : Passes p) : Leads p := by
  intro c
  apply (hp c).mono
  intro a d hd
  omega

end Moves

def Stands (lo stop : Nat) (n : Node) (d : Cursor) : Prop :=
  n.Nested ∧ lo ≤ n.start ∧ n.stop ≤ d.pos ∧ d.stop = stop

def Reads (p : Parser Node) : Prop := ∀ c, Ensures p c (Stands c.next c.stop)

def Lists (p : Parser (List Node)) : Prop :=
  ∀ c, Ensures p c fun ns d => Chained c.pos d.pos ns ∧ d.stop = c.stop

section Nodes

variable {β : Type} {c : Cursor} {lo stop : Nat} {R : β → Cursor → Prop}

theorem Ensures.bindNode {p : Parser Node} {k : Node → Parser β} (hp : Ensures p c (Stands lo stop))
    (hk : ∀ n d, n.Nested → lo ≤ n.start ∧ n.start ≤ n.stop ∧ n.stop ≤ d.pos ∧ d.pos ≤ d.next ∧ d.stop = stop →
      Ensures (k n) d R) : Ensures (p >>= k) c R := by
  apply hp.bind
  rintro n d ⟨hn, hlo, hhi, hstop⟩
  exact hk n d hn ⟨hlo, hn.le, hhi, d.pos_le_next, hstop⟩

theorem Reads.bind {p : Parser Node} {k : Node → Parser β} (hp : Reads p)
    (hk : ∀ n d, n.Nested → c.pos ≤ c.next ∧ c.next ≤ n.start ∧ n.start ≤ n.stop ∧ n.stop ≤ d.pos ∧
      d.pos ≤ d.next ∧ d.stop = c.stop → Ensures (k n) d R) : Ensures (p >>= k) c R := by
  apply (hp c).bindNode
  intro n d hn hd
  exact hk n d hn ⟨c.pos_le_next, hd⟩

theorem Lists.bind {p : Parser (List Node)} {k : List Node → Parser β} (hp : Lists p)
    (hk : ∀ ns d, Chained c.pos d.pos ns → c.pos ≤ c.next ∧ c.pos ≤ d.pos ∧ d.pos ≤ d.next ∧ d.stop = c.stop →
      Ensures (k ns) d R) : Ensures (p >>= k) c R := by
  apply (hp c).bind
  rintro ns d ⟨hns, hstop⟩
  exact hk ns d hns ⟨c.pos_le_next, hns.le, d.pos_le_next, hstop⟩

theorem Reads.passes {p : Parser Node} (hp : Reads p) : Passes p := by
  intro c
  apply (hp c).mono
  rintro n d ⟨hn, hlo, hhi, hstop⟩
  have := hn.le
  have := c.pos_le_next
  have := d.pos_le_next
  omega

theorem Reads.lists {p : Parser Node} (hp : Reads p) : Lists (do return [← p]) := by
  intro c
  apply hp.bind
  intro n d hn hd
  exact ensures_pure ⟨chained_singleton hn (by omega), by omega⟩

theorem lists_nil : Lists (pure []) := by
  intro c
  exact ensures_pure ⟨chained_nil.2 (Nat.le_refl _), rfl⟩

section Optional

variable {b : Prop} [Decidable b] {p : Parser Node} {k : List Node → Parser β}

theorem Reads.bind_unless (hp : Reads p)
    (hk : ∀ ns d, Chained c.pos d.pos ns → c.pos ≤ c.next ∧ c.pos ≤ d.pos ∧ d.pos ≤ d.next ∧ d.stop = c.stop →
      Ensures (k ns) d R) : Ensures (if b then pure [] >>= k else p >>= fun n => pure [n] >>= k) c R := by
  split
  · exact lists_nil.bind hk
  · rw [← bind_assoc]
    exact hp.lists.bind hk

theorem Reads.bind_when (hp : Reads p)
    (hk : ∀ ns d, Chained c.pos d.pos ns → c.pos ≤ c.next ∧ c.pos ≤ d.pos ∧ d.pos ≤ d.next ∧ d.stop = c.stop →
      Ensures (k ns) d R) : Ensures (if b then p >>= fun n => pure [n] >>= k else pure [] >>= k) c R := by
  split
  · rw [← bind_assoc]
    exact hp.lists.bind hk
  · exact lists_nil.bind hk

end Optional

theorem ensures_node_of_nested {kind : Kind} {start : Nat} {cs : List Node}
    (hn : (Node.mk kind start c.pos cs).Nested) (hc : lo ≤ start ∧ c.stop = stop) :
    Ensures (Parser.node kind start cs) c (Stands lo stop) := by
  apply ensures_get.bind
  rintro _ _ ⟨rfl, rfl⟩
  exact ensures_pure ⟨hn, hc.1, Nat.le_refl _, hc.2⟩

theorem ensures_kind {kind : Kind} {start : Nat} {cs : List Node} :
    Ensures (Parser.node kind start cs) c fun n _ => n.kind = kind := by
  apply ensures_get.bind
  rintro _ _ ⟨rfl, rfl⟩
  exact ensures_pure rfl

theorem ensures_node {kind : Kind} {start : Nat} {cs : List Node} (hk : kind ≠ .string ∧ kind ≠ .template)
    (hcs : Chained start c.pos cs) (hc : lo ≤ start ∧ c.stop = stop) :
    Ensures (Parser.node kind start cs) c (Stands lo stop) :=
  ensures_node_of_nested ((Node.nested_mk hk).2 hcs) hc

theorem node_bind {kind : Kind} {start : Nat} {cs : List Node} {k : Node → Parser β}
    (hk : kind ≠ .string ∧ kind ≠ .template) (hcs : Chained start c.pos cs)
    (h : ∀ n : Node, n.Nested → n.kind = kind ∧ n.start = start ∧ n.stop = c.pos → Ensures (k n) c R) :
    Ensures (Parser.node kind start cs >>= k) c R := by
  have hnode : Ensures (Parser.node kind start cs) c fun n d => d = c ∧ n = .mk kind start c.pos cs := by
    apply ensures_get.bind
    rintro _ _ ⟨rfl, rfl⟩
    exact ensures_pure ⟨rfl, rfl⟩
  apply hnode.bind
  rintro _ _ ⟨rfl, rfl⟩
  exact h _ ((Node.nested_mk hk).2 hcs) ⟨rfl, rfl, rfl⟩

theorem ensures_leaf {kind : Kind} {start : Nat} (hk : kind ≠ .string ∧ kind ≠ .template)
    (hc : start ≤ c.pos ∧ lo ≤ start ∧ c.stop = stop) : Ensures (Parser.node kind start []) c (Stands lo stop) :=
  ensures_node hk (chained_nil.2 hc.1) hc.2

theorem ensures_string {start : Nat} (hc : start + 2 ≤ c.pos ∧ lo ≤ start ∧ c.stop = stop) :
    Ensures (Parser.node .string start []) c (Stands lo stop) := by
  apply ensures_node_of_nested _ hc.2
  rw [Node.Nested, if_pos rfl]
  exact hc.1

end Nodes

section Loops

variable {α : Type}

theorem Ensures.many {item : Parser (Option α)} {I Q : List α → Cursor → Prop} {c : Cursor} (h : I [] c)
    (hitem : ∀ as d, I as d → Ensures item d fun o e => o.elim (Q as e) fun a => I (as ++ [a]) e) :
    Ensures (Parser.many item) c Q := by
  have hcollect : ∀ bound as d, I as d → Ensures (Parser.collect item bound) d fun bs e => Q (as ++ bs) e := by
    intro bound
    induction bound with
    | zero =>
      intro as d has
      exact ensures_fail
    | succ bound ih =>
      intro as d has
      unfold Parser.collect
      apply (hitem as d has).bind
      intro o e ho
      cases o with
      | none => exact ensures_pure (by simpa using ho)
      | some a =>
        apply (ih (as ++ [a]) e ho).bind
        intro bs e' hbs
        exact ensures_pure (by simpa using hbs)
  unfold Parser.many
  apply ensures_get.bind
  rintro _ _ ⟨rfl, rfl⟩
  apply (hcollect _ [] _ h).mono
  intro as d has
  simpa using has

def Yields (nodes : α → List Node) (item : Parser (Option α)) : Prop :=
  ∀ c, Ensures item c fun o d => Chained c.pos d.pos (o.elim [] nodes) ∧ d.stop = c.stop

theorem Yields.many {nodes : α → List Node} {item : Parser (Option α)} (h : Yields nodes item) (c : Cursor) :
    Ensures (Parser.many item) c fun as d => Chained c.pos d.pos (as.flatMap nodes) ∧ d.stop = c.stop := by
  have hnil : Chained c.pos c.pos (List.flatMap nodes []) ∧ c.stop = c.stop := ⟨chained_nil.2 (Nat.le_refl _), rfl⟩
  apply Ensures.many (I := fun as d => Chained c.pos d.pos (as.flatMap nodes) ∧ d.stop = c.stop) hnil
  rintro as d ⟨has, hstop⟩
  apply (h d).mono
  rintro o e ⟨ho, hstop'⟩
  cases o with
  | none => exact ⟨has.mono ⟨Nat.le_refl _, chained_nil.1 ho⟩, by omega⟩
  | some a =>
    rw [Option.elim_some, List.flatMap_append, List.flatMap_singleton]
    exact ⟨has.append ho, by omega⟩

theorem Yields.lists {item : Parser (Option Node)} (h : Yields (fun n => [n]) item) : Lists (Parser.many item) := by
  intro c
  apply (h.many c).mono
  intro ns d hns
  rwa [List.flatMap_singleton'] at hns

theorem yields_none {nodes : α → List Node} : Yields nodes (pure none) := by
  intro c
  exact ensures_pure ⟨chained_nil.2 (Nat.le_refl _), rfl⟩

theorem Reads.yields {p : Parser Node} (hp : Reads p) : Yields (fun n => [n]) (do return some (← p)) := by
  intro c
  apply hp.bind
  intro n d hn hd
  exact ensures_pure ⟨chained_singleton hn (by omega), by omega⟩

theorem Reads.yields_map {p : Parser Node} (hp : Reads p) : Yields (fun n => [n]) (some <$> p) := by
  rw [map_eq_pure_bind]
  exact hp.yields

theorem Yields.ite {nodes : α → List Node} {test : Parser Bool} {p q : Parser (Option α)} (ht : Stays test)
    (hp : Yields nodes p) (hq : Yields nodes q) : Yields nodes (do if ← test then p else q) := by
  intro c
  apply ht.bind
  intro b
  exact ensures_ite (hp c) (hq c)

theorem Reads.yields_unless {p : Parser Node} {test : Parser Bool} (hp : Reads p) (ht : Stays test) :
    Yields (fun n => [n]) (do if ← test then return none else return some (← p)) :=
  .ite ht yields_none hp.yields

theorem Reads.yields_when {p : Parser Node} {test : Parser Bool} (hp : Reads p) (ht : Leads test) :
    Yields (fun n => [n]) (do if ← test then return some (← p) else return none) := by
  intro c
  apply ht.bind
  intro b d hd
  split
  · apply (hp.yields d).mono
    rintro o e ⟨ho, he⟩
    exact ⟨ho.mono (by omega), by omega⟩
  · exact ensures_pure ⟨chained_nil.2 (by omega), by omega⟩

theorem Ensures.extend {step : Node → Parser (Option Node)} {I : Node → Cursor → Prop} {c : Cursor} {n : Node}
    (h : I n c) (hstep : ∀ m d, I m d → Ensures (step m) d fun o e => I (o.getD m) e) :
    Ensures (Parser.extend step n) c I := by
  have hgrow : ∀ bound m d, I m d → Ensures (Parser.grow step bound m) d I := by
    intro bound
    induction bound with
    | zero =>
      intro m d hm
      exact ensures_fail
    | succ bound ih =>
      intro m d hm
      unfold Parser.grow
      apply (hstep m d hm).bind
      intro o e ho
      cases o with
      | none => exact ensures_pure ho
      | some m' => exact ih m' e ho
  unfold Parser.extend
  apply ensures_get.bind
  rintro _ _ ⟨rfl, rfl⟩
  exact hgrow _ n _ h

end Loops

section Lexemes

open ShortClass.Program.Parser

variable {c : Cursor}

theorem ensures_gap : Ensures gap c fun g d => d = c ∧ g.pos = c.next ∧ c.next + g.rest.length = c.stop := by
  apply ensures_get.bind
  rintro _ _ ⟨rfl, rfl⟩
  exact ensures_pure ⟨rfl, rfl, (skipGap_bounds _ _ _ _).2⟩

section

variable {β : Type} {R : β → Cursor → Prop}

theorem here_bind {k : Nat → Parser β} (h : Ensures (k c.next) c R) : Ensures (here >>= k) c R := by
  apply Ensures.bind (P := fun a d => d = c ∧ a = c.next)
  · apply ensures_gap.bind
    rintro g _ ⟨rfl, hg, -⟩
    exact ensures_pure ⟨rfl, hg⟩
  · rintro _ _ ⟨rfl, rfl⟩
    exact h

theorem ahead_bind {k : List Char → Parser β} (h : ∀ s, c.next + s.length = c.stop → Ensures (k s) c R) :
    Ensures (ahead >>= k) c R := by
  apply Ensures.bind (P := fun s d => d = c ∧ c.next + s.length = c.stop)
  · apply ensures_gap.bind
    rintro g _ ⟨rfl, -, hg⟩
    exact ensures_pure ⟨rfl, hg⟩
  · rintro s _ ⟨rfl, hs⟩
    exact h s hs

theorem get_bind {k : Cursor → Parser β} (h : Ensures (k c) c R) : Ensures (get >>= k) c R := by
  apply ensures_get.bind
  rintro _ _ ⟨rfl, rfl⟩
  exact h

end

theorem stays_newlineAhead : Stays newlineAhead := by
  intro c
  apply ensures_gap.bind
  rintro g _ ⟨rfl, -, -⟩
  exact ensures_pure rfl

theorem ensures_consume {n : Nat} (hn : c.next + n ≤ c.stop) :
    Ensures (consume n) c fun _ d => d.pos = c.next + n ∧ c.Passes d := by
  apply ensures_gap.bind
  rintro g c ⟨rfl, hpos, hg⟩
  refine ensures_set ⟨by rw [hpos], c.pos_le_next, by simp only [hpos]; omega, Cursor.pos_le_next _, ?_⟩
  simp only [Cursor.stop, List.length_drop] at hg hn ⊢
  omega

theorem ensures_advance {n : Nat} (hn : n ≤ c.rest.length) :
    Ensures (advance n) c fun _ d =>
      d.rest = c.rest.drop n ∧ d.pos = c.pos + n ∧ d.pos ≤ d.next ∧ d.stop = c.stop := by
  constructor
  intro a d hrun
  cases hrun
  refine ⟨rfl, rfl, Cursor.pos_le_next _, ?_⟩
  simp only [Cursor.stop, List.length_drop]
  omega

theorem ensures_peek : Ensures peek c fun s d => d = c ∧ c.next + s.length ≤ c.stop := by
  apply ahead_bind
  intro s hs
  have hle := punctuator_length_le s
  refine ensures_pure ⟨rfl, ?_⟩
  rw [String.length_ofList]
  omega

theorem ensures_peekWord : Ensures peekWord c fun s d => d = c ∧ c.next + s.length ≤ c.stop := by
  apply ahead_bind
  intro s hs
  refine ensures_pure ⟨rfl, ?_⟩
  rw [String.length_ofList, List.length_take]
  omega

theorem stays_peek : Stays peek := fun _ => ensures_peek.mono fun _ _ h => h.1

theorem stays_peekWord : Stays peekWord := fun _ => ensures_peekWord.mono fun _ _ h => h.1

theorem ensures_isNext (s : String) :
    Ensures (isNext s) c fun b d => d = c ∧ (b = true → c.next + s.length ≤ c.stop) := by
  apply ensures_peek.bind
  rintro a c ⟨rfl, ha⟩
  refine ensures_pure ⟨rfl, fun hb => ?_⟩
  rwa [← eq_of_beq hb]

theorem ensures_isNextWord (s : String) :
    Ensures (isNextWord s) c fun b d => d = c ∧ (b = true → c.next + s.length ≤ c.stop) := by
  apply ensures_peekWord.bind
  rintro a c ⟨rfl, ha⟩
  refine ensures_pure ⟨rfl, fun hb => ?_⟩
  rwa [← eq_of_beq hb]

theorem stays_isNext (s : String) : Stays (isNext s) := fun _ => (ensures_isNext s).mono fun _ _ h => h.1

theorem stays_isNextWord (s : String) : Stays (isNextWord s) := fun _ => (ensures_isNextWord s).mono fun _ _ h => h.1

theorem stays_isNextName : Stays isNextName := by
  intro c
  apply stays_peekWord.bind
  intro a
  exact ensures_pure rfl

theorem stays_lookahead {α : Type} (p : Parser α) : Stays (lookahead p) := by
  intro c
  constructor
  intro a d hrun
  cases hrun
  rfl

section Taken

variable {test : Parser Bool} {n : Nat}

theorem ensures_taken (h : ∀ c, Ensures test c fun b d => d = c ∧ (b = true → c.next + n ≤ c.stop)) (c : Cursor) :
    Ensures (do if ← test then consume n else fail) c fun _ d => d.pos = c.next + n ∧ c.Passes d := by
  apply (h c).bind
  rintro b c ⟨rfl, hb⟩
  split
  · next ht => exact ensures_consume (hb ht)
  · exact ensures_fail

theorem passes_taken (h : ∀ c, Ensures test c fun b d => d = c ∧ (b = true → c.next + n ≤ c.stop)) :
    Passes (do if ← test then consume n else fail) := fun c => (ensures_taken h c).mono fun _ _ h => h.2

theorem takes_taken (h : ∀ c, Ensures test c fun b d => d = c ∧ (b = true → c.next + n ≤ c.stop)) :
    Takes (do if ← test then consume n; return true else return false) := by
  intro c
  apply (h c).bind
  rintro b c ⟨rfl, hb⟩
  split
  · next ht =>
    apply (ensures_consume (hb ht)).bind
    rintro _ d ⟨-, hd⟩
    exact ensures_pure ⟨by omega, fun _ => by omega⟩
  · exact ensures_pure ⟨c.leads_self, by simp⟩

end Taken

theorem passes_sign (s : String) : Passes (sign s) := passes_taken fun _ => ensures_isNext s

theorem takes_sign? (s : String) : Takes (sign? s) := takes_taken fun _ => ensures_isNext s

theorem leads_sign? (s : String) : Leads (sign? s) := (takes_sign? s).leads

theorem passes_word (s : String) : Passes (word s) := passes_taken fun _ => ensures_isNextWord s

theorem takes_word? (s : String) : Takes (word? s) := takes_taken fun _ => ensures_isNextWord s

theorem leads_word? (s : String) : Leads (word? s) := (takes_word? s).leads

theorem leads_terminator : Leads terminator := by
  intro c
  apply ahead_bind
  intro s hs
  split
  · apply (ensures_consume (by simp only [List.length_cons] at hs; omega)).mono
    rintro _ d ⟨-, hd⟩
    omega
  · exact ensures_pure c.leads_self
  · exact ensures_pure c.leads_self
  · apply stays_newlineAhead.bind
    intro b
    split
    · exact ensures_pure c.leads_self
    · exact ensures_fail

theorem ensures_anyWord : Ensures anyWord c fun n d => n.kind = .identifier ∧ Stands c.next c.stop n d := by
  apply here_bind
  apply ahead_bind
  intro s hs
  have hle := wordLength_le s
  dsimp only
  split
  · exact fail_bind
  · apply (ensures_consume (by omega)).bind
    rintro _ d ⟨-, hd⟩
    exact ensures_kind.and (ensures_leaf (by decide) (by omega))

theorem reads_anyWord : Reads anyWord := fun _ => ensures_anyWord.mono fun _ _ h => h.2

theorem reads_name : Reads name := by
  intro c
  apply stays_isNextName.bind
  intro b
  split
  · exact reads_anyWord c
  · exact ensures_fail

theorem reads_stringLiteral : Reads Parser.stringLiteral := by
  intro c
  apply here_bind
  apply ahead_bind
  intro s hs
  split
  · next q t =>
    rw [List.length_cons] at hs
    split
    · split
      · next n hn =>
        have hle := stringTail_bounds hn
        apply (ensures_consume (by omega)).bind
        rintro _ d ⟨hpos, hd⟩
        exact ensures_string (by omega)
      · exact ensures_fail
    · exact ensures_fail
  · exact ensures_fail

theorem reads_numberLiteral : Reads numberLiteral := by
  intro c
  apply here_bind
  apply ahead_bind
  intro s hs
  split
  · next n hn =>
    have hle := numberLength_le hn
    dsimp only
    split
    · exact fail_bind
    · apply (ensures_consume (by omega)).bind
      rintro _ d ⟨-, hd⟩
      exact ensures_leaf (by decide) (by omega)
  · exact ensures_fail

theorem lists_commaList (close : String) {item : Parser (Option Node)} (hitem : Yields (fun n => [n]) item) :
    Lists (commaList close item) := by
  intro c
  have hitems : Yields Option.toList (do
      if ← isNext close then return none
      let i ← item
      if !(← sign? ",") && !(← isNext close) then fail
      return some i) := by
    intro c
    apply (stays_isNext close).bind
    intro b
    split
    · exact ensures_pure ⟨chained_nil.2 (Nat.le_refl _), rfl⟩
    · apply (hitem c).bind
      rintro o d ⟨ho, hd⟩
      apply (leads_sign? ",").bind
      intro b e he
      apply (stays_isNext close).bind
      intro b'
      dsimp only
      split
      · exact fail_bind
      · refine ensures_pure ⟨?_, by omega⟩
        cases o with
        | none => exact ho.mono (by omega)
        | some n => exact ho.mono (by omega)
  apply (hitems.many c).bind
  rintro os d ⟨hos, hd⟩
  apply (passes_sign close).bind
  intro _ e he
  refine ensures_pure ⟨?_, by omega⟩
  rw [List.filterMap_eq_flatMap_toList]
  exact hos.mono (by omega)

end Lexemes

end ShortClass.Program
