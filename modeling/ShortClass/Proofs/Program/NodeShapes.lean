import ShortClass.Program.Parse
import ShortClass.Proofs.Program.ParserRules

namespace ShortClass.Program

def Kind.arity? : Kind → Option Nat
  | sum => some 2
  | sumAssignment => some 2
  | parenthesized => some 1
  | _ => none

inductive Node.Shaped : Node → Prop where
  | mk {kind : Kind} {start stop : Nat} {cs : List Node} : (∀ n ∈ kind.arity?, cs.length = n) →
    (∀ c ∈ cs, c.Shaped) → Shaped (.mk kind start stop cs)

def AllShaped (ns : List Node) : Prop := ∀ n ∈ ns, n.Shaped

@[simp] theorem allShaped_nil : AllShaped [] := nofun

@[simp] theorem allShaped_cons {n : Node} {ns : List Node} : AllShaped (n :: ns) ↔ n.Shaped ∧ AllShaped ns :=
  List.forall_mem_cons

@[simp] theorem allShaped_append {ms ns : List Node} : AllShaped (ms ++ ns) ↔ AllShaped ms ∧ AllShaped ns :=
  List.forall_mem_append

namespace Node.Shaped

variable {n : Node}

theorem children (h : n.Shaped) : AllShaped n.children := by
  cases h with
  | mk _ hcs => exact hcs

theorem length_children (h : n.Shaped) {k : Nat} (hk : n.kind.arity? = some k) : n.children.length = k := by
  cases h with
  | mk hlength _ => exact hlength k hk

theorem of_arity_none {kind : Kind} {start stop : Nat} {cs : List Node} (hk : kind.arity? = none)
    (hcs : AllShaped cs) : Shaped (.mk kind start stop cs) := .mk (by simp [hk]) hcs

theorem withKind {kind : Kind} (h : n.Shaped) (hk : kind.arity? = none) : (n.withKind kind).Shaped := by
  cases h with
  | mk _ hcs => exact of_arity_none hk hcs

end Node.Shaped

theorem allShaped_filterMap {os : List (Option Node)} (h : ∀ o ∈ os, ∀ n ∈ o, n.Shaped) :
    AllShaped (os.filterMap id) := by
  intro n hn
  obtain ⟨o, ho, rfl⟩ := List.mem_filterMap.1 hn
  exact h _ ho n rfl

mutual

theorem Node.Shaped.toPattern : {n : Node} → n.Shaped → n.toPattern.Shaped
  | .mk kind start stop cs, h => by
    cases kind
    case object | array | pair => exact .of_arity_none rfl h.children.toPatterns
    case shorthandDefault => exact .of_arity_none rfl h.children
    all_goals exact h

theorem AllShaped.toPatterns : {ns : List Node} → AllShaped ns → AllShaped (Node.toPatterns ns)
  | [], h => h
  | n :: ns, h => by
    obtain ⟨hn, hns⟩ := allShaped_cons.1 h
    exact allShaped_cons.2 ⟨hn.toPattern, hns.toPatterns⟩

end

def Gives {α : Type} (P : α → Prop) (p : Parser α) : Prop := ∀ c, Ensures p c fun a _ => P a

section Rules

variable {α β : Type} {P : α → Prop} {Q : β → Prop} {p q : Parser α} {k : α → Parser β}

theorem Gives.bind (hp : Gives P p) (hk : ∀ a, P a → Gives Q (k a)) : Gives Q (p >>= k) :=
  fun c => (hp c).bind fun a d ha => hk a ha d

theorem gives_then (hk : ∀ a, Gives Q (k a)) : Gives Q (p >>= k) := by
  intro c
  apply Ensures.bind (P := fun _ _ => True)
  · exact ⟨fun _ _ _ => trivial⟩
  · intro a d _
    exact hk a d

theorem gives_pure {a : α} (h : P a) : Gives P (pure a) := fun _ => ensures_pure h

theorem gives_fail : Gives P Parser.fail := fun _ => ensures_fail

theorem gives_ite {b : Prop} [Decidable b] (hp : Gives P p) (hq : Gives P q) : Gives P (if b then p else q) :=
  fun c => ensures_ite (hp c) (hq c)

theorem Gives.bind_ite {b : Prop} [Decidable b] (hp : Gives P p) (hq : Gives P q) (hk : ∀ a, P a → Gives Q (k a)) :
    Gives Q (if b then p >>= k else q >>= k) := gives_ite (hp.bind hk) (hq.bind hk)

theorem Gives.orElse (hp : Gives P p) (hq : Gives P q) : Gives P (p <|> q) := fun c => (hp c).orElse (hq c)

theorem Gives.many {item : Parser (Option α)} (h : Gives (fun o => ∀ a ∈ o, P a) item) :
    Gives (fun as => ∀ a ∈ as, P a) (Parser.many item) := by
  intro c
  apply Ensures.many (I := fun as _ => ∀ a ∈ as, P a) (by simp)
  intro as d has
  apply (h d).mono
  intro o e ho
  cases o with
  | none => exact has
  | some a => simpa [or_imp, forall_and] using ⟨has, ho a rfl⟩

theorem Gives.extend {R : Node → Prop} {step : Node → Parser (Option Node)} {n : Node} (h : R n)
    (hstep : ∀ m, R m → Gives (fun o => ∀ a ∈ o, R a) (step m)) : Gives R (Parser.extend step n) := by
  intro c
  apply Ensures.extend (I := fun m _ => R m) h
  intro m d hm
  apply (hstep m hm d).mono
  intro o e ho
  cases o with
  | none => exact hm
  | some a => exact ho a rfl

theorem gives_some {a : α} (h : P a) : Gives (fun o => ∀ a ∈ o, P a) (pure (some a)) :=
  gives_pure (by simpa using h)

theorem gives_none : Gives (fun o => ∀ a ∈ o, P a) (pure none : Parser (Option α)) := gives_pure (by simp)

theorem Gives.some (h : Gives P p) : Gives (fun o => ∀ a ∈ o, P a) (do return Option.some (← p)) :=
  h.bind fun _ ha => gives_some ha

theorem Gives.map_some (h : Gives P p) : Gives (fun o => ∀ a ∈ o, P a) (Option.some <$> p) := by
  rw [map_eq_pure_bind]
  exact h.some

end Rules

open ShortClass.Program.Parser

section Lexemes

variable {kind : Kind} {start : Nat} {cs : List Node}

theorem gives_node_of_length (hk : ∀ n ∈ kind.arity?, cs.length = n) (hcs : AllShaped cs) :
    Gives Node.Shaped (node kind start cs) := gives_then fun _ => gives_pure (.mk hk hcs)

theorem gives_node (hk : kind.arity? = none) (hcs : AllShaped cs) : Gives Node.Shaped (node kind start cs) :=
  gives_node_of_length (by simp [hk]) hcs

theorem gives_leaf (hk : kind.arity? = none) : Gives Node.Shaped (node kind start []) := gives_node hk allShaped_nil

section Optional

variable {β : Type} {b : Prop} [Decidable b] {Q : β → Prop} {p : Parser Node} {k : List Node → Parser β}

theorem Gives.bind_singleton (hp : Gives Node.Shaped p) (hk : ∀ ns, AllShaped ns → Gives Q (k ns)) :
    Gives Q (p >>= fun n => pure [n] >>= k) :=
  hp.bind fun _ hn => (gives_pure (by simpa using hn)).bind hk

theorem Gives.bind_when (hp : Gives Node.Shaped p) (hk : ∀ ns, AllShaped ns → Gives Q (k ns)) :
    Gives Q (if b then p >>= fun n => pure [n] >>= k else pure [] >>= k) :=
  gives_ite (hp.bind_singleton hk) ((gives_pure allShaped_nil).bind hk)

theorem Gives.bind_unless (hp : Gives Node.Shaped p) (hk : ∀ ns, AllShaped ns → Gives Q (k ns)) :
    Gives Q (if b then pure [] >>= k else p >>= fun n => pure [n] >>= k) :=
  gives_ite ((gives_pure allShaped_nil).bind hk) (hp.bind_singleton hk)

end Optional

theorem shapes_anyWord : Gives Node.Shaped anyWord :=
  gives_then fun _ => gives_then fun _ => gives_ite (gives_then fun _ => gives_then fun _ => gives_leaf rfl)
    (gives_then fun _ => gives_leaf rfl)

theorem shapes_name : Gives Node.Shaped name := gives_then fun _ => gives_ite shapes_anyWord gives_fail

theorem shapes_stringLiteral : Gives Node.Shaped Parser.stringLiteral := by
  refine gives_then fun _ => gives_then fun s => ?_
  split
  · refine gives_ite ?_ gives_fail
    split
    · exact gives_then fun _ => gives_leaf rfl
    · exact gives_fail
  · exact gives_fail

theorem shapes_numberLiteral : Gives Node.Shaped numberLiteral := by
  refine gives_then fun _ => gives_then fun s => ?_
  split
  · exact gives_ite (gives_then fun _ => gives_then fun _ => gives_leaf rfl) (gives_then fun _ => gives_leaf rfl)
  · exact gives_fail

theorem shapes_commaList (close : String) {item : Parser (Option Node)} (h : Gives (fun o => ∀ n ∈ o, n.Shaped) item) :
    Gives AllShaped (commaList close item) := by
  have hitems : Gives (fun os => ∀ o ∈ os, ∀ n ∈ o, Node.Shaped n) (many do
      if ← isNext close then return none
      let i ← item
      if !(← sign? ",") && !(← isNext close) then fail
      return some i) :=
    .many (gives_then fun _ => gives_ite gives_none (h.bind fun o ho => gives_then fun _ => gives_then fun _ =>
      gives_ite (gives_then fun _ => gives_some ho) (gives_some ho)))
  exact hitems.bind fun _ hos => gives_then fun _ => gives_pure (allShaped_filterMap hos)

end Lexemes

end ShortClass.Program
