import ShortClass.Program.Grammar.Callable
import ShortClass.Proofs.Program.Grammar.Binding

namespace ShortClass.Program.Grammar

open ShortClass.Program.Parser

theorem stays_isAsyncFunction : Stays isAsyncFunction := stays_lookahead _

theorem leads_modifier (w : String) : Leads (modifier w) := by
  intro c
  apply get_bind
  apply (leads_word? _).bind
  intro b d hd
  split
  · apply stays_peek.bind
    intro s
    apply stays_newlineAhead.bind
    intro b'
    split
    · apply (ensures_set (Q := fun _ e => e = c) rfl).bind
      rintro _ c rfl
      exact ensures_pure c.leads_self
    · exact ensures_pure hd
  · exact ensures_pure hd

theorem leads_methodModifiers : Leads methodModifiers := by
  intro c
  apply (leads_modifier _).bind
  intro async d hd
  apply (leads_sign? _).bind
  intro generator e he
  split
  · exact ensures_pure (by omega)
  apply (leads_modifier _).bind
  intro b f hf
  split
  · exact ensures_pure (by omega)
  · apply (leads_modifier _ f).mono
    intro b' f' hf'
    omega

variable {g : Grammar} (hg : ∀ n, Reads (g n))

include hg

theorem reads_block : Reads (block g) := by
  intro c
  apply here_bind
  apply (passes_sign _).bind
  intro _ d hd
  apply ((hg .statement).yields_unless (stays_isNext _)).lists.bind
  intro ns e hns he
  apply (passes_sign _).bind
  intro _ f hf
  exact ensures_node (by decide) (hns.mono (by omega)) (by omega)

theorem ensures_callable {start stop : Nat} {before : List Node} {c : Cursor}
    (hbefore : Chained start c.next before) (hstop : c.stop = stop) :
    Ensures (callable g start before) c (Stands start stop) := by
  apply (reads_parameters hg).bind
  intro ps d hps hd
  apply (reads_block hg).bind
  intro body e hbody he
  exact ensures_node (by decide) (hbefore.append (chained_pair hps hbody (by omega))) (by omega)

theorem ensures_function {start stop : Nat} (named : Bool) {c : Cursor}
    (hc : start ≤ c.next ∧ c.stop = stop) : Ensures (function g start named) c (Stands start stop) := by
  apply (passes_word _).bind
  intro _ d hd
  apply (leads_sign? _).bind
  intro _ e he
  have hcallable : ∀ f, e.Leads f → Ensures (callable g start []) f (Stands start stop) := by
    intro f hf
    exact ensures_callable hg (chained_nil.2 (by omega)) (by omega)
  apply stays_isNextName.bind
  intro b
  dsimp only
  split
  · apply reads_name.passes.leads.bind
    intro _ f hf
    exact hcallable f hf
  split
  · exact fail_bind
  · exact hcallable e e.leads_self

theorem reads_functionExpression (named : Bool) : Reads (functionExpression g named) := by
  intro c
  apply here_bind
  apply (leads_word? _).bind
  intro _ d hd
  exact ensures_function hg named (by omega)

theorem ensures_decorators (c : Cursor) :
    Ensures (decorators g) c fun ns d => Chained c.next d.next ns ∧ c.Leads d := by
  apply Ensures.many (I := fun ns d => Chained c.next d.next ns ∧ c.Leads d)
  · exact ⟨chained_nil.2 (Nat.le_refl _), c.leads_self⟩
  rintro ns d ⟨hns, hd⟩
  apply here_bind
  apply (takes_sign? _ d).bind
  rintro b e ⟨he, hb⟩
  split
  · next h =>
    have := hb h
    apply (hg _).bind
    intro n f hn hf
    apply node_bind (by decide) (chained_singleton hn (by omega))
    intro m hm hf'
    refine ensures_pure ⟨hns.append (chained_singleton hm (by omega)), by omega⟩
  · refine ensures_pure ⟨hns.mono (by omega), by omega⟩

theorem reads_classMember : Reads (classMember g) := by
  intro c
  apply here_bind
  apply (ensures_decorators hg c).bind
  rintro marks d ⟨hmarks, hd⟩
  apply (leads_modifier _).bind
  intro fixed e he
  apply (stays_isNext _).bind
  intro b
  split
  · apply (reads_block hg).bind
    intro body f hbody hf
    exact ensures_node (by decide) (chained_singleton hbody (by omega)) (by omega)
  apply (leads_modifier _).bind
  intro accessor f hf
  have hmember : ∀ method f', f.Leads f' → Ensures (do
      let key ← propertyName g
      if method || (← isNext "(") then callable g c.next (marks ++ [key])
      else
        let value ← if ← sign? "=" then pure [← g (.expression true)] else pure []
        let member ← node .other c.next (marks ++ key :: value)
        terminator
        return member) f' (Stands c.next c.stop) := by
    intro method f' hf'
    apply (reads_propertyName hg).bind
    intro key e' hkey he'
    apply (stays_isNext _).bind
    intro b
    split
    · exact ensures_callable hg (hmarks.append (chained_singleton hkey (by omega))) (by omega)
    apply (leads_sign? _).bind
    intro b' e'' he''
    apply (hg _).bind_when
    intro value d' hvalue hd'
    apply node_bind (by decide) (hmarks.append (chained_cons.2 ⟨by omega, hkey, hvalue.mono (by omega)⟩))
    intro member hmember hd''
    apply leads_terminator.bind
    intro _ d'' hterm
    exact ensures_pure ⟨hmember, by omega⟩
  dsimp only
  split
  · rw [pure_bind]
    exact hmember false f f.leads_self
  · apply leads_methodModifiers.bind
    intro method f' hf'
    exact hmember method f' hf'

theorem reads_classBody : Reads (classBody g) := by
  have hitem : Yields Option.toList (do
      if ← isNext "\x7d" then return none
      else if ← sign? ";" then return some none
      else return some (some (← classMember g))) := by
    intro c
    apply (stays_isNext _).bind
    intro b
    split
    · exact yields_none c
    apply (leads_sign? _).bind
    intro b' d hd
    split
    · exact ensures_pure ⟨chained_nil.2 (by omega), by omega⟩
    · apply (reads_classMember hg).bind
      intro n e hn he
      exact ensures_pure ⟨chained_singleton hn (by omega), by omega⟩
  intro c
  apply here_bind
  apply (passes_sign _).bind
  intro _ d hd
  apply (hitem.many d).bind
  rintro os e ⟨hos, he⟩
  apply (passes_sign _).bind
  intro _ f hf
  rw [List.filterMap_eq_flatMap_toList]
  exact ensures_node (by decide) (hos.mono (by omega)) (by omega)

theorem ensures_classRest {start stop : Nat} {marks : List Node} (named : Bool) {c : Cursor}
    (hmarks : Chained start c.next marks) (hstop : c.stop = stop) :
    Ensures (classRest g start marks named) c (Stands start stop) := by
  have hle := hmarks.le
  apply (passes_word _).bind
  intro _ d hd
  apply (stays_isNextWord _).bind
  intro anonymous
  apply stays_isNextName.bind
  intro b
  have hrest : ∀ e, d.Leads e → Ensures (do
      let heritageStart ← here
      let heritage ← if ← word? "extends" then
          let e ← g (.callee true)
          pure [← node .other heritageStart [e]]
        else pure []
      let body ← classBody g
      node .other start (marks ++ heritage ++ [body])) e (Stands start stop) := by
    intro e he
    apply here_bind
    apply (takes_word? _ e).bind
    rintro b f ⟨hf, hb⟩
    have hbody : ∀ heritage f', Chained e.pos f'.pos heritage → f'.stop = f.stop → Ensures (do
        let body ← classBody g
        node .other start (marks ++ heritage ++ [body])) f' (Stands start stop) := by
      intro heritage f' hheritage hf'
      apply (reads_classBody hg).bind
      intro body e' hbody he'
      refine ensures_node (by decide) ?_ (by omega)
      exact ((hmarks.mono (by omega)).append hheritage).append (chained_singleton hbody (by omega))
    dsimp only
    split
    · next h =>
      have := hb h
      apply (hg _).bind
      intro n f' hn hf'
      apply node_bind (by decide) (chained_singleton hn (by omega))
      intro m hm hm'
      rw [pure_bind]
      exact hbody _ f' (chained_singleton hm (by omega)) (by omega)
    · rw [pure_bind]
      exact hbody _ f (chained_nil.2 (by omega)) rfl
  dsimp only
  split
  · apply reads_name.passes.leads.bind
    intro _ e he
    exact hrest e he
  split
  · exact fail_bind
  · exact hrest d d.leads_self

theorem reads_classExpression (named : Bool) : Reads (classExpression g named) := by
  intro c
  apply here_bind
  apply (ensures_decorators hg c).bind
  rintro marks d ⟨hmarks, hd⟩
  exact ensures_classRest hg named hmarks (by omega)

end ShortClass.Program.Grammar
