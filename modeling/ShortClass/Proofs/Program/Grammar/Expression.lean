import ShortClass.Program.Grammar.Expression
import ShortClass.Proofs.Program.Grammar.Callable
import ShortClass.Proofs.Program.Grammar.Markup

namespace ShortClass.Program.Grammar

open ShortClass.Program.Parser

def Interpolated (c : Cursor) (o : Option Node) (d : Cursor) : Prop :=
  (∀ n ∈ o, n.kind = .substitution) ∧ (o = none → 0 < d.rest.length) ∧ Chained c.pos d.pos o.toList ∧ d.stop = c.stop

theorem stays_arrowAhead : Stays arrowAhead := by
  intro c
  apply stays_newlineAhead.bind
  intro b
  split
  · exact ensures_pure rfl
  · exact stays_isNext _ c

theorem reads_importExpression : Reads importExpression := by
  intro c
  apply here_bind
  apply (passes_word _).bind
  intro _ d hd
  apply (leads_sign? _).bind
  intro b e he
  split
  · apply reads_anyWord.bind
    intro _ f _ hf
    exact ensures_leaf (by decide) (by omega)
  apply (stays_isNext _).bind
  intro b'
  split
  · exact ensures_leaf (by decide) (by omega)
  · exact ensures_fail

theorem reads_regexLiteral : Reads regexLiteral := by
  intro c
  apply here_bind
  apply (passes_char _).bind
  intro _ d hd
  apply get_bind
  split
  · next n hn =>
    apply (ensures_advance (regexTail_le hn)).bind
    rintro _ e ⟨-, he⟩
    exact ensures_leaf (by decide) (by omega)
  · exact ensures_fail

theorem reads_property : Reads property := by
  intro c
  apply (stays_isNextChar _).bind
  intro b
  split
  · exact reads_privateName c
  · exact reads_anyWord c

variable {g : Grammar} (hg : ∀ n, Reads (g n))

include hg

theorem ensures_interpolation (c : Cursor) :
    Ensures (interpolation g) c (Interpolated c) := by
  apply get_bind
  split
  · exact ensures_fail
  · next n hn =>
    obtain ⟨hle, x, r, hdrop, hx⟩ := templateRun_drop hn
    apply (ensures_advance hle).bind
    rintro _ d ⟨hrest, hd⟩
    rw [hdrop] at hrest
    have hlen : d.rest.length = r.length + 1 := by rw [hrest, List.length_cons]
    apply get_bind
    split
    · next hhead =>
      rw [hrest] at hhead
      have hr := List.length_pos_of_mem (List.mem_of_head? (hx (Option.some.inj hhead)))
      apply (ensures_advance (by omega)).bind
      rintro _ e ⟨-, he⟩
      apply (reads_expressions hg _).bind
      intro m f hm hf
      apply (passes_sign _).bind
      intro _ f' hf'
      apply node_bind (by decide) (chained_singleton hm (by omega))
      intro s hs hsub
      refine ensures_pure ⟨?_, by simp, chained_singleton hs (by omega), by omega⟩
      simp [hsub.1]
    · refine ensures_pure ⟨by simp, fun _ => by omega, chained_nil.2 (by omega), by omega⟩

theorem reads_template : Reads (template g) := by
  intro c
  apply here_bind
  apply (ensures_char _ c).bind
  rintro _ d ⟨hpos, hd⟩
  have hparts : Ensures (many (interpolation g)) d fun ns e =>
      0 < e.rest.length ∧ (∀ n ∈ ns, n.kind = .substitution) ∧ Chained d.pos e.pos ns ∧ e.stop = d.stop := by
    apply Ensures.many (I := fun ns e =>
      (∀ n ∈ ns, n.kind = .substitution) ∧ Chained d.pos e.pos ns ∧ e.stop = d.stop)
    · exact ⟨by simp, chained_nil.2 (Nat.le_refl _), rfl⟩
    rintro ns e ⟨hkinds, hns, he⟩
    apply (ensures_interpolation hg e).mono
    rintro o f ⟨hkind, hend, ho, hf⟩
    cases o with
    | none => exact ⟨hend rfl, hkinds, hns.mono ⟨Nat.le_refl _, chained_nil.1 ho⟩, by omega⟩
    | some n =>
      refine ⟨fun m hm => ?_, hns.append ho, by omega⟩
      rcases List.mem_append.1 hm with hm | hm
      · exact hkinds m hm
      · exact hkind m (List.mem_singleton.1 hm ▸ rfl)
  apply hparts.bind
  rintro ns e ⟨hrest, hkinds, hns, he⟩
  have hle := hns.le
  apply (ensures_advance hrest).bind
  rintro _ f ⟨-, hf⟩
  refine ensures_node_of_nested ?_ (by omega)
  rw [Node.Nested, if_neg (by decide), if_pos rfl]
  exact ⟨by omega, hkinds, hns.mono (by omega)⟩

theorem reads_arrayLiteral : Reads (arrayLiteral g) := by
  intro c
  apply here_bind
  apply (passes_sign _).bind
  intro _ d hd
  have hitem := Yields.ite (stays_isNext "...") (reads_spread hg).yields (hg (.expression true)).yields
  apply (lists_commaList _ (.ite (stays_isNext ",") yields_none hitem)).bind
  intro ns e hns he
  exact ensures_node (by decide) (hns.mono (by omega)) (by omega)

theorem reads_propertyDefinition : Reads (propertyDefinition g) := by
  intro c
  apply (stays_isNext _).bind
  intro b
  split
  · exact reads_spread hg c
  apply here_bind
  apply leads_methodModifiers.bind
  intro method d hd
  apply stays_isNextName.bind
  intro shorthand
  apply (reads_propertyName hg).bind
  intro key e hkey he
  apply (stays_isNext _).bind
  intro b
  split
  · exact ensures_callable hg (chained_singleton hkey (by omega)) (by omega)
  apply (leads_sign? _).bind
  intro b f hf
  split
  · apply (hg _).bind
    intro value f' hvalue hf'
    exact ensures_node (by decide) (chained_pair hkey hvalue (by omega)) (by omega)
  split
  · exact ensures_fail
  apply (leads_sign? _).bind
  intro b f' hf'
  split
  · apply (hg _).bind
    intro value e' hvalue he'
    exact ensures_node (by decide) (chained_pair hkey hvalue (by omega)) (by omega)
  · exact ensures_pure ⟨hkey, by omega⟩

theorem reads_objectLiteral : Reads (objectLiteral g) := by
  intro c
  apply here_bind
  apply (passes_sign _).bind
  intro _ d hd
  apply (lists_commaList _ (reads_propertyDefinition hg).yields_map).bind
  intro ns e hns he
  exact ensures_node (by decide) (hns.mono (by omega)) (by omega)

theorem reads_parenthesized : Reads (parenthesized g) := by
  have hitem : Yields (fun i : Node × Bool × Bool => [i.1]) (do
      if ← isNext ")" then return none
      let rest ← isNext "..."
      let item ← if rest then spread g else g (.expression true)
      let comma ← sign? ","
      if !comma && !(← isNext ")") then fail
      return some (item, rest, comma)) := by
    intro c
    apply (stays_isNext _).bind
    intro b
    split
    · exact yields_none c
    apply (stays_isNext _).bind
    intro rest
    have hcomma : ∀ n d, n.Nested → c.pos ≤ n.start ∧ n.stop ≤ d.pos ∧ d.stop = c.stop → Ensures (do
        let comma ← sign? ","
        if !comma && !(← isNext ")") then fail
        return some (n, rest, comma)) d fun o e =>
          Chained c.pos e.pos (o.elim [] fun i => [i.1]) ∧ e.stop = c.stop := by
      intro n d hn hd
      apply (leads_sign? _).bind
      intro comma e he
      apply (stays_isNext _).bind
      intro b
      dsimp only
      split
      · exact fail_bind
      · have hone : Chained c.pos e.pos [n] := chained_singleton hn (by omega)
        exact ensures_pure ⟨hone, by omega⟩
    dsimp only
    split
    · apply (reads_spread hg).bind
      intro n d hn hd
      exact hcomma n d hn (by omega)
    · apply (hg _).bind
      intro n d hn hd
      exact hcomma n d hn (by omega)
  intro c
  apply here_bind
  apply (passes_sign _).bind
  intro _ d hd
  apply (hitem.many d).bind
  rintro items e ⟨hitems, he⟩
  have hle := hitems.le
  rw [← List.map_eq_flatMap] at hitems
  apply (passes_sign _).bind
  intro _ f hf
  apply stays_arrowAhead.bind
  intro b
  dsimp only
  split
  · exact ensures_node (by decide) (hitems.mono (by omega)) (by omega)
  split
  · exact ensures_fail
  · next last rest comma hlast =>
    obtain ⟨hinner, hstop⟩ := hitems.to_last (by rw [List.getLast?_map, hlast]; rfl)
    split
    · exact fail_bind
    split
    · next n hn =>
      rw [hn] at hitems
      exact ensures_node (by decide) (hitems.mono (by omega)) (by omega)
    · next first others hne hn =>
      rw [hn, chained_cons] at hinner
      have hsequence : (Node.mk .other first.start last.stop (first :: others)).Nested :=
        (Node.nested_mk (by decide)).2 (chained_cons.2 ⟨Nat.le_refl _, hinner.2⟩)
      rw [hn]
      have hends : c.next ≤ first.start ∧ last.stop ≤ f.pos := by
        dsimp only at hstop
        omega
      exact ensures_node (by decide) (chained_singleton hsequence hends) (by omega)
    · exact ensures_fail

theorem reads_condition : Reads (condition g) := by
  intro c
  apply here_bind
  apply (passes_sign _).bind
  intro _ d hd
  apply (reads_expressions hg _).bind
  intro n e hn he
  apply (passes_sign _).bind
  intro _ f hf
  exact ensures_node (by decide) (chained_singleton hn (by omega)) (by omega)

theorem reads_arguments : Reads (arguments g) := by
  intro c
  apply here_bind
  apply (passes_sign _).bind
  intro _ d hd
  have hitem := Yields.ite (stays_isNext "...") (reads_spread hg).yields (hg (.expression true)).yields
  apply (lists_commaList _ hitem).bind
  intro ns e hns he
  exact ensures_node (by decide) (hns.mono (by omega)) (by omega)

theorem reads_newExpression : Reads (newExpression g) := by
  intro c
  apply here_bind
  apply (passes_word _).bind
  intro _ d hd
  apply (leads_sign? _).bind
  intro b e he
  split
  · apply (passes_word _).bind
    intro _ f hf
    exact ensures_leaf (by decide) (by omega)
  apply (hg _).bind
  intro n f hn hf
  apply (stays_isNext _).bind
  intro b'
  split
  · apply (reads_arguments hg).bind
    intro args f' hargs hf'
    exact ensures_node (by decide) (chained_pair hn hargs (by omega)) (by omega)
  · exact ensures_node (by decide) (chained_singleton hn (by omega)) (by omega)

theorem reads_primary : Reads (primary g) := by
  intro c
  apply ahead_bind
  intro s hs
  split
  · exact ensures_fail
  apply ensures_ite (reads_stringLiteral c)
  apply ensures_ite (reads_template hg c)
  apply ensures_ite (reads_numberLiteral c)
  apply ensures_ite (reads_parenthesized hg c)
  apply ensures_ite (reads_arrayLiteral hg c)
  apply ensures_ite (reads_objectLiteral hg c)
  apply ensures_ite (reads_regexLiteral c)
  apply ensures_ite (hg _ c)
  apply ensures_ite (reads_privateName c)
  apply ensures_ite (reads_classExpression hg _ c)
  apply stays_peekWord.bind
  intro w
  apply ensures_ite (reads_functionExpression hg _ c)
  apply ensures_ite (reads_classExpression hg _ c)
  apply ensures_ite (reads_newExpression hg c)
  apply ensures_ite (reads_importExpression c)
  apply stays_isAsyncFunction.bind
  intro b
  apply ensures_ite (reads_functionExpression hg _ c)
  apply ensures_ite _ (reads_name c)
  apply ensures_anyWord.bind
  rintro ⟨kind, start, stop, cs⟩ d ⟨hkind, hn, hd⟩
  obtain rfl : kind = .identifier := hkind
  exact ensures_pure ⟨(Node.nested_mk (by decide)).2 ((Node.nested_mk (by decide)).1 hn), hd⟩

theorem ensures_subscript {lo stop : Nat} {n : Node} {c : Cursor} (h : Stands lo stop n c) :
    Ensures (subscript g n) c (Stands lo stop) := by
  obtain ⟨hn, hc⟩ := h
  apply (passes_sign _).bind
  intro _ d hd
  apply (reads_expressions hg _).bind
  intro index e hindex he
  apply (passes_sign _).bind
  intro _ f hf
  exact ensures_node (by decide) (chained_pair hn hindex (by omega)) (by omega)

theorem ensures_access (calls : Bool) {lo stop : Nat} {n : Node} {c : Cursor}
    (h : Stands lo stop n c) : Ensures (access g calls n) c fun o d => Stands lo stop (o.getD n) d := by
  -- each access builds one node of `n` and what is read after it
  have hpart : ∀ (kind : Kind) (p : Parser Node) (d : Cursor), kind ≠ .string ∧ kind ≠ .template → Reads p →
      c.pos ≤ d.next ∧ d.stop = c.stop →
      Ensures (do return some (← node kind n.start [n, ← p])) d fun o d => Stands lo stop (o.getD n) d := by
    intro kind p d hk hp hd
    obtain ⟨hn, hc⟩ := h
    apply hp.bind
    intro m e hm he
    apply node_bind hk (chained_pair hn hm (by omega))
    intro n' hn' he'
    exact ensures_pure ⟨hn', by simp only [Option.getD_some]; omega⟩
  have hself := c.leads_self
  apply stays_peek.bind
  intro s
  split
  · apply (passes_sign _).bind
    intro _ d hd
    exact hpart _ _ d (by decide) reads_property (by omega)
  · refine ensures_ite (ensures_pure h) ?_
    apply (passes_sign _).bind
    intro _ d hd
    apply stays_peek.bind
    intro s'
    split
    · exact hpart _ _ d (by decide) (reads_arguments hg) (by omega)
    · have h' : Stands lo stop n d := ⟨h.1, h.2.1, by have := h.2.2; omega⟩
      apply (ensures_subscript hg h').bind
      intro m e hm
      exact ensures_pure hm
    · exact hpart _ _ d (by decide) reads_property (by omega)
  · apply (ensures_subscript hg h).bind
    intro m e hm
    exact ensures_pure hm
  · refine ensures_ite (ensures_pure h) ?_
    exact hpart _ _ c (by decide) (reads_arguments hg) (by omega)
  · exact hpart _ _ c (by decide) (reads_template hg) (by omega)
  · exact ensures_pure h

theorem reads_callee (calls : Bool) : Reads (callee g calls) := by
  intro c
  apply (reads_primary hg c).bind
  intro n d hn
  apply ensures_ite (ensures_pure hn)
  exact Ensures.extend hn fun m e hm => ensures_access hg calls hm

theorem reads_unary : Reads (unary g) := by
  intro c
  have hprefixed : ∀ p : Parser Unit, Passes p →
      Ensures (do p; let e ← g .unary; node .other c.next [e]) c (Stands c.next c.stop) := by
    intro p hp
    apply hp.bind
    intro _ d hd
    apply (hg _).bind
    intro n e hn he
    exact ensures_node (by decide) (chained_singleton hn (by omega)) (by omega)
  have hoperand : Ensures (do
      let e ← callee g true
      if ← newlineAhead then return e
      let p ← peek
      if p = "++" ∨ p = "--" then
        sign p
        node .other c.next [e]
      else return e) c (Stands c.next c.stop) := by
    apply (reads_callee hg _).bind
    intro n d hn hd
    apply stays_newlineAhead.bind
    intro b
    apply ensures_ite (ensures_pure ⟨hn, by omega⟩)
    apply stays_peek.bind
    intro s
    apply ensures_ite _ (ensures_pure ⟨hn, by omega⟩)
    apply (passes_sign _).bind
    intro _ e he
    exact ensures_node (by decide) (chained_singleton hn (by omega)) (by omega)
  apply here_bind
  apply stays_peek.bind
  intro s
  apply stays_peekWord.bind
  intro w
  apply ensures_ite (hprefixed _ (passes_sign s))
  apply ensures_ite (hprefixed _ (passes_word w))
  dsimp only
  apply ensures_ite _ hoperand
  exact (hprefixed _ (passes_word w)).orElse hoperand

theorem ensures_operationBy (level : Nat) (inWord : Bool) {lo stop : Nat} {n : Node} {c : Cursor}
    (h : Stands lo stop n c) {op : String} (hop : c.next + op.length ≤ c.stop) :
    Ensures (operationBy g level inWord n op) c fun o d => Stands lo stop (o.getD n) d := by
  refine ensures_ite (ensures_pure h) ?_
  split
  · exact ensures_pure h
  refine ensures_ite (ensures_pure h) ?_
  apply (ensures_consume hop).bind
  rintro _ d ⟨-, hd⟩
  apply (hg _).bind
  intro right e hright he
  obtain ⟨hn, hc⟩ := h
  apply node_bind (by split <;> decide) (chained_pair hn hright (by omega))
  intro m hm hm'
  exact ensures_pure ⟨hm, by simp only [Option.getD_some]; omega⟩

theorem ensures_operation (level : Nat) (inWord : Bool) {lo stop : Nat} {n : Node} {c : Cursor}
    (h : Stands lo stop n c) : Ensures (operation g level inWord n) c fun o d => Stands lo stop (o.getD n) d := by
  apply ensures_peekWord.bind
  rintro w c ⟨rfl, hw⟩
  apply ensures_ite _ (ensures_operationBy hg level inWord h hw)
  apply ensures_peek.bind
  rintro op c ⟨rfl, hop⟩
  exact ensures_operationBy hg level inWord h hop

theorem reads_operators (level : Nat) (inWord : Bool) : Reads (operators g level inWord) := by
  intro c
  apply (hg _ c).bind
  intro n d hn
  exact Ensures.extend hn fun m e hm => ensures_operation hg level inWord hm

theorem ensures_arrow (inWord : Bool) {start stop : Nat} {params : Node} {c : Cursor}
    (h : Stands start stop params c) : Ensures (arrow g inWord start params) c (Stands start stop) := by
  obtain ⟨hparams, hc⟩ := h
  apply stays_newlineAhead.bind
  intro b
  dsimp only
  apply ensures_ite fail_bind
  apply (passes_sign _).bind
  intro _ d hd
  apply (stays_isNext _).bind
  intro b'
  apply ensures_ite
  · apply (reads_block hg).bind
    intro body e hbody he
    exact ensures_node (by decide) (chained_pair hparams hbody (by omega)) (by omega)
  · apply (hg _).bind
    intro body e hbody he
    exact ensures_node (by decide) (chained_pair hparams hbody (by omega)) (by omega)

theorem reads_yieldExpression (inWord : Bool) : Reads (yieldExpression g inWord) := by
  intro c
  apply here_bind
  apply (passes_word _).bind
  intro _ d hd
  apply stays_newlineAhead.bind
  intro bare
  apply stays_peek.bind
  intro s
  apply ensures_ite
  · exact ensures_leaf (by decide) (by omega)
  apply (leads_sign? _).bind
  intro _ e he
  apply (hg _).bind
  intro n f hn hf
  exact ensures_node (by decide) (chained_singleton hn (by omega)) (by omega)

theorem ensures_assignment (inWord : Bool) {lo stop : Nat} {left : Node} {c : Cursor}
    (h : Stands lo stop left c) : Ensures (assignment g inWord left) c (Stands lo stop) := by
  obtain ⟨hleft, hc⟩ := h
  apply stays_peek.bind
  intro op
  apply ensures_ite
  · apply (passes_sign _).bind
    intro _ d hd
    apply (hg _).bind
    intro a e ha he
    apply (passes_sign _).bind
    intro _ f hf
    apply (hg _).bind
    intro b f' hb hf'
    exact ensures_node (by decide) (chained_cons.2 ⟨Nat.le_refl _, hleft, chained_pair ha hb (by omega)⟩) (by omega)
  apply ensures_ite _ (ensures_pure ⟨hleft, hc⟩)
  apply (passes_sign _).bind
  intro _ d hd
  apply (hg _).bind
  intro value e hvalue he
  have htarget : (if op = "=" then left.toPattern else left).Nested ∧
      (if op = "=" then left.toPattern else left).start = left.start ∧
      (if op = "=" then left.toPattern else left).stop = left.stop := by
    split
    · exact ⟨hleft.toPattern, left.toPattern_start, left.toPattern_stop⟩
    · exact ⟨hleft, rfl, rfl⟩
  refine ensures_node ?_ (chained_pair htarget.1 hvalue (by omega)) (by omega)
  split
  · decide
  split <;> decide

theorem reads_expression (inWord : Bool) : Reads (expression g inWord) := by
  intro c
  apply here_bind
  apply stays_peekWord.bind
  intro w
  apply ensures_ite (reads_yieldExpression hg inWord c)
  apply (stays_lookahead _).bind
  intro b
  apply ensures_ite
  · apply (passes_word _).bind
    intro _ d hd
    apply reads_name.bind
    intro p e hp he
    exact ensures_arrow hg inWord ⟨hp, by omega⟩
  apply (stays_lookahead _).bind
  intro b'
  apply ensures_ite
  · apply (reads_name c).bind
    intro p d hp
    exact ensures_arrow hg inWord hp
  apply (reads_operators hg 0 inWord c).bind
  intro left d hleft
  split
  · next s e ps =>
    dsimp only
    apply ensures_ite fail_bind
    have hps := (Node.nested_mk (by decide)).1 hleft.1
    exact ensures_arrow hg inWord ⟨(Node.nested_mk (by decide)).2 hps.toPatterns, hleft.2⟩
  · next ls le is ie ics s e ps =>
    apply stays_arrowAhead.bind
    intro b
    apply ensures_ite _ (ensures_assignment hg inWord hleft)
    obtain ⟨hn, hlo, hhi, hstop⟩ := hleft
    have hparts := (Node.nested_mk (by decide)).1 hn
    simp only [chained_cons, chained_nil, Node.start, Node.stop] at hparts hlo hhi
    obtain ⟨hs, hid, hid', hargs, he⟩ := hparts
    have hle := hid.le
    have hps := (Node.nested_mk (by decide)).1 hargs
    refine ensures_arrow hg inWord ⟨(Node.nested_mk (by decide)).2 hps.toPatterns, ?_⟩
    simp only [Node.start, Node.stop] at hle ⊢
    omega
  · exact ensures_assignment hg inWord hleft

end ShortClass.Program.Grammar
