import ShortClass.Program.Grammar.Statement
import ShortClass.Proofs.Program.Grammar.Expression

namespace ShortClass.Program.Grammar

open ShortClass.Program.Parser

theorem stays_isDeclaration : Stays isDeclaration := by
  intro c
  apply stays_peekWord.bind
  intro w
  refine ensures_ite (ensures_pure rfl) ?_
  exact ensures_ite (stays_lookahead _ c) (ensures_pure rfl)

theorem ensures_terminated {p : Parser Node} {lo stop : Nat} {c : Cursor} (hp : Ensures p c (Stands lo stop)) :
    Ensures (do let n ← p; terminator; return n) c (Stands lo stop) := by
  apply hp.bindNode
  intro n d hn hd
  apply leads_terminator.bind
  intro _ e he
  exact ensures_pure ⟨hn, by omega⟩

theorem stays_isForEach : Stays isForEach := by
  intro c
  apply (stays_isNextWord _).bind
  intro b
  apply (stays_isNextWord _).bind
  intro b'
  exact ensures_pure rfl

theorem ensures_jumpStatement {start stop : Nat} {c : Cursor} (hc : start ≤ c.pos ∧ c.stop = stop) :
    Ensures (jumpStatement start) c (Stands start stop) := by
  have hend : ∀ d, c.Leads d → Ensures (do
      let n ← node .other start []
      terminator
      return n) d (Stands start stop) := by
    intro d hd
    exact ensures_terminated (ensures_leaf (by decide) (by omega))
  apply stays_newlineAhead.bind
  intro b
  apply stays_isNextName.bind
  intro b'
  dsimp only
  apply ensures_ite _ (hend c c.leads_self)
  apply reads_name.passes.leads.bind
  intro _ d hd
  exact hend d hd

theorem reads_moduleName : Reads moduleName := by
  intro c
  apply ahead_bind
  intro s hs
  exact ensures_ite (reads_stringLiteral c) (reads_anyWord c)

theorem reads_specifier (isImport : Bool) : Reads (specifier isImport) := by
  intro c
  apply stays_isNextName.bind
  intro named
  apply reads_moduleName.bind
  intro n d hn hd
  apply (leads_word? _).bind
  intro b e he
  apply ensures_ite
  · dsimp only
    apply ensures_ite
    · apply reads_name.bind
      intro other f hother hf
      exact ensures_node (by decide) (chained_pair hn hother (by omega)) (by omega)
    · apply reads_moduleName.bind
      intro other f hother hf
      exact ensures_node (by decide) (chained_pair hn hother (by omega)) (by omega)
  apply ensures_ite ensures_fail
  exact ensures_node (by decide) (chained_singleton hn (by omega)) (by omega)

theorem reads_specifiers (isImport : Bool) : Reads (specifiers isImport) := by
  intro c
  apply here_bind
  apply (passes_sign _).bind
  intro _ d hd
  apply (lists_commaList _ (reads_specifier isImport).yields_map).bind
  intro ns e hns he
  exact ensures_node (by decide) (hns.mono (by omega)) (by omega)

theorem ensures_importNames (c : Cursor) :
    Ensures importNames c fun ns d => Chained c.next d.pos ns ∧ d.stop = c.stop := by
  apply here_bind
  apply (leads_sign? _).bind
  intro b d hd
  apply ensures_ite
  · apply (passes_word _).bind
    intro _ e he
    apply reads_name.bind
    intro _ f _ hf
    apply node_bind (by decide) (chained_nil.2 (by omega))
    intro n hn hn'
    exact ensures_pure ⟨chained_singleton hn (by omega), by omega⟩
  · apply (reads_specifiers true).bind
    intro n e hn he
    exact ensures_pure ⟨chained_singleton hn (by omega), by omega⟩

theorem reads_importClause : Reads importClause := by
  intro c
  apply here_bind
  apply stays_isNextName.bind
  intro b
  apply ensures_ite
  · apply reads_name.bind
    intro n d hn hd
    apply (leads_sign? _).bind
    intro b' e he
    dsimp only
    apply ensures_ite
    · apply (ensures_importNames e).bind
      rintro more f ⟨hmore, hf⟩
      exact ensures_node (by decide) (chained_cons.2 ⟨by omega, hn, hmore.mono (by omega)⟩) (by omega)
    · rw [pure_bind]
      exact ensures_node (by decide) (chained_singleton hn (by omega)) (by omega)
  · apply (ensures_importNames c).bind
    rintro names d ⟨hnames, hd⟩
    exact ensures_node (by decide) hnames (by omega)

variable {g : Grammar} (hg : ∀ n, Reads (g n))

include hg

theorem ensures_declarator (inWord : Bool) (c : Cursor) :
    Ensures (declarator g inWord) c fun n d => n.kind = .other ∧ Stands c.next c.stop n d := by
  apply (hg _).bind
  intro target d htarget hd
  apply (leads_sign? _).bind
  intro b e he
  apply ensures_ite
  · apply (hg _).bind
    intro value f hvalue hf
    exact ensures_kind.and (ensures_node (by decide) (chained_pair htarget hvalue (by omega)) (by omega))
  · exact ensures_kind.and (ensures_node (by decide) (chained_singleton htarget (by omega)) (by omega))

theorem reads_declarator (inWord : Bool) : Reads (declarator g inWord) :=
  fun c => (ensures_declarator hg inWord c).mono fun _ _ h => h.2

theorem ensures_declarators (inWord : Bool) {start stop : Nat} {first : Node} {c : Cursor}
    (h : Stands start stop first c) : Ensures (declarators g inWord start first) c (Stands start stop) := by
  obtain ⟨hfirst, hc⟩ := h
  apply ((reads_declarator hg inWord).yields_when (leads_sign? _)).lists.bind
  intro ns d hns hd
  exact ensures_node (by decide) (chained_cons.2 ⟨hc.1, hfirst, hns.mono (by omega)⟩) (by omega)

theorem reads_declaration : Reads (declaration g) := by
  intro c
  apply here_bind
  apply reads_anyWord.bind
  intro _ d _ hd
  apply (reads_declarator hg true).bind
  intro first e hfirst he
  exact ensures_terminated (ensures_declarators hg true ⟨hfirst, by omega⟩)

section Keyword

variable {start stop : Nat} {c : Cursor}

theorem ensures_ifStatement (hc : start ≤ c.pos ∧ c.stop = stop) :
    Ensures (ifStatement g start) c (Stands start stop) := by
  apply (reads_condition hg).bind
  intro test d htest hd
  apply (hg _).bind
  intro body e hbody he
  apply here_bind
  apply (takes_word? _ e).bind
  rintro b f ⟨hf, hb⟩
  split
  · next h =>
    have := hb h
    apply (hg _).bind
    intro other f' hother hf'
    apply node_bind (by decide) (chained_singleton hother (by omega))
    intro n hn hn'
    exact ensures_node (by decide) (chained_cons.2 ⟨by omega, htest, chained_pair hbody hn (by omega)⟩) (by omega)
  · exact ensures_node (by decide) (chained_pair htest hbody (by omega)) (by omega)

theorem ensures_forEach {before : List Node} (hbefore : Chained start c.pos before)
    (hc : c.stop = stop) : Ensures (forEach g start before) c (Stands start stop) := by
  have hle := hbefore.le
  have hrest : ∀ d, c.Leads d → Ensures (do
      let subject ← expressions g true
      sign ")"
      let body ← g .statement
      node .other start (before ++ [subject, body])) d (Stands start stop) := by
    intro d hd
    apply (reads_expressions hg _).bind
    intro subject e hsubject he
    apply (passes_sign _).bind
    intro _ f hf
    apply (hg _).bind
    intro body f' hbody hf'
    exact ensures_node (by decide) (hbefore.append (chained_pair hsubject hbody (by omega))) (by omega)
  apply (leads_word? _).bind
  intro b d hd
  dsimp only
  apply ensures_ite _ (hrest d hd)
  apply (passes_word _).bind
  intro _ e he
  exact hrest e (by omega)

theorem ensures_forCount {before : List Node} (hbefore : Chained start c.pos before)
    (hc : c.stop = stop) : Ensures (forCount g start before) c (Stands start stop) := by
  have hle := hbefore.le
  apply (passes_sign _).bind
  intro _ d hd
  apply (stays_isNext _).bind
  intro b
  apply (reads_expressions hg _).bind_unless
  intro test e htest he
  apply (passes_sign _).bind
  intro _ f hf
  apply (stays_isNext _).bind
  intro b'
  apply (reads_expressions hg _).bind_unless
  intro next d' hnext hd'
  apply (passes_sign _).bind
  intro _ e' he'
  apply (hg _).bind
  intro body f' hbody hf'
  have htests : Chained start e.pos (before ++ test) := hbefore.append (htest.mono (by omega))
  have hparts : Chained start d'.pos (before ++ test ++ next) := htests.append (hnext.mono (by omega))
  exact ensures_node (by decide) (hparts.append (chained_singleton hbody (by omega))) (by omega)

theorem ensures_forStatement (hc : start ≤ c.pos ∧ c.stop = stop) :
    Ensures (forStatement g start) c (Stands start stop) := by
  apply (leads_word? _).bind
  intro eachOnly d hd
  apply (passes_sign _).bind
  intro _ e he
  apply (stays_isNext _).bind
  intro b
  apply ensures_ite (ensures_forCount hg (chained_nil.2 (by omega)) (by omega))
  apply stays_isDeclaration.bind
  intro b'
  apply ensures_ite
  · apply here_bind
    apply reads_anyWord.bind
    intro _ f _ hf
    apply (ensures_declarator hg false f).bind
    rintro first f' ⟨hkind, hfirst, hf'⟩
    have hle := hfirst.le
    have hparts := hfirst.of_other (by simp [hkind]) (by simp [hkind])
    apply stays_isForEach.bind
    intro b
    apply ensures_ite (ensures_forEach hg (hparts.mono (by omega)) (by omega))
    apply ensures_ite ensures_fail
    have hdeclared : Stands e.next stop first f' := ⟨hfirst, by omega⟩
    apply (ensures_declarators hg false hdeclared).bindNode
    intro n e' hn he'
    exact ensures_forCount hg (chained_singleton hn (by omega)) (by omega)
  · apply (reads_expressions hg _).bind
    intro first f hfirst hf
    apply stays_isForEach.bind
    intro b
    apply ensures_ite
    · dsimp only
      apply ensures_ite fail_bind
      have hstart := first.toPattern_start
      have hstop := first.toPattern_stop
      exact ensures_forEach hg (chained_singleton hfirst.toPattern (by omega)) (by omega)
    apply ensures_ite ensures_fail
    exact ensures_forCount hg (chained_singleton hfirst (by omega)) (by omega)

theorem ensures_whileStatement (hc : start ≤ c.pos ∧ c.stop = stop) :
    Ensures (whileStatement g start) c (Stands start stop) := by
  apply (reads_condition hg).bind
  intro test d htest hd
  apply (hg _).bind
  intro body e hbody he
  exact ensures_node (by decide) (chained_pair htest hbody (by omega)) (by omega)

theorem ensures_doStatement (hc : start ≤ c.pos ∧ c.stop = stop) :
    Ensures (doStatement g start) c (Stands start stop) := by
  apply (hg _).bind
  intro body d hbody hd
  apply (passes_word _).bind
  intro _ e he
  apply (reads_condition hg).bind
  intro test f htest hf
  apply (leads_sign? _).bind
  intro _ f' hf'
  exact ensures_node (by decide) (chained_pair hbody htest (by omega)) (by omega)

theorem reads_catchClause : Reads (catchClause g) := by
  intro c
  have hbody : ∀ param d, Chained c.next d.pos param → d.stop = c.stop → Ensures (do
      let body ← block g
      node .other c.next (param ++ [body])) d (Stands c.next c.stop) := by
    intro param d hparam hd
    apply (reads_block hg).bind
    intro body e hbody he
    exact ensures_node (by decide) (hparam.append (chained_singleton hbody (by omega))) (by omega)
  apply here_bind
  apply (passes_word _).bind
  intro _ d hd
  apply (leads_sign? _).bind
  intro b e he
  dsimp only
  apply ensures_ite
  · apply (hg _).bind
    intro n f hn hf
    apply (passes_sign _).bind
    intro _ f' hf'
    rw [pure_bind]
    exact hbody _ f' (chained_singleton hn (by omega)) (by omega)
  · rw [pure_bind]
    exact hbody _ e (chained_nil.2 (by omega)) (by omega)

theorem reads_finallyClause : Reads (finallyClause g) := by
  intro c
  apply here_bind
  apply (passes_word _).bind
  intro _ d hd
  apply (reads_block hg).bind
  intro body e hbody he
  exact ensures_node (by decide) (chained_singleton hbody (by omega)) (by omega)

theorem ensures_tryStatement (hc : start ≤ c.pos ∧ c.stop = stop) :
    Ensures (tryStatement g start) c (Stands start stop) := by
  apply (reads_block hg).bind
  intro body d hbody hd
  apply (stays_isNextWord _).bind
  intro b
  apply (reads_catchClause hg).bind_when
  intro handler e hhandler he
  apply (stays_isNextWord _).bind
  intro b'
  apply (reads_finallyClause hg).bind_when
  intro finalizer f hfinalizer hf
  dsimp only
  apply ensures_ite fail_bind
  refine ensures_node (by decide) (chained_cons.2 ⟨by omega, hbody, ?_⟩) (by omega)
  exact (hhandler.mono (by omega)).append hfinalizer

theorem reads_switchClause : Reads (switchClause g) := by
  have hitem : Yields (fun n => [n]) (do
      if (← isNext "\x7d") || (← isNextWord "case") || (← isNextWord "default") then return none
      else return some (← g .statement)) := by
    intro c
    apply (stays_isNext _).bind
    intro b
    apply (stays_isNextWord _).bind
    intro b'
    apply (stays_isNextWord _).bind
    intro b''
    exact ensures_ite (yields_none c) ((hg _).yields c)
  intro c
  have hbody : ∀ test d, Chained c.next d.pos test → d.stop = c.stop → Ensures (do
      sign ":"
      let body ← many do
        if (← isNext "\x7d") || (← isNextWord "case") || (← isNextWord "default") then return none
        else return some (← g .statement)
      node .other c.next (test ++ body)) d (Stands c.next c.stop) := by
    intro test d htest hd
    apply (passes_sign _).bind
    intro _ e he
    apply hitem.lists.bind
    intro body f hbody hf
    exact ensures_node (by decide) (htest.append (hbody.mono (by omega))) (by omega)
  apply here_bind
  apply (takes_word? _ c).bind
  rintro b d ⟨hd, hb⟩
  dsimp only
  split
  · next h =>
    have := hb h
    rw [pure_bind]
    exact hbody _ d (chained_nil.2 (by omega)) (by omega)
  · apply (passes_word _).bind
    intro _ e he
    apply (reads_expressions hg _).bind
    intro n f hn hf
    rw [pure_bind]
    exact hbody _ f (chained_singleton hn (by omega)) (by omega)

theorem ensures_switchStatement (hc : start ≤ c.pos ∧ c.stop = stop) :
    Ensures (switchStatement g start) c (Stands start stop) := by
  apply (reads_condition hg).bind
  intro subject d hsubject hd
  apply here_bind
  apply (passes_sign _).bind
  intro _ e he
  apply ((reads_switchClause hg).yields_unless (stays_isNext _)).lists.bind
  intro clauses f hclauses hf
  apply (passes_sign _).bind
  intro _ f' hf'
  apply node_bind (by decide) (hclauses.mono (by omega))
  intro body hbody hbody'
  exact ensures_node (by decide) (chained_pair hsubject hbody (by omega)) (by omega)

theorem ensures_returnStatement (hc : start ≤ c.pos ∧ c.stop = stop) :
    Ensures (returnStatement g start) c (Stands start stop) := by
  apply stays_newlineAhead.bind
  intro bare
  apply stays_peek.bind
  intro s
  apply (reads_expressions hg _).bind_unless
  intro value d hvalue hd
  exact ensures_terminated (ensures_node (by decide) (hvalue.mono (by omega)) (by omega))

theorem ensures_throwStatement (hc : start ≤ c.pos ∧ c.stop = stop) :
    Ensures (throwStatement g start) c (Stands start stop) := by
  apply stays_newlineAhead.bind
  intro b
  dsimp only
  apply ensures_ite fail_bind
  apply (reads_expressions hg _).bind
  intro value d hvalue hd
  exact ensures_terminated (ensures_node (by decide) (chained_singleton hvalue (by omega)) (by omega))

end Keyword

theorem reads_expressionStatement : Reads (expressionStatement g) := by
  intro c
  apply here_bind
  apply (reads_expressions hg _).bind
  intro n d hn hd
  exact ensures_terminated (ensures_node (by decide) (chained_singleton hn (by omega)) (by omega))

theorem lists_source : Lists (source g) := by
  intro c
  apply reads_stringLiteral.bind
  intro s d hs hd
  apply here_bind
  apply (leads_word? _).bind
  intro b e he
  apply (leads_word? _).bind
  intro b' f hf
  apply ensures_ite
  · apply (reads_objectLiteral hg).bind
    intro attributes f' hattributes hf'
    apply node_bind (by decide) (chained_singleton hattributes (by omega))
    intro n hn hn'
    exact ensures_pure ⟨chained_pair hs hn (by omega), by omega⟩
  · exact ensures_pure ⟨chained_singleton hs (by omega), by omega⟩

theorem reads_importStatement : Reads (importStatement g) := by
  intro c
  apply here_bind
  apply (passes_word _).bind
  intro _ d hd
  have hend : ∀ parts e, Chained d.pos e.pos parts → e.stop = d.stop → Ensures (do
      let n ← node .importStatement c.next parts
      terminator
      return n) e (Stands c.next c.stop) := by
    intro parts e hparts he
    exact ensures_terminated (ensures_node (by decide) (hparts.mono (by omega)) (by omega))
  apply ahead_bind
  intro s hs
  dsimp only
  apply ensures_ite
  · apply (lists_source hg d).bind
    rintro parts e ⟨hparts, he⟩
    exact hend parts e hparts he
  · apply reads_importClause.bind
    intro clause e hclause he
    apply (passes_word _).bind
    intro _ f hf
    apply (lists_source hg).bind
    intro parts f' hparts hf'
    rw [pure_bind]
    exact hend _ f' (chained_cons.2 ⟨by omega, hclause, hparts.mono (by omega)⟩) (by omega)

theorem lists_exportNames : Lists (exportNames g) := by
  intro c
  apply here_bind
  apply (takes_sign? _ c).bind
  rintro b d ⟨hd, hb⟩
  split
  · next h =>
    have := hb h
    have hfrom : ∀ names e, Chained c.pos e.pos names → e.stop = c.stop → Ensures (do
        word "from"
        return names ++ (← source g)) e fun ns f => Chained c.pos f.pos ns ∧ f.stop = c.stop := by
      intro names e hnames he
      apply (passes_word _).bind
      intro _ f hf
      apply (lists_source hg).bind
      intro parts f' hparts hf'
      exact ensures_pure ⟨hnames.append (hparts.mono (by omega)), by omega⟩
    apply (leads_word? _).bind
    intro b' e he
    dsimp only
    apply ensures_ite
    · apply reads_moduleName.bind
      intro n f hn hf
      apply node_bind (by decide) (chained_singleton hn (by omega))
      intro m hm hm'
      rw [pure_bind]
      exact hfrom _ f (chained_singleton hm (by omega)) (by omega)
    · rw [pure_bind]
      exact hfrom _ e (chained_nil.2 (by omega)) (by omega)
  · apply (reads_specifiers false).bind
    intro names e hnames he
    apply (leads_word? _).bind
    intro b' f hf
    apply ensures_ite
    · apply (lists_source hg).bind
      intro parts f' hparts hf'
      exact ensures_pure ⟨chained_cons.2 ⟨by omega, hnames, hparts.mono (by omega)⟩, by omega⟩
    · exact ensures_pure ⟨chained_singleton hnames (by omega), by omega⟩

theorem lists_exportDefault : Lists (exportDefault g) := by
  intro c
  apply (stays_isNextWord _).bind
  intro b
  apply stays_isAsyncFunction.bind
  intro b'
  apply ensures_ite ((reads_functionExpression hg false).lists c)
  apply (stays_isNextWord _).bind
  intro b
  apply (stays_isNext _).bind
  intro b'
  apply ensures_ite ((reads_classExpression hg false).lists c)
  apply (hg _).bind
  intro n d hn hd
  apply leads_terminator.bind
  intro _ e he
  exact ensures_pure ⟨chained_singleton hn (by omega), by omega⟩

theorem reads_exportStatement : Reads (exportStatement g) := by
  intro c
  apply here_bind
  apply (passes_word _).bind
  intro _ d hd
  apply (leads_word? _).bind
  intro b e he
  apply ensures_ite
  · apply (lists_exportDefault hg).bind
    intro ns f hns hf
    exact ensures_node (by decide) (hns.mono (by omega)) (by omega)
  apply (stays_isNext _).bind
  intro b'
  apply (stays_isNext _).bind
  intro b''
  apply ensures_ite
  · apply (lists_exportNames hg).bind
    intro ns f hns hf
    exact ensures_terminated (ensures_node (by decide) (hns.mono (by omega)) (by omega))
  apply stays_isDeclaration.bind
  intro b
  apply (stays_isNextWord _).bind
  intro b
  apply (stays_isNextWord _).bind
  intro b
  apply (stays_isNext _).bind
  intro b
  apply stays_isAsyncFunction.bind
  intro b
  apply ensures_ite _ ensures_fail
  apply (hg _).bind
  intro n f hn hf
  exact ensures_node (by decide) (chained_singleton hn (by omega)) (by omega)

theorem reads_labelledStatement : Reads (labelledStatement g) := by
  intro c
  apply reads_name.bind
  intro label d hlabel hd
  apply (passes_sign _).bind
  intro _ e he
  apply (hg _).bind
  intro body f hbody hf
  exact ensures_node (by decide) (chained_pair hlabel hbody (by omega)) (by omega)

theorem ensures_keywordStatement {w : String} {start stop : Nat} {p : Parser Node}
    (hp : keywordStatement? g w start = some p) {c : Cursor} (hc : start ≤ c.pos ∧ c.stop = stop) :
    Ensures p c (Stands start stop) := by
  unfold keywordStatement? at hp
  split at hp <;> cases hp
  · exact ensures_ifStatement hg hc
  · exact ensures_forStatement hg hc
  · exact ensures_whileStatement hg hc
  · exact ensures_whileStatement hg hc
  · exact ensures_doStatement hg hc
  · exact ensures_tryStatement hg hc
  · exact ensures_switchStatement hg hc
  · exact ensures_jumpStatement hc
  · exact ensures_jumpStatement hc
  · exact ensures_returnStatement hg hc
  · exact ensures_throwStatement hg hc
  · exact ensures_terminated (ensures_leaf (by decide) (by omega))

theorem reads_statement : Reads (statement g) := by
  intro c
  apply here_bind
  apply stays_peek.bind
  intro s
  apply stays_peekWord.bind
  intro w
  apply ensures_ite (reads_block hg c)
  apply ensures_ite
  · apply (passes_sign _).bind
    intro _ d hd
    exact ensures_leaf (by decide) (by omega)
  apply stays_isDeclaration.bind
  intro b
  apply ensures_ite (reads_declaration hg c)
  apply stays_isAsyncFunction.bind
  intro b
  apply ensures_ite (reads_functionExpression hg true c)
  apply ensures_ite
  · apply (ensures_decorators hg c).bind
    rintro marks d ⟨hmarks, hd⟩
    apply (stays_isNextWord _).bind
    intro b
    apply ensures_ite _ (ensures_classRest hg true hmarks (by omega))
    apply (reads_exportStatement hg).bind
    intro n e hn he
    exact ensures_node (by decide) (hmarks.append (chained_singleton hn (by omega))) (by omega)
  apply ensures_ite (reads_exportStatement hg c)
  apply (stays_lookahead _).bind
  intro b
  apply ensures_ite (reads_importStatement hg c)
  split
  · next p hp =>
    apply (passes_word _).bind
    intro _ d hd
    exact ensures_keywordStatement hg hp (by omega)
  · apply (stays_lookahead _).bind
    intro b
    exact ensures_ite (reads_labelledStatement hg c) (reads_expressionStatement hg c)

end ShortClass.Program.Grammar
