import ShortClass.Proofs.Program.NodeShapes

namespace ShortClass.Program

namespace Grammar

open ShortClass.Program.Parser

theorem shapes_privateName : Gives Node.Shaped privateName :=
  gives_then fun _ => gives_then fun _ => gives_then fun _ =>
    gives_ite (gives_then fun _ => gives_then fun _ => gives_leaf rfl) (gives_then fun _ => gives_leaf rfl)

theorem shapes_attributeName : Gives Node.Shaped attributeName :=
  gives_then fun _ => gives_then fun _ => gives_then fun _ =>
    gives_ite (gives_then fun _ => gives_then fun _ => gives_leaf rfl) (gives_leaf rfl)

theorem shapes_closingTag : Gives Node.Shaped closingTag :=
  gives_then fun _ => gives_then fun _ => gives_then fun _ => gives_then fun _ =>
    gives_ite (gives_then fun _ => gives_then fun _ => gives_leaf rfl) (gives_then fun _ => gives_leaf rfl)

theorem shapes_importExpression : Gives Node.Shaped importExpression :=
  gives_then fun _ => gives_then fun _ => gives_then fun _ => gives_ite (gives_then fun _ => gives_leaf rfl)
    (gives_then fun _ => gives_ite (gives_leaf rfl) gives_fail)

theorem shapes_regexLiteral : Gives Node.Shaped regexLiteral := by
  refine gives_then fun _ => gives_then fun _ => gives_then fun s => ?_
  split
  · exact gives_then fun _ => gives_leaf rfl
  · exact gives_fail

theorem shapes_property : Gives Node.Shaped property :=
  gives_then fun _ => gives_ite shapes_privateName shapes_anyWord

theorem shapes_moduleName : Gives Node.Shaped moduleName :=
  gives_then fun _ => gives_ite shapes_stringLiteral shapes_anyWord

theorem shapes_specifier (isImport : Bool) : Gives Node.Shaped (specifier isImport) :=
  gives_then fun _ => shapes_moduleName.bind fun _ hn => gives_then fun _ => gives_ite
    (gives_ite (shapes_name.bind fun _ hm => gives_node rfl (by simp [hn, hm]))
      (shapes_moduleName.bind fun _ hm => gives_node rfl (by simp [hn, hm])))
    (gives_ite gives_fail (gives_node rfl (by simp [hn])))

theorem shapes_specifiers (isImport : Bool) : Gives Node.Shaped (specifiers isImport) :=
  gives_then fun _ => gives_then fun _ =>
    .bind (shapes_commaList _ (shapes_specifier isImport).map_some) fun _ hns => gives_node rfl hns

theorem shapes_importNames : Gives AllShaped importNames :=
  gives_then fun _ => gives_then fun _ => gives_ite
    (gives_then fun _ => gives_then fun _ => (gives_leaf rfl).bind fun _ hn => gives_pure (by simp [hn]))
    ((shapes_specifiers true).bind fun _ hn => gives_pure (by simp [hn]))

theorem shapes_importClause : Gives Node.Shaped importClause :=
  gives_then fun _ => gives_then fun _ => gives_ite
    (shapes_name.bind fun _ hn => gives_then fun _ =>
      .bind_ite shapes_importNames (gives_pure allShaped_nil) fun _ hns => gives_node rfl (by simp [hn, hns]))
    (shapes_importNames.bind fun _ hns => gives_node rfl hns)

theorem shapes_jumpStatement (start : Nat) : Gives Node.Shaped (jumpStatement start) :=
  gives_then fun _ => gives_then fun _ => gives_ite
    (gives_then fun _ => .bind (gives_leaf rfl) fun _ hn => gives_then fun _ => gives_pure hn)
    (.bind (gives_leaf rfl) fun _ hn => gives_then fun _ => gives_pure hn)

variable {g : Grammar} (hg : ∀ n, Gives Node.Shaped (g n))

include hg

section Binding

theorem shapes_propertyName : Gives Node.Shaped (propertyName g) := by
  refine gives_then fun _ => gives_then fun s => ?_
  split
  · exact gives_fail
  · exact gives_ite shapes_stringLiteral (gives_ite shapes_numberLiteral (gives_ite shapes_privateName
      (gives_ite (gives_then fun _ => (hg _).bind fun _ hn => gives_then fun _ => gives_node rfl (by simp [hn]))
        shapes_anyWord)))

theorem shapes_bindingElement : Gives Node.Shaped (bindingElement g) :=
  (hg _).bind fun _ hn => gives_then fun _ =>
    gives_ite ((hg _).bind fun _ hm => gives_node rfl (by simp [hn, hm])) (gives_pure hn)

theorem shapes_restElement : Gives Node.Shaped (restElement g) :=
  gives_then fun _ => gives_then fun _ => (hg _).bind fun _ hn => gives_node rfl (by simp [hn])

theorem shapes_propertyBinding : Gives Node.Shaped (propertyBinding g) :=
  gives_then fun _ => gives_ite (shapes_restElement hg)
    (gives_then fun _ => (shapes_propertyName hg).bind fun _ hn => gives_then fun _ => gives_ite
      ((shapes_bindingElement hg).bind fun _ hm => gives_node rfl (by simp [hn, hm]))
      (gives_ite gives_fail (gives_then fun _ => gives_ite
        ((hg _).bind fun _ hm => gives_node rfl (by simp [hn, hm])) (gives_pure hn))))

theorem shapes_binding : Gives Node.Shaped (binding g) :=
  gives_then fun _ => gives_then fun _ => gives_ite
    (.bind (shapes_commaList _ (gives_then fun _ => gives_ite gives_none
      (gives_then fun _ => gives_ite (shapes_restElement hg).some (shapes_bindingElement hg).some)))
      fun _ hns => gives_node rfl hns)
    (gives_then fun _ => gives_ite
      (.bind (shapes_commaList _ (shapes_propertyBinding hg).map_some) fun _ hns => gives_node rfl hns) shapes_name)

theorem shapes_parameters : Gives Node.Shaped (parameters g) :=
  gives_then fun _ => gives_then fun _ =>
    .bind (shapes_commaList _ (gives_then fun _ => gives_ite (shapes_restElement hg).some
      (shapes_bindingElement hg).some)) fun _ hns => gives_node rfl hns

end Binding

section Callable

theorem shapes_statementList : Gives AllShaped (statementList g) :=
  .many (gives_then fun _ => gives_ite gives_none (hg _).some)

theorem shapes_block : Gives Node.Shaped (block g) :=
  gives_then fun _ => gives_then fun _ => (shapes_statementList hg).bind fun _ hns => gives_then fun _ =>
    gives_node rfl hns

theorem shapes_callable (start : Nat) {before : List Node} (hbefore : AllShaped before) :
    Gives Node.Shaped (callable g start before) :=
  (shapes_parameters hg).bind fun _ hps => (shapes_block hg).bind fun _ hbody =>
    gives_node rfl (by simp [hbefore, hps, hbody])

theorem shapes_function (start : Nat) (named : Bool) : Gives Node.Shaped (function g start named) :=
  have hrest := shapes_callable hg start allShaped_nil
  gives_then fun _ => gives_then fun _ => gives_then fun _ =>
    gives_ite (gives_then fun _ => hrest) (gives_ite (gives_then fun _ => hrest) hrest)

theorem shapes_functionExpression (named : Bool) : Gives Node.Shaped (functionExpression g named) :=
  gives_then fun start => gives_then fun _ => shapes_function hg start named

theorem shapes_decorators : Gives AllShaped (decorators g) :=
  .many (gives_then fun _ => gives_then fun _ => gives_ite
    ((hg _).bind fun _ hn => .bind (gives_node rfl (by simp [hn])) fun _ hm => gives_some hm) gives_none)

theorem shapes_classMember : Gives Node.Shaped (classMember g) := by
  refine gives_then fun start => (shapes_decorators hg).bind fun marks hmarks => gives_then fun _ => gives_then fun _ =>
    gives_ite ((shapes_block hg).bind fun _ hn => gives_node rfl (by simp [hn])) (gives_then fun _ => ?_)
  have hmember (method : Bool) : Gives Node.Shaped (do
      let key ← propertyName g
      if method || (← isNext "(") then callable g start (marks ++ [key])
      else
        let value ← if ← sign? "=" then pure [← g (.expression true)] else pure []
        let member ← node .other start (marks ++ key :: value)
        terminator
        return member) :=
    (shapes_propertyName hg).bind fun _ hkey => gives_then fun _ => gives_ite
      (shapes_callable hg start (by simp [hmarks, hkey]))
      (gives_then fun _ => .bind_when (hg _) fun _ hns => .bind (gives_node rfl (by simp [hmarks, hkey, hns]))
        fun _ hm => gives_then fun _ => gives_pure hm)
  exact gives_ite (gives_then hmember) (gives_then hmember)

theorem shapes_classBody : Gives Node.Shaped (classBody g) := by
  have hmembers : Gives (fun os => ∀ o ∈ os, ∀ n ∈ o, Node.Shaped n) (many do
      if ← isNext "\x7d" then return none
      else if ← sign? ";" then return some none
      else return some (some (← classMember g))) :=
    .many (gives_then fun _ => gives_ite gives_none (gives_then fun _ => gives_ite (gives_some (by simp))
      ((shapes_classMember hg).bind fun _ hn => gives_some (by simpa using hn))))
  exact gives_then fun _ => gives_then fun _ => hmembers.bind fun _ hos => gives_then fun _ =>
    gives_node rfl (allShaped_filterMap hos)

theorem shapes_classRest (start : Nat) {marks : List Node} (hmarks : AllShaped marks) (named : Bool) :
    Gives Node.Shaped (classRest g start marks named) := by
  have hbody (heritage : List Node) (hns : AllShaped heritage) : Gives Node.Shaped (do
      let body ← classBody g
      node .other start (marks ++ heritage ++ [body])) :=
    (shapes_classBody hg).bind fun _ hbody => gives_node rfl (by simp [hmarks, hns, hbody])
  have hrest : Gives Node.Shaped (do
      let heritageStart ← here
      let heritage ← if ← word? "extends" then
          let e ← g (.callee true)
          pure [← node .other heritageStart [e]]
        else pure []
      let body ← classBody g
      node .other start (marks ++ heritage ++ [body])) :=
    gives_then fun _ => gives_then fun _ => gives_ite
      ((hg _).bind fun _ hn => .bind_singleton (gives_node rfl (by simp [hn])) hbody)
      ((gives_pure allShaped_nil).bind hbody)
  exact gives_then fun _ => gives_then fun _ => gives_then fun _ =>
    gives_ite (gives_then fun _ => hrest) (gives_ite (gives_then fun _ => hrest) hrest)

theorem shapes_classExpression (named : Bool) : Gives Node.Shaped (classExpression g named) :=
  gives_then fun start => (shapes_decorators hg).bind fun _ hmarks => shapes_classRest hg start hmarks named

end Callable

section Markup

theorem shapes_expressions (inWord : Bool) : Gives Node.Shaped (expressions g inWord) :=
  (hg _).bind fun _ hn => gives_then fun _ => gives_ite
    (.bind (.many (gives_then fun _ => gives_ite (hg _).some gives_none)) fun _ hns =>
      gives_node rfl (allShaped_cons.2 ⟨hn, hns⟩))
    (gives_pure hn)

theorem shapes_spread : Gives Node.Shaped (spread g) :=
  gives_then fun _ => gives_then fun _ => (hg _).bind fun _ hn => gives_node rfl (by simp [hn])

theorem shapes_markupExpression : Gives Node.Shaped (markupExpression g) := by
  have hinner (start : Nat) (ns : List Node) (hns : AllShaped ns) : Gives Node.Shaped (do
      sign "\x7d"
      node .other start ns) := gives_then fun _ => gives_node rfl hns
  exact gives_then fun _ => gives_then fun _ => gives_then fun _ => gives_then fun _ => gives_ite
    ((gives_pure allShaped_nil).bind (hinner _))
    (gives_ite ((shapes_spread hg).bind_singleton (hinner _)) ((shapes_expressions hg _).bind_singleton (hinner _)))

theorem shapes_attributeValue : Gives Node.Shaped (attributeValue g) := by
  refine gives_then fun _ => gives_then fun s => ?_
  split
  · exact gives_fail
  · exact gives_ite
      (gives_ite (gives_then fun _ => gives_then fun _ => gives_leaf rfl) (gives_then fun _ => gives_leaf rfl))
      (gives_ite (shapes_markupExpression hg) (hg _))

theorem shapes_markupAttribute : Gives Node.Shaped (markupAttribute g) :=
  gives_then fun _ => gives_ite (shapes_markupExpression hg)
    (gives_then fun _ => shapes_attributeName.bind fun _ hn => gives_then fun _ => gives_ite
      (gives_then fun _ => (shapes_attributeValue hg).bind fun _ hm => gives_node rfl (by simp [hn, hm]))
      (gives_node rfl (by simp [hn])))

theorem shapes_elementChild : Gives (fun o => ∀ p ∈ o, ∀ n ∈ p, Node.Shaped n) (elementChild g) := by
  refine gives_then fun c => ?_
  split
  · exact gives_fail
  · exact gives_ite ((shapes_markupExpression hg).bind fun _ hn => gives_some (by simpa using hn))
      (gives_ite (gives_then fun _ => gives_ite gives_none ((hg _).bind fun _ hn => gives_some (by simpa using hn)))
        (gives_ite gives_fail (gives_then fun _ => gives_some (by simp))))

theorem shapes_element : Gives Node.Shaped (element g) := by
  have hrest (start : Nat) (attributes : List Node) (hns : AllShaped attributes) : Gives Node.Shaped (do
      if ← isNextChar '/' then
        char '/'
        char '>'
        node .other start attributes
      else
        char '>'
        let opening ← node .other start attributes
        let children ← many (elementChild g)
        let closing ← closingTag
        node .other start (opening :: children.filterMap id ++ [closing])) :=
    gives_then fun _ => gives_ite (gives_then fun _ => gives_then fun _ => gives_node rfl hns)
      (gives_then fun _ => .bind (gives_node rfl hns) fun _ hn => (shapes_elementChild hg).many.bind fun _ hos =>
        shapes_closingTag.bind fun _ hm => gives_node rfl
          (allShaped_append.2 ⟨allShaped_cons.2 ⟨hn, allShaped_filterMap hos⟩, by simp [hm]⟩))
  exact gives_then fun _ => gives_then fun _ => gives_then fun _ => gives_ite
    ((gives_pure allShaped_nil).bind (hrest _))
    (gives_then fun _ => .bind (.many (gives_then fun _ => gives_then fun _ => gives_ite gives_none
      (shapes_markupAttribute hg).some)) (hrest _))

end Markup

section Expression

theorem shapes_interpolation : Gives (fun o => ∀ n ∈ o, Node.Shaped n) (interpolation g) := by
  refine gives_then fun c => ?_
  split
  · exact gives_fail
  · exact gives_then fun _ => gives_then fun _ => gives_ite
      (gives_then fun _ => (shapes_expressions hg _).bind fun _ hn => gives_then fun _ =>
        .bind (gives_node rfl (by simp [hn])) fun _ hm => gives_some hm)
      gives_none

theorem shapes_template : Gives Node.Shaped (template g) :=
  gives_then fun _ => gives_then fun _ => (shapes_interpolation hg).many.bind fun _ hns => gives_then fun _ =>
    gives_node rfl hns

theorem shapes_arrayLiteral : Gives Node.Shaped (arrayLiteral g) :=
  gives_then fun _ => gives_then fun _ =>
    .bind (shapes_commaList _ (gives_then fun _ => gives_ite gives_none
      (gives_then fun _ => gives_ite (shapes_spread hg).some (hg _).some))) fun _ hns => gives_node rfl hns

theorem shapes_propertyDefinition : Gives Node.Shaped (propertyDefinition g) :=
  gives_then fun _ => gives_ite (shapes_spread hg)
    (gives_then fun start => gives_then fun _ => gives_then fun _ => (shapes_propertyName hg).bind fun _ hn =>
      gives_then fun _ => gives_ite (shapes_callable hg start (by simp [hn])) (gives_then fun _ => gives_ite
        ((hg _).bind fun _ hm => gives_node rfl (by simp [hn, hm]))
        (gives_ite gives_fail (gives_then fun _ => gives_ite
          ((hg _).bind fun _ hm => gives_node rfl (by simp [hn, hm])) (gives_pure hn)))))

theorem shapes_objectLiteral : Gives Node.Shaped (objectLiteral g) :=
  gives_then fun _ => gives_then fun _ =>
    .bind (shapes_commaList _ (shapes_propertyDefinition hg).map_some) fun _ hns => gives_node rfl hns

theorem shapes_parenthesized : Gives Node.Shaped (parenthesized g) := by
  refine gives_then fun _ => gives_then fun _ => .bind (.many (P := fun i => Node.Shaped i.1) ?_) fun items hitems =>
    gives_then fun _ => gives_then fun _ => ?_
  · refine gives_then fun _ => gives_ite gives_none (gives_then fun _ => .bind_ite (shapes_spread hg) (hg _)
      fun _ hn => gives_then fun _ => gives_then fun _ => ?_)
    exact gives_ite (gives_then fun _ => gives_some hn) (gives_some hn)
  · have hnodes : AllShaped (items.map (·.1)) := fun n hn => by
      obtain ⟨i, hi, rfl⟩ := List.mem_map.1 hn
      exact hitems i hi
    refine gives_ite (gives_node rfl hnodes) ?_
    split
    · exact gives_fail
    · refine gives_ite (gives_then fun _ => ?_) ?_
      all_goals
        split
        · exact gives_node_of_length (by simp [Kind.arity?]) (by simp_all)
        · exact gives_node_of_length (by simp [Kind.arity?]) (by simpa using .of_arity_none rfl hnodes)
        · exact gives_fail

theorem shapes_condition : Gives Node.Shaped (condition g) :=
  gives_then fun _ => gives_then fun _ => (shapes_expressions hg _).bind fun _ hn => gives_then fun _ =>
    gives_node_of_length (by simp [Kind.arity?]) (by simp [hn])

theorem shapes_arguments : Gives Node.Shaped (arguments g) :=
  gives_then fun _ => gives_then fun _ =>
    .bind (shapes_commaList _ (gives_then fun _ => gives_ite (shapes_spread hg).some (hg _).some)) fun _ hns =>
      gives_node rfl hns

theorem shapes_newExpression : Gives Node.Shaped (newExpression g) :=
  gives_then fun _ => gives_then fun _ => gives_then fun _ => gives_ite (gives_then fun _ => gives_leaf rfl)
    ((hg _).bind fun _ hn => gives_then fun _ => gives_ite
      ((shapes_arguments hg).bind fun _ hm => gives_node rfl (by simp [hn, hm])) (gives_node rfl (by simp [hn])))

theorem shapes_primary : Gives Node.Shaped (primary g) := by
  refine gives_then fun s => ?_
  split
  · exact gives_fail
  · have hname : Gives Node.Shaped (do
        return (← anyWord).withKind .other) := shapes_anyWord.bind fun _ hn => gives_pure (hn.withKind rfl)
    exact gives_ite shapes_stringLiteral (gives_ite (shapes_template hg) (gives_ite shapes_numberLiteral
      (gives_ite (shapes_parenthesized hg) (gives_ite (shapes_arrayLiteral hg) (gives_ite (shapes_objectLiteral hg)
        (gives_ite shapes_regexLiteral (gives_ite (hg _) (gives_ite shapes_privateName
          (gives_ite (shapes_classExpression hg _) (gives_then fun _ => gives_ite (shapes_functionExpression hg _)
            (gives_ite (shapes_classExpression hg _) (gives_ite (shapes_newExpression hg)
              (gives_ite shapes_importExpression (gives_then fun _ => gives_ite (shapes_functionExpression hg _)
                (gives_ite hname shapes_name)))))))))))))))

theorem shapes_subscript {object : Node} (h : object.Shaped) : Gives Node.Shaped (subscript g object) :=
  gives_then fun _ => (shapes_expressions hg _).bind fun _ hn => gives_then fun _ => gives_node rfl (by simp [h, hn])

theorem shapes_access (calls : Bool) {n : Node} (h : n.Shaped) :
    Gives (fun o => ∀ m ∈ o, Node.Shaped m) (access g calls n) := by
  have hmember : Gives (fun o => ∀ m ∈ o, Node.Shaped m) (do
      let p ← property
      return some (← node .member n.start [n, p])) :=
    shapes_property.bind fun _ hm => .bind (gives_node rfl (by simp [h, hm])) fun _ hr => gives_some hr
  have hcall : Gives (fun o => ∀ m ∈ o, Node.Shaped m) (do
      let args ← arguments g
      return some (← node .call n.start [n, args])) :=
    (shapes_arguments hg).bind fun _ hm => .bind (gives_node rfl (by simp [h, hm])) fun _ hr => gives_some hr
  refine gives_then fun s => ?_
  split
  · exact gives_then fun _ => hmember
  · refine gives_ite gives_none (gives_then fun _ => gives_then fun t => ?_)
    split
    · exact hcall
    · exact (shapes_subscript hg h).some
    · exact hmember
  · exact (shapes_subscript hg h).some
  · exact gives_ite gives_none hcall
  · exact (shapes_template hg).bind fun _ hm => .bind (gives_node rfl (by simp [h, hm])) fun _ hr => gives_some hr
  · exact gives_none

theorem shapes_callee (calls : Bool) : Gives Node.Shaped (callee g calls) :=
  (shapes_primary hg).bind fun _ hn => gives_ite (gives_pure hn) (.extend hn fun _ hm => shapes_access hg calls hm)

theorem shapes_unary : Gives Node.Shaped (unary g) := by
  have hoperand (start : Nat) : Gives Node.Shaped (do
      let e ← callee g true
      if ← newlineAhead then return e
      let p ← peek
      if p = "++" ∨ p = "--" then
        sign p
        node .other start [e]
      else return e) :=
    (shapes_callee hg true).bind fun _ hn => gives_then fun _ => gives_ite (gives_pure hn)
      (gives_then fun _ => gives_ite (gives_then fun _ => gives_node rfl (by simp [hn])) (gives_pure hn))
  exact gives_then fun start => gives_then fun _ => gives_then fun _ =>
    gives_ite (gives_then fun _ => (hg _).bind fun _ hn => gives_node rfl (by simp [hn]))
      (gives_ite (gives_then fun _ => (hg _).bind fun _ hn => gives_node rfl (by simp [hn]))
        (gives_ite (.orElse (gives_then fun _ => (hg _).bind fun _ hn => gives_node rfl (by simp [hn]))
          (hoperand start)) (hoperand start)))

theorem shapes_operationBy (level : Nat) (inWord : Bool) {left : Node} (h : left.Shaped) (op : String) :
    Gives (fun o => ∀ n ∈ o, Node.Shaped n) (operationBy g level inWord left op) := by
  refine gives_ite gives_none ?_
  split
  · exact gives_none
  · refine gives_ite gives_none (gives_then fun _ => (hg _).bind fun right hright => .bind
      (gives_node_of_length ?_ (by simp [h, hright])) fun _ hn => gives_some hn)
    split <;> simp [Kind.arity?]

theorem shapes_operation (level : Nat) (inWord : Bool) {left : Node} (h : left.Shaped) :
    Gives (fun o => ∀ n ∈ o, Node.Shaped n) (operation g level inWord left) :=
  gives_then fun _ => gives_ite (gives_then fun _ => shapes_operationBy hg level inWord h _)
    (shapes_operationBy hg level inWord h _)

theorem shapes_operators (level : Nat) (inWord : Bool) : Gives Node.Shaped (operators g level inWord) :=
  (hg _).bind fun _ hn => .extend hn fun _ hm => shapes_operation hg level inWord hm

theorem shapes_arrow (inWord : Bool) (start : Nat) {params : Node} (h : params.Shaped) :
    Gives Node.Shaped (arrow g inWord start params) := by
  have hbody : Gives Node.Shaped (do
      sign "=>"
      let body ← if ← isNext "\x7b" then block g else g (.expression inWord)
      node .other start [params, body]) :=
    gives_then fun _ => gives_then fun _ => .bind_ite (shapes_block hg) (hg _) fun _ hn =>
      gives_node rfl (by simp [h, hn])
  exact gives_then fun _ => gives_ite (gives_then fun _ => hbody) hbody

theorem shapes_yieldExpression (inWord : Bool) : Gives Node.Shaped (yieldExpression g inWord) :=
  gives_then fun _ => gives_then fun _ => gives_then fun _ => gives_then fun _ => gives_ite (gives_leaf rfl)
    (gives_then fun _ => (hg _).bind fun _ hn => gives_node rfl (by simp [hn]))

theorem shapes_assignment (inWord : Bool) {left : Node} (h : left.Shaped) :
    Gives Node.Shaped (assignment g inWord left) := by
  refine gives_then fun op => gives_ite (gives_then fun _ => (hg _).bind fun _ ha => gives_then fun _ =>
    (hg _).bind fun _ hb => gives_node rfl (by simp [h, ha, hb])) (gives_ite (gives_then fun _ =>
      (hg _).bind fun value hvalue => gives_node_of_length ?_ ?_) (gives_pure h))
  · split
    · simp [Kind.arity?]
    · split <;> simp [Kind.arity?]
  · have htarget : (if op = "=" then left.toPattern else left).Shaped := by
      split
      · exact h.toPattern
      · exact h
    simp [htarget, hvalue]

theorem shapes_expression (inWord : Bool) : Gives Node.Shaped (expression g inWord) := by
  have hnamed (start : Nat) : Gives Node.Shaped (do
      let p ← name
      arrow g inWord start p) := shapes_name.bind fun _ hn => shapes_arrow hg inWord start hn
  refine gives_then fun start => gives_then fun w => gives_ite (shapes_yieldExpression hg inWord)
    (gives_then fun _ => gives_ite (gives_then fun _ => hnamed start) (gives_then fun _ => gives_ite (hnamed start)
      ((shapes_operators hg 0 inWord).bind fun left hleft => ?_)))
  have hparams {s e : Nat} {ps : List Node} (hps : AllShaped ps) :
      Gives Node.Shaped (arrow g inWord start (.mk .parameters s e (Node.toPatterns ps))) :=
    shapes_arrow hg inWord start (.of_arity_none rfl hps.toPatterns)
  split
  · exact gives_ite (gives_then fun _ => hparams hleft.children) (hparams hleft.children)
  · have hps := (allShaped_cons.1 (allShaped_cons.1 hleft.children).2).1.children
    exact gives_then fun _ => gives_ite (hparams hps) (shapes_assignment hg inWord hleft)
  · exact shapes_assignment hg inWord hleft

end Expression

section Statement

theorem shapes_declarator (inWord : Bool) : Gives Node.Shaped (declarator g inWord) :=
  (hg _).bind fun _ hn => gives_then fun _ =>
    gives_ite ((hg _).bind fun _ hm => gives_node rfl (by simp [hn, hm])) (gives_node rfl (by simp [hn]))

theorem shapes_declarators (inWord : Bool) (start : Nat) {first : Node} (h : first.Shaped) :
    Gives Node.Shaped (declarators g inWord start first) :=
  .bind (.many (gives_then fun _ => gives_ite (shapes_declarator hg inWord).some gives_none)) fun _ hns =>
    gives_node rfl (allShaped_cons.2 ⟨h, hns⟩)

theorem shapes_declaration : Gives Node.Shaped (declaration g) :=
  gives_then fun start => gives_then fun _ => (shapes_declarator hg _).bind fun _ hn =>
    (shapes_declarators hg _ start hn).bind fun _ hm => gives_then fun _ => gives_pure hm

theorem shapes_ifStatement (start : Nat) : Gives Node.Shaped (ifStatement g start) :=
  (shapes_condition hg).bind fun _ htest => (hg _).bind fun _ hbody => gives_then fun _ => gives_then fun _ =>
    gives_ite ((hg _).bind fun _ hn => .bind (gives_node rfl (by simp [hn])) fun _ hother =>
      gives_node rfl (by simp [htest, hbody, hother])) (gives_node rfl (by simp [htest, hbody]))

theorem shapes_forEach (start : Nat) {before : List Node} (h : AllShaped before) :
    Gives Node.Shaped (forEach g start before) := by
  have hrest : Gives Node.Shaped (do
      let subject ← expressions g true
      sign ")"
      let body ← g .statement
      node .other start (before ++ [subject, body])) :=
    (shapes_expressions hg _).bind fun _ hn => gives_then fun _ => (hg _).bind fun _ hm =>
      gives_node rfl (by simp [h, hn, hm])
  exact gives_then fun _ => gives_ite (gives_then fun _ => hrest) hrest

theorem shapes_forCount (start : Nat) {before : List Node} (h : AllShaped before) :
    Gives Node.Shaped (forCount g start before) :=
  gives_then fun _ => gives_then fun _ => .bind_unless (shapes_expressions hg _) fun _ htest => gives_then fun _ =>
    gives_then fun _ => .bind_unless (shapes_expressions hg _) fun _ hnext => gives_then fun _ =>
      (hg _).bind fun _ hbody => gives_node rfl (by simp [h, htest, hnext, hbody])

theorem shapes_forStatement (start : Nat) : Gives Node.Shaped (forStatement g start) := by
  refine gives_then fun _ => gives_then fun _ => gives_then fun _ =>
    gives_ite (shapes_forCount hg start allShaped_nil) (gives_then fun _ => gives_ite ?_ ?_)
  · exact gives_then fun _ => gives_then fun _ => (shapes_declarator hg _).bind fun _ hn => gives_then fun _ =>
      gives_ite (shapes_forEach hg start hn.children) (gives_ite gives_fail
        ((shapes_declarators hg _ _ hn).bind fun _ hm => shapes_forCount hg start (by simp [hm])))
  · refine (shapes_expressions hg _).bind fun n hn => gives_then fun _ => ?_
    have heach : Gives Node.Shaped (forEach g start [n.toPattern]) :=
      shapes_forEach hg start (by simpa using hn.toPattern)
    exact gives_ite (gives_ite (gives_then fun _ => heach) heach)
      (gives_ite gives_fail (shapes_forCount hg start (by simp [hn])))

theorem shapes_whileStatement (start : Nat) : Gives Node.Shaped (whileStatement g start) :=
  (shapes_condition hg).bind fun _ hn => (hg _).bind fun _ hm => gives_node rfl (by simp [hn, hm])

theorem shapes_doStatement (start : Nat) : Gives Node.Shaped (doStatement g start) :=
  (hg _).bind fun _ hn => gives_then fun _ => (shapes_condition hg).bind fun _ hm => gives_then fun _ =>
    gives_node rfl (by simp [hn, hm])

theorem shapes_catchClause : Gives Node.Shaped (catchClause g) := by
  have hbody (start : Nat) (param : List Node) (h : AllShaped param) : Gives Node.Shaped (do
      let body ← block g
      node .other start (param ++ [body])) :=
    (shapes_block hg).bind fun _ hn => gives_node rfl (by simp [h, hn])
  exact gives_then fun _ => gives_then fun _ => gives_then fun _ => gives_ite
    ((hg _).bind fun _ hn => gives_then fun _ => (gives_pure (by simpa using hn)).bind (hbody _))
    ((gives_pure allShaped_nil).bind (hbody _))

theorem shapes_finallyClause : Gives Node.Shaped (finallyClause g) :=
  gives_then fun _ => gives_then fun _ => (shapes_block hg).bind fun _ hn => gives_node rfl (by simp [hn])

theorem shapes_tryStatement (start : Nat) : Gives Node.Shaped (tryStatement g start) :=
  (shapes_block hg).bind fun _ hn => gives_then fun _ => .bind_when (shapes_catchClause hg) fun _ hhandler =>
    gives_then fun _ => .bind_when (shapes_finallyClause hg) fun _ hfinalizer =>
      have hnode := gives_node rfl (by simp [hn, hhandler, hfinalizer])
      gives_ite (gives_then fun _ => hnode) hnode

theorem shapes_switchClause : Gives Node.Shaped (switchClause g) := by
  have hbody (start : Nat) (test : List Node) (h : AllShaped test) : Gives Node.Shaped (do
      sign ":"
      let body ← many do
        if (← isNext "\x7d") || (← isNextWord "case") || (← isNextWord "default") then return none
        else return some (← g .statement)
      node .other start (test ++ body)) :=
    gives_then fun _ => .bind (.many (gives_then fun _ => gives_then fun _ => gives_then fun _ =>
      gives_ite gives_none (hg _).some)) fun _ hns => gives_node rfl (allShaped_append.2 ⟨h, hns⟩)
  exact gives_then fun _ => gives_then fun _ => gives_ite ((gives_pure allShaped_nil).bind (hbody _))
    (gives_then fun _ => (shapes_expressions hg _).bind_singleton (hbody _))

theorem shapes_switchStatement (start : Nat) : Gives Node.Shaped (switchStatement g start) :=
  (shapes_condition hg).bind fun _ hsubject => gives_then fun _ => gives_then fun _ =>
    .bind (.many (gives_then fun _ => gives_ite gives_none (shapes_switchClause hg).some)) fun _ hns =>
      gives_then fun _ => .bind (gives_node rfl hns) fun _ hbody => gives_node rfl (by simp [hsubject, hbody])

theorem shapes_returnStatement (start : Nat) : Gives Node.Shaped (returnStatement g start) :=
  gives_then fun _ => gives_then fun _ => .bind_unless (shapes_expressions hg _) fun _ hns =>
    .bind (gives_node rfl hns) fun _ hn => gives_then fun _ => gives_pure hn

theorem shapes_throwStatement (start : Nat) : Gives Node.Shaped (throwStatement g start) := by
  have hrest : Gives Node.Shaped (do
      let value ← expressions g true
      let n ← node .other start [value]
      terminator
      return n) :=
    (shapes_expressions hg _).bind fun _ hn => .bind (gives_node rfl (by simp [hn])) fun _ hm =>
      gives_then fun _ => gives_pure hm
  exact gives_then fun _ => gives_ite (gives_then fun _ => hrest) hrest

theorem shapes_expressionStatement : Gives Node.Shaped (expressionStatement g) :=
  gives_then fun _ => (shapes_expressions hg _).bind fun _ hn => .bind (gives_node rfl (by simp [hn])) fun _ hm =>
    gives_then fun _ => gives_pure hm

theorem shapes_source : Gives AllShaped (source g) :=
  shapes_stringLiteral.bind fun _ hn => gives_then fun _ => gives_then fun _ => gives_then fun _ => gives_ite
    ((shapes_objectLiteral hg).bind fun _ hm => .bind (gives_node rfl (by simp [hm])) fun _ hr =>
      gives_pure (by simp [hn, hr]))
    (gives_pure (by simp [hn]))

theorem shapes_importStatement : Gives Node.Shaped (importStatement g) := by
  have hparts (start : Nat) (parts : List Node) (h : AllShaped parts) : Gives Node.Shaped (do
      let n ← node .importStatement start parts
      terminator
      return n) := .bind (gives_node rfl h) fun _ hn => gives_then fun _ => gives_pure hn
  exact gives_then fun _ => gives_then fun _ => gives_then fun _ => gives_ite
    ((shapes_source hg).bind (hparts _))
    (shapes_importClause.bind fun _ hn => gives_then fun _ => (shapes_source hg).bind fun _ hns =>
      (gives_pure (allShaped_cons.2 ⟨hn, hns⟩)).bind (hparts _))

theorem shapes_exportNames : Gives AllShaped (exportNames g) := by
  have hsource (names : List Node) (h : AllShaped names) : Gives AllShaped (do
      word "from"
      return names ++ (← source g)) :=
    gives_then fun _ => (shapes_source hg).bind fun _ hns => gives_pure (allShaped_append.2 ⟨h, hns⟩)
  exact gives_then fun _ => gives_then fun _ => gives_ite
    (gives_then fun _ => gives_ite
      (shapes_moduleName.bind fun _ hn => .bind_singleton (gives_node rfl (by simp [hn])) hsource)
      ((gives_pure allShaped_nil).bind hsource))
    ((shapes_specifiers false).bind fun _ hn => gives_then fun _ => gives_ite
      ((shapes_source hg).bind fun _ hns => gives_pure (allShaped_cons.2 ⟨hn, hns⟩)) (gives_pure (by simp [hn])))

theorem shapes_exportDefault : Gives AllShaped (exportDefault g) :=
  gives_then fun _ => gives_then fun _ => gives_ite
    ((shapes_functionExpression hg _).bind fun _ hn => gives_pure (by simp [hn]))
    (gives_then fun _ => gives_then fun _ => gives_ite
      ((shapes_classExpression hg _).bind fun _ hn => gives_pure (by simp [hn]))
      ((hg _).bind fun _ hn => gives_then fun _ => gives_pure (by simp [hn])))

theorem shapes_exportStatement : Gives Node.Shaped (exportStatement g) := by
  refine gives_then fun _ => gives_then fun _ => gives_then fun _ => gives_ite
    ((shapes_exportDefault hg).bind fun _ hns => gives_node rfl hns)
    (gives_then fun _ => gives_then fun _ => gives_ite
      ((shapes_exportNames hg).bind fun _ hns => .bind (gives_node rfl hns) fun _ hn => gives_then fun _ =>
        gives_pure hn) ?_)
  exact gives_then fun _ => gives_then fun _ => gives_then fun _ => gives_then fun _ => gives_then fun _ =>
    gives_ite ((hg _).bind fun _ hn => gives_node rfl (by simp [hn])) gives_fail

theorem shapes_labelledStatement : Gives Node.Shaped (labelledStatement g) :=
  shapes_name.bind fun _ hn => gives_then fun _ => (hg _).bind fun _ hm => gives_node rfl (by simp [hn, hm])

theorem shapes_keywordStatement {w : String} {start : Nat} {rest : Parser Node}
    (h : keywordStatement? g w start = some rest) : Gives Node.Shaped rest := by
  unfold keywordStatement? at h
  split at h
  case h_13 => cases h
  all_goals obtain rfl := Option.some.inj h
  · exact shapes_ifStatement hg start
  · exact shapes_forStatement hg start
  · exact shapes_whileStatement hg start
  · exact shapes_whileStatement hg start
  · exact shapes_doStatement hg start
  · exact shapes_tryStatement hg start
  · exact shapes_switchStatement hg start
  · exact shapes_jumpStatement start
  · exact shapes_jumpStatement start
  · exact shapes_returnStatement hg start
  · exact shapes_throwStatement hg start
  · exact .bind (gives_leaf rfl) fun _ hn => gives_then fun _ => gives_pure hn

theorem shapes_statement : Gives Node.Shaped (statement g) := by
  refine gives_then fun start => gives_then fun _ => gives_then fun w => gives_ite (shapes_block hg)
    (gives_ite (gives_then fun _ => gives_leaf rfl) (gives_then fun _ => gives_ite (shapes_declaration hg)
      (gives_then fun _ => gives_ite (shapes_functionExpression hg _) (gives_ite ?_
        (gives_ite (shapes_exportStatement hg) (gives_then fun _ => gives_ite (shapes_importStatement hg) ?_))))))
  · exact (shapes_decorators hg).bind fun _ hmarks => gives_then fun _ => gives_ite
      ((shapes_exportStatement hg).bind fun _ hn => gives_node rfl (by simp [hmarks, hn]))
      (shapes_classRest hg start hmarks _)
  · split
    · next rest hrest => exact gives_then fun _ => shapes_keywordStatement hg hrest
    · exact gives_then fun _ => gives_ite (shapes_labelledStatement hg) (shapes_expressionStatement hg)

end Statement

end Grammar

theorem shapes_production {g : Grammar} (hg : ∀ n, Gives Node.Shaped (g n)) (n : Nonterminal) :
    Gives Node.Shaped (production g n) := by
  cases n with
  | expression inWord => exact Grammar.shapes_expression hg inWord
  | operators level inWord => exact Grammar.shapes_operators hg level inWord
  | unary => exact Grammar.shapes_unary hg
  | callee calls => exact Grammar.shapes_callee hg calls
  | element => exact Grammar.shapes_element hg
  | binding => exact Grammar.shapes_binding hg
  | statement => exact Grammar.shapes_statement hg

theorem shapes_grammar (depth : Nat) : ∀ n, Gives Node.Shaped (grammar depth n) := by
  induction depth with
  | zero => exact fun _ => gives_fail
  | succ depth ih => exact shapes_production ih

theorem shapes_wholeText {g : Grammar} (hg : ∀ n, Gives Node.Shaped (g n)) : Gives Node.Shaped (wholeText g) :=
  gives_then fun _ => .bind (.many (gives_then fun _ => gives_ite gives_none (hg _).some)) fun _ hns =>
    gives_node rfl hns

theorem shaped_of_parse {source : List Char} {p : Program} (h : parse? source = some p) : p.root.Shaped := by
  unfold parse? at h
  obtain ⟨⟨root, d⟩, hrun, h⟩ := Option.bind_eq_some_iff.1 h
  obtain ⟨-, h⟩ := Option.ite_none_left_eq_some.1 h
  obtain rfl := Option.some.inj h
  exact (shapes_wholeText (shapes_grammar _) _).of_run root d hrun

end ShortClass.Program
