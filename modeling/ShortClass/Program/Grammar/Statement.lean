import ShortClass.Program.Grammar.Expression

namespace ShortClass.Program.Grammar

open ShortClass.Program.Parser

def declarator (g : Grammar) (inWord : Bool) : Parser Node := do
  let target ← g .binding
  if ← sign? "=" then
    let value ← g (.expression inWord)
    node .other target.start [target, value]
  else node .other target.start [target]

def declarators (g : Grammar) (inWord : Bool) (start : Nat) (first : Node) : Parser Node := do
  let others ← many do
    if ← sign? "," then return some (← declarator g inWord) else return none
  node .other start (first :: others)

/-- Does a declaration start with the next word? The word `let` may also name a variable. -/
def isDeclaration : Parser Bool := do
  let w ← peekWord
  if w = "var" ∨ w = "const" then return true
  else if w = "let" then lookahead do
    word w
    if ["[", "\x7b"].contains (← peek) then return ()
    if !(← isNextName) then fail
  else return false

def declaration (g : Grammar) : Parser Node := do
  let start ← here
  let _ ← anyWord
  let first ← declarator g true
  let d ← declarators g true start first
  terminator
  return d

def ifStatement (g : Grammar) (start : Nat) : Parser Node := do
  let test ← condition g
  let body ← g .statement
  let elseStart ← here
  if ← word? "else" then
    let other ← g .statement
    let other ← node .other elseStart [other]
    node .other start [test, body, other]
  else node .other start [test, body]

def forEach (g : Grammar) (start : Nat) (before : List Node) : Parser Node := do
  if !(← word? "of") then word "in"
  let subject ← expressions g true
  sign ")"
  let body ← g .statement
  node .other start (before ++ [subject, body])

def forCount (g : Grammar) (start : Nat) (before : List Node) : Parser Node := do
  sign ";"
  let test ← if ← isNext ";" then pure [] else pure [← expressions g true]
  sign ";"
  let next ← if ← isNext ")" then pure [] else pure [← expressions g true]
  sign ")"
  let body ← g .statement
  node .other start (before ++ test ++ next ++ [body])

def isForEach : Parser Bool := do
  return (← isNextWord "of") || (← isNextWord "in")

def forStatement (g : Grammar) (start : Nat) : Parser Node := do
  let eachOnly ← word? "await"
  sign "("
  if (← isNext ";") && !eachOnly then forCount g start []
  else if ← isDeclaration then
    let declStart ← here
    let _ ← anyWord
    let first ← declarator g false
    if ← isForEach then forEach g start first.children
    else if eachOnly then fail
    else
      let d ← declarators g false declStart first
      forCount g start [d]
  else
    let first ← expressions g false
    if ← isForEach then
      if !isTarget "=" first then fail
      forEach g start [first.toPattern]
    else if eachOnly then fail
    else forCount g start [first]

def whileStatement (g : Grammar) (start : Nat) : Parser Node := do
  let test ← condition g
  let body ← g .statement
  node .other start [test, body]

def doStatement (g : Grammar) (start : Nat) : Parser Node := do
  let body ← g .statement
  word "while"
  let test ← condition g
  let _ ← sign? ";"
  node .other start [body, test]

def catchClause (g : Grammar) : Parser Node := do
  let start ← here
  word "catch"
  let param ← if ← sign? "(" then
      let p ← g .binding
      sign ")"
      pure [p]
    else pure []
  let body ← block g
  node .other start (param ++ [body])

def finallyClause (g : Grammar) : Parser Node := do
  let start ← here
  word "finally"
  let body ← block g
  node .other start [body]

def tryStatement (g : Grammar) (start : Nat) : Parser Node := do
  let body ← block g
  let handler ← if ← isNextWord "catch" then pure [← catchClause g] else pure []
  let finalizer ← if ← isNextWord "finally" then pure [← finallyClause g] else pure []
  if handler.isEmpty && finalizer.isEmpty then fail
  node .other start (body :: handler ++ finalizer)

def switchClause (g : Grammar) : Parser Node := do
  let start ← here
  let test ← if ← word? "default" then pure [] else do
    word "case"
    pure [← expressions g true]
  sign ":"
  let body ← many do
    if (← isNext "\x7d") || (← isNextWord "case") || (← isNextWord "default") then return none
    else return some (← g .statement)
  node .other start (test ++ body)

def switchStatement (g : Grammar) (start : Nat) : Parser Node := do
  let subject ← condition g
  let bodyStart ← here
  sign "\x7b"
  let clauses ← many do
    if ← isNext "\x7d" then return none else return some (← switchClause g)
  sign "\x7d"
  let body ← node .other bodyStart clauses
  node .other start [subject, body]

def jumpStatement (start : Nat) : Parser Node := do
  if !(← newlineAhead) && (← isNextName) then let _ ← name
  let n ← node .other start []
  terminator
  return n

def returnStatement (g : Grammar) (start : Nat) : Parser Node := do
  let bare ← newlineAhead
  let value ←
    if bare || [";", "\x7d", ""].contains (← peek) then pure [] else pure [← expressions g true]
  let n ← node .other start value
  terminator
  return n

def throwStatement (g : Grammar) (start : Nat) : Parser Node := do
  if ← newlineAhead then fail
  let value ← expressions g true
  let n ← node .other start [value]
  terminator
  return n

def expressionStatement (g : Grammar) : Parser Node := do
  let start ← here
  let e ← expressions g true
  let n ← node .expressionStatement start [e]
  terminator
  return n

def moduleName : Parser Node := do
  let c := (← ahead).head?
  if c = some '"' ∨ c = some '\'' then stringLiteral else anyWord

def specifier (isImport : Bool) : Parser Node := do
  let named ← isNextName
  let n ← moduleName
  if ← word? "as" then
    let other ← if isImport then name else moduleName
    node .other n.start [n, other]
  else if isImport && !named then fail
  else node .other n.start [n]

def specifiers (isImport : Bool) : Parser Node := do
  let start ← here
  sign "\x7b"
  let items ← commaList "\x7d" (some <$> specifier isImport)
  node .other start items

def source (g : Grammar) : Parser (List Node) := do
  let s ← stringLiteral
  let start ← here
  if (← word? "with") || (← word? "assert") then
    let attributes ← objectLiteral g
    return [s, ← node .other start [attributes]]
  else return [s]

def importNames : Parser (List Node) := do
  let start ← here
  if ← sign? "*" then
    word "as"
    let _ ← name
    return [← node .other start []]
  else return [← specifiers true]

def importClause : Parser Node := do
  let start ← here
  if ← isNextName then
    let n ← name
    let more ← if ← sign? "," then importNames else pure []
    node .other start (n :: more)
  else
    let names ← importNames
    node .other start names

def importStatement (g : Grammar) : Parser Node := do
  let start ← here
  word "import"
  let c := (← ahead).head?
  let parts ←
    if c = some '"' ∨ c = some '\'' then source g
    else
      let clause ← importClause
      word "from"
      pure (clause :: (← source g))
  let n ← node .importStatement start parts
  terminator
  return n

def exportNames (g : Grammar) : Parser (List Node) := do
  let start ← here
  if ← sign? "*" then
    let names ← if ← word? "as" then
        let n ← moduleName
        pure [← node .other start [n]]
      else pure []
    word "from"
    return names ++ (← source g)
  else
    let names ← specifiers false
    if ← word? "from" then return names :: (← source g) else return [names]

def exportDefault (g : Grammar) : Parser (List Node) := do
  if (← isNextWord "function") || (← isAsyncFunction) then return [← functionExpression g false]
  else if (← isNextWord "class") || (← isNext "@") then return [← classExpression g false]
  else
    let e ← g (.expression true)
    terminator
    return [e]

def exportStatement (g : Grammar) : Parser Node := do
  let start ← here
  word "export"
  if ← word? "default" then node .exportStatement start (← exportDefault g)
  else if (← isNext "*") || (← isNext "\x7b") then
    let parts ← exportNames g
    let n ← node .exportStatement start parts
    terminator
    return n
  else if (← isDeclaration) || (← isNextWord "function") || (← isNextWord "class") || (← isNext "@") ||
      (← isAsyncFunction) then
    let d ← g .statement
    node .exportStatement start [d]
  else fail

def isLabel : Parser Bool := lookahead do
  let _ ← name
  sign ":"

def labelledStatement (g : Grammar) : Parser Node := do
  let label ← name
  sign ":"
  let body ← g .statement
  node .other label.start [label, body]

def isImportStatement : Parser Bool := lookahead do
  word "import"
  if ["(", "."].contains (← peek) then fail

def keywordStatement? (g : Grammar) (w : String) (start : Nat) : Option (Parser Node) :=
  match w with
  | "if" => some (ifStatement g start)
  | "for" => some (forStatement g start)
  | "while" => some (whileStatement g start)
  | "with" => some (whileStatement g start)
  | "do" => some (doStatement g start)
  | "try" => some (tryStatement g start)
  | "switch" => some (switchStatement g start)
  | "break" => some (jumpStatement start)
  | "continue" => some (jumpStatement start)
  | "return" => some (returnStatement g start)
  | "throw" => some (throwStatement g start)
  | "debugger" => some do
    let n ← node .other start []
    terminator
    return n
  | _ => none

def statement (g : Grammar) : Parser Node := do
  let start ← here
  let p ← peek
  let w ← peekWord
  if p = "\x7b" then block g
  else if p = ";" then
    sign ";"
    node .other start []
  else if ← isDeclaration then declaration g
  else if w = "function" ∨ (← isAsyncFunction) then functionExpression g true
  else if w = "class" ∨ p = "@" then
    let marks ← decorators g
    if ← isNextWord "export" then
      let n ← exportStatement g
      node .other start (marks ++ [n])
    else classRest g start marks true
  else if w = "export" then exportStatement g
  else if ← isImportStatement then importStatement g
  else
    match keywordStatement? g w start with
    | some rest =>
      word w
      rest
    | none => if ← isLabel then labelledStatement g else expressionStatement g

end ShortClass.Program.Grammar
