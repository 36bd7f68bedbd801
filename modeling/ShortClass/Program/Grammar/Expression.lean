import ShortClass.Program.Grammar.Callable
import ShortClass.Program.Grammar.Markup

namespace ShortClass.Program.Grammar

open ShortClass.Program.Parser

def interpolation (g : Grammar) : Parser (Option Node) := do
  match templateRun (← get).rest with
  | none => fail
  | some n =>
    advance n
    let c ← get
    if c.rest.head? = some '$' then
      advance 2
      let e ← expressions g true
      sign "\x7d"
      return some (← node .substitution c.pos [e])
    else return none

def template (g : Grammar) : Parser Node := do
  let start ← here
  char '\x60'
  let parts ← many (interpolation g)
  advance 1
  node .template start parts

def arrayLiteral (g : Grammar) : Parser Node := do
  let start ← here
  sign "["
  let items ← commaList "]" do
    if ← isNext "," then return none
    else if ← isNext "..." then return some (← spread g)
    else return some (← g (.expression true))
  node .array start items

def propertyDefinition (g : Grammar) : Parser Node := do
  if ← isNext "..." then spread g
  else
    let start ← here
    let method ← methodModifiers
    let shorthand ← isNextName
    let key ← propertyName g
    if method || (← isNext "(") then callable g start [key]
    else if ← sign? ":" then
      let value ← g (.expression true)
      node .pair start [key, value]
    else if !shorthand then fail
    else if ← sign? "=" then
      let value ← g (.expression true)
      node .shorthandDefault start [key, value]
    else return key

def objectLiteral (g : Grammar) : Parser Node := do
  let start ← here
  sign "\x7b"
  let items ← commaList "\x7d" (some <$> propertyDefinition g)
  node .object start items

def arrowAhead : Parser Bool := do
  if ← newlineAhead then return false else isNext "=>"

def parenthesized (g : Grammar) : Parser Node := do
  let start ← here
  sign "("
  let items ← many do
    if ← isNext ")" then return none
    let rest ← isNext "..."
    let item ← if rest then spread g else g (.expression true)
    let comma ← sign? ","
    if !comma && !(← isNext ")") then fail
    return some (item, rest, comma)
  sign ")"
  let nodes := items.map (·.1)
  if ← arrowAhead then node .parameters start nodes
  else
    match items.getLast? with
    | none => fail
    | some (last, _, comma) =>
      if comma || items.any (·.2.1) then fail
      match nodes with
      | [e] => node .parenthesized start [e]
      | first :: _ => node .parenthesized start [.mk .other first.start last.stop nodes]
      | [] => fail

def condition (g : Grammar) : Parser Node := do
  let start ← here
  sign "("
  let e ← expressions g true
  sign ")"
  node .parenthesized start [e]

def arguments (g : Grammar) : Parser Node := do
  let start ← here
  sign "("
  let items ← commaList ")" do
    if ← isNext "..." then return some (← spread g) else return some (← g (.expression true))
  node .arguments start items

def newExpression (g : Grammar) : Parser Node := do
  let start ← here
  word "new"
  if ← sign? "." then
    word "target"
    node .other start []
  else
    let callee ← g (.callee false)
    if ← isNext "(" then
      let args ← arguments g
      node .other start [callee, args]
    else node .other start [callee]

def importExpression : Parser Node := do
  let start ← here
  word "import"
  if ← sign? "." then
    let _ ← anyWord
    node .other start []
  else if ← isNext "(" then node .importWord start []
  else fail

def regexLiteral : Parser Node := do
  let start ← here
  char '/'
  match regexTail (← get).rest with
  | some n =>
    advance n
    node .other start []
  | none => fail

def primary (g : Grammar) : Parser Node := do
  match (← ahead).head? with
  | none => fail
  | some c =>
    if c = '"' ∨ c = '\'' then stringLiteral
    else if c = '\x60' then template g
    else if c.isDigit ∨ c = '.' then numberLiteral
    else if c = '(' then parenthesized g
    else if c = '[' then arrayLiteral g
    else if c = '\x7b' then objectLiteral g
    else if c = '/' then regexLiteral
    else if c = '<' then g .element
    else if c = '#' then privateName
    else if c = '@' then classExpression g false
    else
      let w ← peekWord
      if w = "function" then functionExpression g false
      else if w = "class" then classExpression g false
      else if w = "new" then newExpression g
      else if w = "import" then importExpression
      else if ← isAsyncFunction then functionExpression g false
      else if ["this", "null", "true", "false", "super"].contains w then
        return (← anyWord).withKind .other
      else name

def subscript (g : Grammar) (object : Node) : Parser Node := do
  sign "["
  let index ← expressions g true
  sign "]"
  node .member object.start [object, index]

def property : Parser Node := do
  if ← isNextChar '#' then privateName else anyWord

def access (g : Grammar) (calls : Bool) (n : Node) : Parser (Option Node) := do
  match ← peek with
  | "." =>
    sign "."
    let p ← property
    return some (← node .member n.start [n, p])
  | "?." =>
    if !calls then return none
    sign "?."
    match ← peek with
    | "(" =>
      let args ← arguments g
      return some (← node .call n.start [n, args])
    | "[" => return some (← subscript g n)
    | _ =>
      let p ← property
      return some (← node .member n.start [n, p])
  | "[" => return some (← subscript g n)
  | "(" =>
    if !calls then return none
    let args ← arguments g
    return some (← node .call n.start [n, args])
  | "\x60" =>
    let t ← template g
    return some (← node .call n.start [n, t])
  | _ => return none

def callee (g : Grammar) (calls : Bool) : Parser Node := do
  let n ← primary g
  if n.kind = .parameters then return n else extend (access g calls) n

def operatorWords : List String := ["typeof", "void", "delete"]

def unary (g : Grammar) : Parser Node := do
  let start ← here
  let p ← peek
  let w ← peekWord
  if ["!", "~", "+", "-", "++", "--"].contains p then
    sign p
    let e ← g .unary
    node .other start [e]
  else if operatorWords.contains w then
    word w
    let e ← g .unary
    node .other start [e]
  else
    let operand : Parser Node := do
      let e ← callee g true
      if ← newlineAhead then return e
      let p ← peek
      if p = "++" ∨ p = "--" then
        sign p
        node .other start [e]
      else return e
    if w = "await" then
      (do word w; let e ← g .unary; node .other start [e]) <|> operand
    else operand

def level? (op : String) : Option Nat :=
  match op with
  | "??" => some 1
  | "||" => some 2
  | "&&" => some 3
  | "|" => some 4
  | "^" => some 5
  | "&" => some 6
  | "==" | "!=" | "===" | "!==" => some 7
  | "<" | ">" | "<=" | ">=" | "in" | "instanceof" => some 8
  | "<<" | ">>" | ">>>" => some 9
  | "+" | "-" => some 10
  | "*" | "/" | "%" => some 11
  | "**" => some 12
  | _ => none

def operationBy (g : Grammar) (level : Nat) (inWord : Bool) (left : Node) (op : String) :
    Parser (Option Node) := do
  if op = "in" && !inWord then return none
  match level? op with
  | none => return none
  | some l =>
    if l < level then return none
    consume op.length
    let right ← g (.operators (if op = "**" then l else l + 1) inWord)
    return some (← node (if op = "+" then .sum else .other) left.start [left, right])

def operation (g : Grammar) (level : Nat) (inWord : Bool) (left : Node) : Parser (Option Node) := do
  let w ← peekWord
  if w = "" then operationBy g level inWord left (← peek) else operationBy g level inWord left w

def operators (g : Grammar) (level : Nat) (inWord : Bool) : Parser Node := do
  let first ← g .unary
  extend (operation g level inWord) first

def assignmentSigns : List String :=
  ["=", "+=", "-=", "*=", "/=", "%=", "**=", "<<=", ">>=", ">>>=", "&=", "|=", "^=", "&&=", "||=", "??="]

def isTarget (op : String) (n : Node) : Bool :=
  n.kind = .identifier || n.kind = .member || n.kind = .parenthesized ||
    (op == "=" && (n.kind = .object || n.kind = .array) && n.isPattern)

def arrow (g : Grammar) (inWord : Bool) (start : Nat) (params : Node) : Parser Node := do
  if ← newlineAhead then fail
  sign "=>"
  let body ← if ← isNext "\x7b" then block g else g (.expression inWord)
  node .other start [params, body]

def yieldExpression (g : Grammar) (inWord : Bool) : Parser Node := do
  let start ← here
  word "yield"
  let bare ← newlineAhead
  if bare || [")", "]", "\x7d", ",", ";", ":", ""].contains (← peek) then node .other start []
  else
    let _ ← sign? "*"
    let e ← g (.expression inWord)
    node .other start [e]

def isNameArrow : Parser Bool := lookahead do
  let _ ← name
  if !(← arrowAhead) then fail

def isAsyncNameArrow : Parser Bool := lookahead do
  word "async"
  if ← newlineAhead then fail
  let _ ← name
  if !(← arrowAhead) then fail

def assignment (g : Grammar) (inWord : Bool) (left : Node) : Parser Node := do
  let op ← peek
  if op = "?" then
    sign "?"
    let a ← g (.expression true)
    sign ":"
    let b ← g (.expression inWord)
    node .other left.start [left, a, b]
  else if assignmentSigns.contains op && isTarget op left then
    sign op
    let value ← g (.expression inWord)
    node (if op = "+=" then .sumAssignment else if op = "=" then .assignment else .other) left.start
      [if op = "=" then left.toPattern else left, value]
  else return left

def expression (g : Grammar) (inWord : Bool) : Parser Node := do
  let start ← here
  let w ← peekWord
  if w = "yield" then yieldExpression g inWord
  else if ← isAsyncNameArrow then
    word "async"
    let p ← name
    arrow g inWord start p
  else if ← isNameArrow then
    let p ← name
    arrow g inWord start p
  else
    let left ← operators g 0 inWord
    match left with
    | .mk .parameters s e ps =>
      if !ps.all Node.isParameter then fail
      arrow g inWord start (.mk .parameters s e (Node.toPatterns ps))
    | .mk .call _ _ [.mk .identifier _ _ _, .mk .arguments s e ps] =>
      if w = "async" && (← arrowAhead) && ps.all Node.isParameter then
        arrow g inWord start (.mk .parameters s e (Node.toPatterns ps))
      else assignment g inWord left
    | _ => assignment g inWord left

end ShortClass.Program.Grammar
