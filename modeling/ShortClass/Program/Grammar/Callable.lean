import ShortClass.Program.Grammar.Binding

namespace ShortClass.Program.Grammar

open ShortClass.Program.Parser

def statementList (g : Grammar) : Parser (List Node) := many do
  if ← isNext "\x7d" then return none else return some (← g .statement)

def block (g : Grammar) : Parser Node := do
  let start ← here
  sign "\x7b"
  let statements ← statementList g
  sign "\x7d"
  node .other start statements

def callable (g : Grammar) (start : Nat) (before : List Node) : Parser Node := do
  let ps ← parameters g
  let body ← block g
  node .other start (before ++ [ps, body])

def function (g : Grammar) (start : Nat) (named : Bool) : Parser Node := do
  word "function"
  let _ ← sign? "*"
  if ← isNextName then let _ ← name
  else if named then fail
  callable g start []

def isAsyncFunction : Parser Bool := lookahead do
  word "async"
  if ← newlineAhead then fail
  word "function"

def functionExpression (g : Grammar) (named : Bool) : Parser Node := do
  let start ← here
  let _ ← word? "async"
  function g start named

/-- Reads the word `w` where it modifies a member, and is not the name of one itself. -/
def modifier (w : String) : Parser Bool := do
  let c ← get
  if ← word? w then
    if ["(", "=", ";", "\x7d", ",", ":", ""].contains (← peek) || (w == "async" && (← newlineAhead)) then
      set c
      return false
    else return true
  else return false

def methodModifiers : Parser Bool := do
  let async ← modifier "async"
  let generator ← sign? "*"
  if async || generator then return true
  if ← modifier "get" then return true
  modifier "set"

def decorators (g : Grammar) : Parser (List Node) := many do
  let start ← here
  if ← sign? "@" then
    let e ← g (.callee true)
    return some (← node .other start [e])
  else return none

def classMember (g : Grammar) : Parser Node := do
  let start ← here
  let marks ← decorators g
  let fixed ← modifier "static"
  if fixed && (← isNext "\x7b") then
    let body ← block g
    node .other start [body]
  else
    let accessor ← modifier "accessor"
    let method ← if accessor then pure false else methodModifiers
    let key ← propertyName g
    if method || (← isNext "(") then callable g start (marks ++ [key])
    else
      let value ← if ← sign? "=" then pure [← g (.expression true)] else pure []
      let member ← node .other start (marks ++ key :: value)
      terminator
      return member

def classBody (g : Grammar) : Parser Node := do
  let start ← here
  sign "\x7b"
  let members ← many do
    if ← isNext "\x7d" then return none
    else if ← sign? ";" then return some none
    else return some (some (← classMember g))
  sign "\x7d"
  node .other start (members.filterMap id)

def classRest (g : Grammar) (start : Nat) (marks : List Node) (named : Bool) : Parser Node := do
  word "class"
  let anonymous ← isNextWord "extends"
  if !anonymous && (← isNextName) then let _ ← name
  else if named then fail
  let heritageStart ← here
  let heritage ← if ← word? "extends" then
      let e ← g (.callee true)
      pure [← node .other heritageStart [e]]
    else pure []
  let body ← classBody g
  node .other start (marks ++ heritage ++ [body])

def classExpression (g : Grammar) (named : Bool) : Parser Node := do
  let start ← here
  let marks ← decorators g
  classRest g start marks named

end ShortClass.Program.Grammar
