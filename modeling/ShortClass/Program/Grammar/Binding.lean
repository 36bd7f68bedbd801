import ShortClass.Program.Parser

namespace ShortClass.Program.Grammar

open ShortClass.Program.Parser

def privateName : Parser Node := do
  let start ← here
  sign "#"
  let n := wordLength (← get).rest
  if n = 0 then fail
  advance n
  node .other start []

def propertyName (g : Grammar) : Parser Node := do
  let start ← here
  match ← ahead with
  | [] => fail
  | c :: _ =>
    if c = '"' ∨ c = '\'' then stringLiteral
    else if c.isDigit ∨ c = '.' then numberLiteral
    else if c = '#' then privateName
    else if c = '[' then
      sign "["
      let e ← g (.expression true)
      sign "]"
      node .other start [e]
    else anyWord

def bindingElement (g : Grammar) : Parser Node := do
  let target ← g .binding
  if ← sign? "=" then
    let value ← g (.expression true)
    node .other target.start [target, value]
  else return target

def restElement (g : Grammar) : Parser Node := do
  let start ← here
  sign "..."
  let target ← g .binding
  node .other start [target]

def propertyBinding (g : Grammar) : Parser Node := do
  if ← isNext "..." then restElement g
  else
    let shorthand ← isNextName
    let key ← propertyName g
    if ← sign? ":" then
      let target ← bindingElement g
      node .other key.start [key, target]
    else if !shorthand then fail
    else if ← sign? "=" then
      let value ← g (.expression true)
      node .other key.start [key, value]
    else return key

def binding (g : Grammar) : Parser Node := do
  let start ← here
  if ← sign? "[" then
    let items ← commaList "]" do
      if ← isNext "," then return none
      else if ← isNext "..." then return some (← restElement g)
      else return some (← bindingElement g)
    node .other start items
  else if ← sign? "\x7b" then
    let items ← commaList "\x7d" (some <$> propertyBinding g)
    node .other start items
  else name

def parameters (g : Grammar) : Parser Node := do
  let start ← here
  sign "("
  let items ← commaList ")" do
    if ← isNext "..." then return some (← restElement g) else return some (← bindingElement g)
  node .parameters start items

end ShortClass.Program.Grammar
