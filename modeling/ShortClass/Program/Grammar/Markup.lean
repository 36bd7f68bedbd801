import ShortClass.Program.Parser

namespace ShortClass.Program.Grammar

open ShortClass.Program.Parser

def expressions (g : Grammar) (inWord : Bool) : Parser Node := do
  let first ← g (.expression inWord)
  if ← isNext "," then
    let others ← many do
      if ← sign? "," then return some (← g (.expression inWord)) else return none
    node .other first.start (first :: others)
  else return first

def spread (g : Grammar) : Parser Node := do
  let start ← here
  sign "..."
  let e ← g (.expression true)
  node .spread start [e]

def isNextChar (c : Char) : Parser Bool := return (← ahead).head? == some c

def char (c : Char) : Parser Unit := do
  if ← isNextChar c then consume 1 else fail

def markupExpression (g : Grammar) : Parser Node := do
  let start ← here
  char '\x7b'
  let inner ←
    if ← isNext "\x7d" then pure []
    else if ← isNext "..." then pure [← spread g]
    else pure [← expressions g true]
  sign "\x7d"
  node .other start inner

def isMarkupWordPart (c : Char) : Bool := isWordPart c || c == '-'

def markupWord : Parser Unit := do
  let s ← ahead
  if s.head?.any isWordStart then consume (s.takeWhile isMarkupWordPart).length else fail

def elementName : Parser Unit := do
  markupWord
  if ← isNextChar ':' then
    char ':'
    markupWord
  else
    let _ ← many do
      if ← isNextChar '.' then
        char '.'
        markupWord
        return some ()
      else return none

def attributeName : Parser Node := do
  let start ← here
  markupWord
  if ← isNextChar ':' then
    char ':'
    markupWord
    node .other start []
  else node .identifier start []

def attributeValue (g : Grammar) : Parser Node := do
  let start ← here
  match ← ahead with
  | [] => fail
  | c :: t =>
    if c = '"' ∨ c = '\'' then
      let n := (t.takeWhile (· != c)).length
      if n = t.length then fail
      consume (n + 2)
      node .string start []
    else if c = '\x7b' then markupExpression g
    else g .element

def markupAttribute (g : Grammar) : Parser Node := do
  if ← isNextChar '\x7b' then markupExpression g
  else
    let start ← here
    let name ← attributeName
    if ← isNextChar '=' then
      char '='
      let value ← attributeValue g
      node .markupAttribute start [name, value]
    else node .markupAttribute start [name]

def isClosingTag : Parser Bool := lookahead do
  char '<'
  char '/'

/-- What stands between the tags of an element; `some none` is text. -/
def elementChild (g : Grammar) : Parser (Option (Option Node)) := do
  match (← get).rest with
  | [] => fail
  | c :: t =>
    if c = '\x7b' then return some (some (← markupExpression g))
    else if c = '<' then
      if ← isClosingTag then return none else return some (some (← g .element))
    else if c = '>' ∨ c = '\x7d' then fail
    else
      advance (1 + (t.takeWhile fun d => !"\x7b\x7d<>".toList.contains d).length)
      return some none

def closingTag : Parser Node := do
  let start ← here
  char '<'
  char '/'
  if !(← isNextChar '>') then elementName
  char '>'
  node .other start []

def element (g : Grammar) : Parser Node := do
  let start ← here
  char '<'
  let attributes ←
    if ← isNextChar '>' then pure []
    else
      elementName
      many do
        if (← isNextChar '/') || (← isNextChar '>') then return none else return some (← markupAttribute g)
  if ← isNextChar '/' then
    char '/'
    char '>'
    node .other start attributes
  else
    char '>'
    let opening ← node .other start attributes
    let children ← many (elementChild g)
    let closing ← closingTag
    node .other start (opening :: children.filterMap id ++ [closing])

end ShortClass.Program.Grammar
