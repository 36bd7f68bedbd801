import ShortClass.Program.Lexeme
import ShortClass.Program.Node

/-!
Parsers of programs: a cursor that moves through the source, and the steps that grammars are made of.

A parser fails without saying why. Blanks and comments are skipped together with the lexeme after them,
so that the cursor always stands right behind a lexeme and gives the end of a node.
-/

namespace ShortClass.Program

structure Cursor where
  pos : Nat
  rest : List Char

abbrev Parser := StateT Cursor Option

inductive Nonterminal where
  | expression (inWord : Bool)
  | operators (level : Nat) (inWord : Bool)
  | unary
  | callee (calls : Bool)
  | element
  | binding
  | statement

abbrev Grammar := Nonterminal → Parser Node

namespace Parser

def fail {α : Type} : Parser α := failure

def gap : Parser Gap := do
  let c ← get
  return skipGap false (c.pos == 0) c.pos c.rest

def newlineAhead : Parser Bool := return (← gap).newline

def here : Parser Nat := return (← gap).pos

def ahead : Parser (List Char) := return (← gap).rest

def advance (n : Nat) : Parser Unit := modify fun c => ⟨c.pos + n, c.rest.drop n⟩

def consume (n : Nat) : Parser Unit := do
  let g ← gap
  set (⟨g.pos + n, g.rest.drop n⟩ : Cursor)

def node (kind : Kind) (start : Nat) (children : List Node) : Parser Node := do
  return .mk kind start (← get).pos children

def peek : Parser String := return String.ofList (punctuator (← ahead))

def peekWord : Parser String := do
  let s ← ahead
  return String.ofList (s.take (wordLength s))

def isNext (p : String) : Parser Bool := return (← peek) == p

def isNextWord (w : String) : Parser Bool := return (← peekWord) == w

def sign (p : String) : Parser Unit := do
  if ← isNext p then consume p.length else fail

def sign? (p : String) : Parser Bool := do
  if ← isNext p then consume p.length; return true else return false

def word (w : String) : Parser Unit := do
  if ← isNextWord w then consume w.length else fail

def word? (w : String) : Parser Bool := do
  if ← isNextWord w then consume w.length; return true else return false

def lookahead {α : Type} (p : Parser α) : Parser Bool := fun c =>
  some ((p.run c).isSome, c)

def collect {α : Type} (item : Parser (Option α)) : Nat → Parser (List α)
  | 0 => fail
  | bound + 1 => do
    match ← item with
    | none => return []
    | some a => return a :: (← collect item bound)

/-- As many items as there are. An item takes a character at least, which bounds their number. -/
def many {α : Type} (item : Parser (Option α)) : Parser (List α) := do
  collect item ((← get).rest.length + 1)

def grow (step : Node → Parser (Option Node)) : Nat → Node → Parser Node
  | 0, _ => fail
  | bound + 1, n => do
    match ← step n with
    | none => return n
    | some m => grow step bound m

def extend (step : Node → Parser (Option Node)) (n : Node) : Parser Node := do
  grow step ((← get).rest.length + 1) n

def commaList (close : String) (item : Parser (Option Node)) : Parser (List Node) := do
  let items ← many do
    if ← isNext close then return none
    let i ← item
    if !(← sign? ",") && !(← isNext close) then fail
    return some i
  sign close
  return items.filterMap id

def reservedWords : List String :=
  ["break", "case", "catch", "class", "const", "continue", "debugger", "default", "delete", "do", "else",
    "enum", "export", "extends", "false", "finally", "for", "function", "if", "import", "in",
    "instanceof", "new", "null", "return", "super", "switch", "this", "throw", "true", "try", "typeof",
    "var", "void", "while", "with"]

def isNextName : Parser Bool := do
  let w ← peekWord
  return w != "" && !reservedWords.contains w

def anyWord : Parser Node := do
  let start ← here
  let n := wordLength (← ahead)
  if n = 0 then fail
  consume n
  node .identifier start []

def name : Parser Node := do
  if ← isNextName then anyWord else fail

def terminator : Parser Unit := do
  match ← ahead with
  | ';' :: _ => consume 1
  | '\x7d' :: _ => return ()
  | [] => return ()
  | _ => if ← newlineAhead then return () else fail

def stringLiteral : Parser Node := do
  let start ← here
  match ← ahead with
  | q :: t =>
    if q = '"' ∨ q = '\'' then
      match stringTail q t with
      | some n =>
        consume (n + 1)
        node .string start []
      | none => fail
    else fail
  | [] => fail

def numberLiteral : Parser Node := do
  let start ← here
  match numberLength (← ahead) with
  | some n =>
    if n = 0 then fail
    consume n
    node .other start []
  | none => fail

end Parser

end ShortClass.Program
