import ShortClass.Stylesheet.Token

namespace ShortClass.Stylesheet

structure Segment where
  text : List Char
  start : Nat
  deriving DecidableEq

def Segment.stop (s : Segment) : Nat := s.start + s.text.length

inductive Statement where
  | rule (prelude : List Segment) (children : List Statement)
  | atBlock (name : List Char) (prelude : List Segment) (children : List Statement)
  | atLine (name : List Char) (prelude : List Segment)
  | declaration (prelude : List Segment)

inductive Head where
  | plain (prelude : List Segment)
  | atRule (name : List Char) (prelude : List Segment)
  deriving DecidableEq

namespace Head

def extend (s : Segment) : Head → Head
  | plain p => plain (p ++ [s])
  | atRule name p => atRule name (p ++ [s])

def line : Head → Statement
  | plain p => .declaration p
  | atRule name p => .atLine name p

def block (children : List Statement) : Head → Statement
  | plain p => .rule p children
  | atRule name p => .atBlock name p children

end Head

structure Builder where
  outer : List (Head × List Statement) := []
  done : List Statement := []
  head : Option Head := none

namespace Builder

def flush (b : Builder) : Builder :=
  match b.head with
  | none => b
  | some h => { b with done := b.done ++ [h.line], head := none }

def step (b : Builder) (t : Token) : Option Builder :=
  match t.kind, b.head with
  | .prelude, none => some { b with head := some (.plain [⟨t.text, t.start⟩]) }
  | .prelude, some h => some { b with head := some (h.extend ⟨t.text, t.start⟩) }
  | .atKeyword, none => some { b with head := some (.atRule t.text.tail []) }
  | .atKeyword, some _ => none
  | .semicolon, _ => some b.flush
  | .lbrace, none => none
  | .lbrace, some h => some ⟨(h, b.done) :: b.outer, [], none⟩
  | .rbrace, _ =>
    match b.outer with
    | [] => none
    | (h, before) :: outer => some ⟨outer, before ++ [h.block b.flush.done], none⟩

def isComplete (b : Builder) : Bool := b.outer.isEmpty && b.head.isNone

end Builder

inductive SyntaxError where
  | unexpected (t : Token)
  | unexpectedEnd (last : Token)
  | unreadable (offset : Nat) (c : Char)

def build (b : Builder) (last : Option Token) (bad : Option (Nat × Char)) :
    List Token → Except SyntaxError (List Statement)
  | t :: ts =>
    match b.step t with
    | some b => build b (some t) bad ts
    | none => .error (.unexpected t)
  | [] =>
    match bad, last with
    | some (offset, c), _ => .error (.unreadable offset c)
    | none, some t => if b.isComplete then .ok b.done else .error (.unexpectedEnd t)
    | none, none => .ok b.done

def statements (source : List Char) : Except SyntaxError (List Statement) :=
  let s := scan source
  build {} none s.unreadable s.tokens

def plainAtRules : List String :=
  ["keyframes", "-webkit-keyframes", "-moz-keyframes", "-o-keyframes", "font-face", "page", "property",
    "counter-style", "font-feature-values", "font-palette-values"]

/-- Lower case as far as it can give an ASCII letter: beside A to Z that is the Kelvin sign. -/
def asciiLower (c : Char) : Char := if c = '\u212A' then 'k' else c.toLower

def isPlainAtRule (name : List Char) : Bool := plainAtRules.contains (String.ofList (name.map asciiLower))

mutual

def Statement.selectors : Statement → List (List Segment)
  | .rule p children => p :: selectorsOf children
  | .atBlock name _ children => if isPlainAtRule name then [] else selectorsOf children
  | .atLine _ _ => []
  | .declaration _ => []

def selectorsOf : List Statement → List (List Segment)
  | [] => []
  | s :: ss => s.selectors ++ selectorsOf ss

end

end ShortClass.Stylesheet
