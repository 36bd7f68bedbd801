import ShortClass.Alphabet
import ShortClass.Stylesheet.Statement
import ShortClass.Text.Digits

/-!
Class components of selectors.

A selector is scanned, not parsed: strings, attribute selectors and escapes are passed over, and every
other `.name` is a class component. What stands in the arguments of a pseudo-class needs no care.
-/

namespace ShortClass.Stylesheet

def endsHex (c : Char) : Bool := c == ' ' || c == '\t' || c == '\n' || c == '\r' || c == '\x0c'

def hexEscape (t : List Char) : List Char × Nat :=
  let ds := (t.take 6).takeWhile isHexDigit
  (ds, ds.length + if (t[ds.length]?).any endsHex then 1 else 0)

def escapeTail : List Char → Option Nat
  | [] => none
  | c :: t =>
    if isHexDigit c then some (hexEscape (c :: t)).2
    else if c = '\n' ∨ c = '\r' ∨ c = '\x0c' then none
    else some 1

def attributeTail : List Char → Option Nat
  | [] => none
  | ['\\'] => none
  | '\\' :: _ :: t => (attributeTail t).map (· + 2)
  | c :: t =>
    if c = ']' then some 1
    else if isQuote c then (stringTail c t).bind fun n => (attributeTail (t.drop n)).map (· + n + 1)
    else (attributeTail t).map (· + 1)
termination_by t => t.length

def isNameStart (c : Char) : Bool := c.isAlpha || c == '_' || c.toNat ≥ 0x80

def isNameChar (c : Char) : Bool := isNameStart c || c.isDigit || c == '-'

def namePiece (p : Char → Bool) (c : Char) (t : List Char) : Option Nat :=
  if c = '\\' then escapeTail t else if p c then some 0 else none

def nameRun : List Char → Nat
  | [] => 0
  | c :: t =>
    match namePiece isNameChar c t with
    | some n => n + 1 + nameRun (t.drop n)
    | none => 0
termination_by t => t.length

/-- How long the class name is that a text starts with: up to two hyphens, a first character that is
no digit, and any others. -/
def classLength (t : List Char) : Option Nat :=
  let hyphens := (t.takeWhile (· == '-')).length
  if hyphens > 2 then none
  else
    match t.drop hyphens with
    | [] => none
    | c :: rest => (namePiece isNameStart c rest).map fun n => hyphens + 1 + n + nameRun (rest.drop n)

def charOfCode (code : Nat) : Char :=
  if code = 0 ∨ ¬code.isValidChar then '\uFFFD' else Char.ofNat code

def unescape : List Char → List Char
  | [] => []
  | ['\\'] => ['\\']
  | '\\' :: d :: t =>
    if isHexDigit d then
      let (ds, n) := hexEscape (d :: t)
      charOfCode (numberOf 16 ds) :: unescape (t.drop (n - 1))
    else d :: unescape t
  | c :: t => c :: unescape t
termination_by t => t.length

structure Component where
  value : ClassName
  start : Nat
  stop : Nat
  deriving DecidableEq

def componentsFrom (pos : Nat) : List Char → List Component
  | [] => []
  | c :: t =>
    if c = '.' then
      match classLength t with
      | some n =>
        ⟨unescape (t.take n), pos + 1, pos + 1 + n⟩ :: componentsFrom (pos + 1 + n) (t.drop n)
      | none => componentsFrom (pos + 1) t
    else
      let n :=
        if isQuote c then stringTail c t
        else if c = '[' then attributeTail t
        else if c = '\\' then escapeTail t
        else none
      componentsFrom (pos + 1 + n.getD 0) (t.drop (n.getD 0))
termination_by t => t.length

def Segment.components (s : Segment) : List Component := componentsFrom s.start s.text

end ShortClass.Stylesheet
