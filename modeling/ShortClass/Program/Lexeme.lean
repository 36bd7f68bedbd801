import ShortClass.Text.Blank
import ShortClass.Text.Comment
import ShortClass.Text.Digits

namespace ShortClass.Program

def isLineEnd (c : Char) : Bool := c == '\n' || c == '\r' || c == '\u2028' || c == '\u2029'

def isGap (c : Char) : Bool := isSpace c || c == '\uFEFF' || c == '\u2060' || c == '\u200B'

def isWordPart (c : Char) : Bool :=
  !(c.toNat < 0x20 || isGap c || ":;\x60\"'@#.,|^&<=>+-*/\\%?!~()[]\x7b\x7d".toList.contains c)

def isWordStart (c : Char) : Bool := isWordPart c && !c.isDigit

def codeTail (t : List Char) : Option Nat :=
  match t with
  | '\x7b' :: ds =>
    let n := (ds.takeWhile isHexDigit).length
    if n > 0 && ds[n]? == some '\x7d' then some (n + 2) else none
  | _ => if t.length ≥ 4 && (t.take 4).all isHexDigit then some 4 else none

def escapeTail : List Char → Option Nat
  | [] => none
  | 'u' :: t => (codeTail t).map (· + 1)
  | 'x' :: t => if t.length ≥ 2 && (t.take 2).all isHexDigit then some 3 else none
  | '\r' :: '\n' :: _ => some 2
  | _ => some 1

def wordRun : List Char → Nat
  | [] => 0
  | c :: t =>
    if isWordPart c then 1 + wordRun t
    else if c = '\\' ∧ t.head? = some 'u' then
      match codeTail t.tail with
      | some n => 2 + n + wordRun (t.drop (n + 1))
      | none => 0
    else 0
termination_by t => t.length

def wordLength (s : List Char) : Nat :=
  match s with
  | [] => 0
  | c :: _ => if c.isDigit then 0 else wordRun s

def stringTail (q : Char) : List Char → Option Nat
  | [] => none
  | c :: t =>
    if c = q then some 1
    else if c = '\\' then (escapeTail t).bind fun n => (stringTail q (t.drop n)).map (· + n + 1)
    else if c = '\n' ∨ c = '\r' then none
    else (stringTail q t).map (· + 1)
termination_by t => t.length

def templateRun : List Char → Option Nat
  | [] => none
  | c :: t =>
    if c = '\x60' ∨ (c = '$' ∧ t.head? = some '\x7b') then some 0
    else if c = '\\' then (escapeTail t).bind fun n => (templateRun (t.drop n)).map (· + n + 1)
    else (templateRun t).map (· + 1)
termination_by t => t.length

def regexBody (inClass : Bool) : List Char → Option Nat
  | [] => none
  | c :: t =>
    if isLineEnd c then none
    else if c = '\\' then
      match t with
      | [] => none
      | d :: rest => if isLineEnd d then none else (regexBody inClass rest).map (· + 2)
    else if c = '/' ∧ !inClass then some 1
    else (regexBody (if c = '[' then true else if c = ']' then false else inClass) t).map (· + 1)

def regexTail (t : List Char) : Option Nat :=
  if t.head? = some '*' ∨ t.head? = some '/' then none
  else (regexBody false t).map fun n => n + ((t.drop n).takeWhile isWordPart).length

def signLength : List Char → Nat
  | c :: _ => if c = '+' ∨ c = '-' then 1 else 0
  | [] => 0

def exponentLength : List Char → Nat
  | c :: t =>
    if c = 'e' ∨ c = 'E' then
      let n := digitsLength Char.isDigit (t.drop (signLength t))
      if n = 0 then 0 else 1 + signLength t + n
    else 0
  | [] => 0

def fractionLength : List Char → Nat
  | '.' :: t => 1 + digitsLength Char.isDigit t
  | _ => 0

def decimalLength (s : List Char) : Nat :=
  let whole := digitsLength Char.isDigit s
  let fraction := fractionLength (s.drop whole)
  let n := whole + fraction
  if fraction = 0 && s[n]? == some 'n' then n + 1 else n + exponentLength (s.drop n)

def radixLength (p : Char → Bool) (t : List Char) : Option Nat :=
  let n := digitsLength p t
  if n = 0 then none else some (2 + n + if t[n]? == some 'n' then 1 else 0)

def numeralLength (s : List Char) : Option Nat :=
  match s with
  | '0' :: c :: t =>
    if c = 'x' ∨ c = 'X' then radixLength isHexDigit t
    else if c = 'o' ∨ c = 'O' then radixLength isOctalDigit t
    else if c = 'b' ∨ c = 'B' then radixLength isBinaryDigit t
    else some (decimalLength s)
  | _ => some (decimalLength s)

def numberLength (s : List Char) : Option Nat := (numeralLength s).filter fun n => !(s[n]?).any isWordPart

def longPunctuators : List String :=
  [">>>=", "...", "===", "!==", ">>>", "<<=", ">>=", "**=", "&&=", "||=", "??=", "=>", "==", "!=", "<=",
    ">=", "&&", "||", "??", "?.", "++", "--", "+=", "-=", "*=", "/=", "%=", "&=", "|=", "^=", "<<", ">>",
    "**"]

def punctuator (s : List Char) : List Char :=
  let fits (p : List Char) : Bool :=
    p.isPrefixOf s && !(p == ['?', '.'] && (s[2]?).any Char.isDigit)
  match (longPunctuators.map String.toList).find? fits with
  | some p => p
  | none => s.take 1

structure Gap where
  newline : Bool
  pos : Nat
  rest : List Char

/-- Skips blanks and comments; `fresh` tells whether only they stand on the line so far. -/
def skipGap (newline fresh : Bool) (pos : Nat) : List Char → Gap
  | [] => ⟨newline, pos, []⟩
  | c :: t =>
    if isLineEnd c then skipGap true true (pos + 1) t
    else if isGap c then skipGap newline fresh (pos + 1) t
    else
      let line := ((c :: t).takeWhile fun d => !isLineEnd d).length - 1
      if (c = '/' ∧ t.head? = some '/') ∨ (c = '<' ∧ t.take 3 = ['!', '-', '-']) ∨
          (c = '-' ∧ t.take 2 = ['-', '>'] ∧ fresh) then
        skipGap newline fresh (pos + 1 + line) (t.drop line)
      else if c = '/' ∧ t.head? = some '*' then
        match commentTail t.tail with
        | none => ⟨newline, pos, c :: t⟩
        | some n =>
          let broken := (t.take (n + 1)).any isLineEnd
          skipGap (newline || broken) (fresh || broken) (pos + 2 + n) (t.drop (n + 1))
      else ⟨newline, pos, c :: t⟩
termination_by t => t.length

end ShortClass.Program
