import ShortClass.Text.Blank
import ShortClass.Text.Comment
import ShortClass.Text.Word

/-!
The tokens of a stylesheet: braces, semicolons, at-keywords, and preludes, which are runs of anything
else. Strings, escapes and groups in parentheses are kept whole, so that a brace or a semicolon inside
them ends nothing.

Every recogniser takes a first character apart from the rest and answers how many characters of the
rest belong to it.
-/

namespace ShortClass.Stylesheet

def stringTail (q : Char) : List Char → Option Nat
  | [] => none
  | ['\\'] => none
  | '\\' :: _ :: t => (stringTail q t).map (· + 2)
  | c :: t => if c = q then some 1 else (stringTail q t).map (· + 1)

theorem stringTail_le {q : Char} {t : List Char} {n : Nat} (h : stringTail q t = some n) :
    n ≤ t.length := by
  fun_induction stringTail q t generalizing n with
  | case1 => simp at h
  | case2 => simp at h
  | case3 c t ih =>
    obtain ⟨m, hm, rfl⟩ := Option.map_eq_some_iff.1 h
    simpa using ih hm
  | case4 t => cases h; simp
  | case5 c t _ _ hc ih =>
    obtain ⟨m, hm, rfl⟩ := Option.map_eq_some_iff.1 h
    simpa using ih hm

def isQuote (c : Char) : Bool := c == '"' || c == '\''

def groupTail : List Char → Option Nat
  | [] => none
  | ['\\'] => none
  | '\\' :: _ :: t => (groupTail t).map (· + 2)
  | c :: t =>
    if c = ')' then some 1
    else if c = '(' then none
    else if isQuote c then (stringTail c t).bind fun n => (groupTail (t.drop n)).map (· + n + 1)
    else (groupTail t).map (· + 1)
termination_by t => t.length

def preludePiece (c : Char) (t : List Char) : Option Nat :=
  if c = '(' then some ((groupTail t).getD 0)
  else if isQuote c then stringTail c t
  else if c = '\\' then if t.isEmpty then none else some 1
  else if c = '/' then if t.head? = some '*' then none else some 0
  else if c = '\x7b' ∨ c = '\x7d' ∨ c = ';' then none
  else some 0

def preludeRun : List Char → Nat
  | [] => 0
  | c :: t =>
    match preludePiece c t with
    | some n => n + 1 + preludeRun (t.drop n)
    | none => 0
termination_by t => t.length

/-- What may stand between tokens: blanks, comments, and the two marks that once hid a sheet from
readers of markup. -/
def skipped (c : Char) (t : List Char) : Option Nat :=
  if c = ' ' ∨ c = '\t' ∨ c = '\n' ∨ c = '\r' ∨ c = '\x0c' then some 0
  else if c = '/' ∧ t.head? = some '*' then (commentTail t.tail).map (· + 1)
  else if c = '<' ∧ t.take 3 = ['!', '-', '-'] then some 3
  else if c = '-' ∧ t.take 2 = ['-', '>'] then some 2
  else none

inductive Token.Kind where
  | lbrace
  | rbrace
  | semicolon
  | atKeyword
  | prelude
  deriving DecidableEq

def Token.Kind.name : Kind → String
  | lbrace => "LBRACE"
  | rbrace => "RBRACE"
  | semicolon => "SEMICOLON"
  | atKeyword => "AT_KEYWORD"
  | prelude => "PRELUDE"

structure Token where
  kind : Token.Kind
  text : List Char
  start : Nat
  deriving DecidableEq

def isKeywordChar (c : Char) : Bool := isWord c || c == '-'

def lexeme (c : Char) (t : List Char) : Option (Token.Kind × Nat) :=
  if c = '\x7b' then some (.lbrace, 0)
  else if c = '\x7d' then some (.rbrace, 0)
  else if c = ';' then some (.semicolon, 0)
  else if c = '@' then
    let n := (t.takeWhile isKeywordChar).length
    if n = 0 then none else some (.atKeyword, n)
  else if isSpace c then none
  else (preludePiece c t).map fun n => (.prelude, n + preludeRun (t.drop n))

structure Scan where
  tokens : List Token
  unreadable : Option (Nat × Char)

def scanFrom (pos : Nat) : List Char → Scan
  | [] => ⟨[], none⟩
  | c :: t =>
    match skipped c t with
    | some n => scanFrom (pos + 1 + n) (t.drop n)
    | none =>
      match lexeme c t with
      | some (kind, n) =>
        let rest := scanFrom (pos + 1 + n) (t.drop n)
        { rest with tokens := ⟨kind, c :: t.take n, pos⟩ :: rest.tokens }
      | none => ⟨[], some (pos, c)⟩
termination_by t => t.length

def scan (source : List Char) : Scan := scanFrom 0 source

end ShortClass.Stylesheet
