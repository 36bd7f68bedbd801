import ShortClass.Text.Quoted

namespace ShortClass.JsonText

def unit (n : Nat) : List Char := '\\' :: 'u' :: Quoted.hex 4 n

def units (n : Nat) : List Char :=
  if n < 0x10000 then unit n
  else unit (0xD800 + (n - 0x10000) / 0x400) ++ unit (0xDC00 + (n - 0x10000) % 0x400)

def escapeChar (c : Char) : List Char :=
  match c with
  | '"' => ['\\', '"']
  | '\\' => ['\\', '\\']
  | '\n' => ['\\', 'n']
  | '\r' => ['\\', 'r']
  | '\t' => ['\\', 't']
  | '\x0c' => ['\\', 'f']
  | '\x08' => ['\\', 'b']
  | c => if ' ' ≤ c && c ≤ '~' then [c] else units c.toNat

def string (cs : List Char) : List Char := '"' :: cs.flatMap escapeChar ++ ['"']

def members : List (List Char × List Char) → List Char
  | [] => []
  | [(k, v)] => "\n  ".toList ++ string k ++ ": ".toList ++ string v
  | (k, v) :: rest => "\n  ".toList ++ string k ++ ": ".toList ++ string v ++ ',' :: members rest

def object (entries : List (List Char × List Char)) : List Char :=
  if entries.isEmpty then ['\x7b', '\x7d'] else '\x7b' :: members entries ++ ['\n', '\x7d']

end ShortClass.JsonText
