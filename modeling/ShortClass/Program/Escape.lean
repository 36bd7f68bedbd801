import ShortClass.Text.CodePoint

namespace ShortClass

inductive Quote where
  | double
  | single
  | backtick
  deriving DecidableEq

def Quote.char : Quote → Char
  | double => '"'
  | single => '\''
  | backtick => '\x60'

namespace Escape

def hexDigit? : CodePoint → Option Nat
  | .scalar c =>
    if '0' ≤ c ∧ c ≤ '9' then some (c.toNat - 48)
    else if 'a' ≤ c ∧ c ≤ 'f' then some (c.toNat - 87)
    else if 'A' ≤ c ∧ c ≤ 'F' then some (c.toNat - 55)
    else none
  | .surrogate _ => none

def isHex (p : CodePoint) : Bool := (hexDigit? p).isSome

def hexNumber (t : Text) : Nat := t.foldl (fun n p => 16 * n + (hexDigit? p).getD 0) 0

def braced? : Text → Option (Nat × Nat)
  | .scalar '\x7b' :: t =>
    let ds := t.takeWhile isHex
    if !ds.isEmpty && t[ds.length]? == some (.scalar '\x7d') then some (hexNumber ds, ds.length + 2)
    else none
  | _ => none

def fixed? (n : Nat) (t : Text) : Option Nat :=
  let ds := t.take n
  if ds.length == n && ds.all isHex then some (hexNumber ds) else none

def single : CodePoint → Text
  | .scalar 'n' => [.scalar '\n']
  | .scalar 't' => [.scalar '\t']
  | .scalar 'r' => [.scalar '\r']
  | .scalar 'b' => [.scalar '\x08']
  | .scalar 'f' => [.scalar '\x0c']
  | .scalar 'v' => [.scalar '\x0b']
  | .scalar '0' => [.scalar '\x00']
  | .scalar '\n' => []
  | .scalar '\r' => []
  | .scalar '\u2028' => []
  | .scalar '\u2029' => []
  | p => [p]

def read? : Text → Option (Text × Nat)
  | [] => none
  | .scalar 'u' :: t =>
    match braced? t with
    | some (v, n) => some ([.ofNat (min v 0x10FFFF)], n + 1)
    | none =>
      match fixed? 4 t with
      | some v => some ([.ofNat v], 5)
      | none => some ([.scalar 'u'], 1)
  | .scalar 'x' :: t =>
    match fixed? 2 t with
    | some v => some ([.ofNat v], 3)
    | none => some ([.scalar 'x'], 1)
  | .scalar '\r' :: .scalar '\n' :: _ => some ([], 2)
  | p :: _ => some (single p, 1)

end Escape

/-- The run-time value of the source text of a literal. -/
def cook : Text → Text
  | [] => []
  | p :: t =>
    if p = .scalar '\\' then
      match Escape.read? t with
      | some (value, n) => value ++ cook (t.drop n)
      | none => p :: cook t
    else p :: cook t
termination_by t => t.length
decreasing_by all_goals simp; try omega

namespace Escape

def fourDigits (n : Nat) : List Char :=
  [n / 4096, n / 256, n / 16, n].map fun d => Nat.digitChar (d % 16)

def special? (q : Quote) (c : Char) : Option (List Char) :=
  match q with
  | .backtick => if c = '\\' ∨ c = '\x60' ∨ c = '$' then some ['\\', c] else none
  | _ =>
    if c = '\\' ∨ c = q.char then some ['\\', c]
    else if c = '\n' then some ['\\', 'n']
    else if c = '\r' then some ['\\', 'r']
    else if c = '\u2028' ∨ c = '\u2029' then some ('\\' :: 'u' :: fourDigits c.toNat)
    else none

def codePoint (q : Quote) : CodePoint → List Char
  | .scalar c => (special? q c).getD [c]
  | .surrogate n => '\\' :: 'u' :: fourDigits (0xD800 + n)

end Escape

def escape (q : Quote) (t : Text) : List Char := t.flatMap (Escape.codePoint q)

end ShortClass
