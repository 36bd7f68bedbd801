import ShortClass.Text.Digits
import ShortClass.Toml.Value

namespace ShortClass.Toml

abbrev Reader := StateT (List Char) (Except (Fault × Nat))

namespace Reader

def fault {α : Type} (f : Fault) : Reader α := do
  throw (f, (← get).length)

def lift {α : Type} (r : Except Fault α) : Reader α :=
  match r with
  | .ok a => pure a
  | .error f => fault f

def startsWith (s : String) : Reader Bool := return s.toList.isPrefixOf (← get)

def drop (n : Nat) : Reader Unit := modify (·.drop n)

def skipWhile (p : Char → Bool) : Reader Unit := modify (·.dropWhile p)

def takeWhile (p : Char → Bool) : Reader (List Char) := do
  let rest ← get
  set (rest.dropWhile p)
  return rest.takeWhile p

def accept (s : String) : Reader Bool := do
  if ← startsWith s then
    drop s.length
    return true
  else return false

end Reader

open Reader

def isBlank (c : Char) : Bool := c == ' ' || c == '\t'

def isBlankOrNewline (c : Char) : Bool := isBlank c || c == '\n'

def isControl (c : Char) : Bool := (c.toNat < 32 && c != '\t') || c.toNat == 127

def isControlOrBreak (multiline : Bool) (c : Char) : Bool := isControl c && !(multiline && c == '\n')

def isBare (c : Char) : Bool := c.isAlphanum || c == '-' || c == '_'

def skipBlanks : Reader Unit := skipWhile isBlank

def upTo (close : List Char) (isIllegal : Char → Bool) : List Char → Except (Fault × Nat) (List Char)
  | [] => .error (.missing close, 0)
  | c :: rest =>
    if close.isPrefixOf (c :: rest) then .ok []
    else
      match upTo close isIllegal rest with
      | .error (.missing s, n) => .error (.missing s, n)
      | r => if isIllegal c then .error (.invalidChar c, (c :: rest).length) else r.map (c :: ·)

def takeUpTo (close : List Char) (isIllegal : Char → Bool) : Reader (List Char) := do
  let text ← upTo close isIllegal (← get)
  drop (text.length + close.length)
  return text

def skipComment : Reader Unit := do
  if ← accept "#" then
    let comment ← takeWhile (· != '\n')
    match comment.dropWhile (!isControl ·) with
    | [] => pure ()
    | c :: rest => throw (.invalidChar c, (c :: rest).length + (← get).length)

def skipLines : Nat → Reader Unit
  | 0 => pure ()
  | bound + 1 => do
    let before ← get
    skipWhile isBlankOrNewline
    skipComment
    if (← get).length < before.length then skipLines bound

def hexChar (digits : Nat) : Reader (List Char) := do
  let ds := (← get).take digits
  if ds.length ≠ digits || !ds.all isHexDigit then fault .badHex
  drop digits
  let n := numberOf 16 ds
  if n.isValidChar then return [Char.ofNat n] else fault .notScalar

def escaped (multiline : Bool) : Reader (List Char) := do
  let c := ((← get).drop 1).head?
  drop 2
  match c with
  | some 'b' => return ['\x08']
  | some 't' => return ['\t']
  | some 'n' => return ['\n']
  | some 'f' => return ['\x0c']
  | some 'r' => return ['\r']
  | some '"' => return ['"']
  | some '\\' => return ['\\']
  | some 'u' => hexChar 4
  | some 'U' => hexChar 8
  | c =>
    if multiline && c.any isBlankOrNewline then
      if c != some '\n' then
        skipBlanks
        match ← get with
        | [] => return []
        | d :: _ => if d = '\n' then drop 1 else fault .badEscape
      skipWhile isBlankOrNewline
      return []
    else fault .badEscape

def basicString (multiline : Bool) (done : List Char) : Nat → Reader (List Char)
  | 0 => fault .openString
  | bound + 1 => do
    match ← get with
    | [] => fault .openString
    | '"' :: rest =>
      if !multiline then
        set rest
        return done
      else if ← accept "\"\"\"" then return done
      else
        set rest
        basicString multiline (done ++ ['"']) bound
    | '\\' :: _ =>
      let cs ← escaped multiline
      basicString multiline (done ++ cs) bound
    | c :: rest =>
      if isControlOrBreak multiline c then fault (.illegalChar c)
      else
        set rest
        basicString multiline (done ++ [c]) bound

def extraQuotes (quote : Char) : Reader (List Char) := do
  let extra := ((← get).take 2).takeWhile (· == quote)
  drop extra.length
  return extra

def multilineString (quote : Char) : Reader (List Char) := do
  drop 3
  let _ ← accept "\n"
  let text ←
    if quote = '"' then basicString true [] ((← get).length + 1)
    else takeUpTo [quote, quote, quote] (isControlOrBreak true)
  return text ++ (← extraQuotes quote)

def lineString (quote : Char) : Reader (List Char) := do
  drop 1
  if quote = '"' then basicString false [] ((← get).length + 1)
  else takeUpTo [quote] (isControlOrBreak false)

def keyPart : Reader Name := do
  match ← get with
  | '\'' :: _ => lineString '\''
  | '"' :: _ => lineString '"'
  | c :: _ => if isBare c then takeWhile isBare else fault .badKey
  | [] => fault .badKey

def keyFrom (done : Key) : Nat → Reader Key
  | 0 => fault .badKey
  | bound + 1 => do
    let name ← keyPart
    skipBlanks
    if ← accept "." then
      skipBlanks
      keyFrom (done ++ [name]) bound
    else return done ++ [name]

def key : Reader Key := do keyFrom [] ((← get).length + 1)

def fractionLength : List Char → Nat
  | '.' :: rest => if digitsLength Char.isDigit rest = 0 then 0 else 1 + digitsLength Char.isDigit rest
  | _ => 0

def signLength : List Char → Nat
  | '+' :: _ => 1
  | '-' :: _ => 1
  | _ => 0

def exponentLength : List Char → Nat
  | c :: rest =>
    let sign := signLength rest
    let ds := digitsLength Char.isDigit (rest.drop sign)
    if (c == 'e' || c == 'E') && ds ≠ 0 then 1 + sign + ds else 0
  | [] => 0

def decimalLength (cs : List Char) : Nat :=
  let sign := signLength cs
  let whole :=
    match cs.drop sign with
    | '0' :: _ => 1
    | rest => digitsLength Char.isDigit rest
  if whole = 0 then 0
  else
    let rest := cs.drop (sign + whole)
    let fraction := fractionLength rest
    sign + whole + fraction + exponentLength (rest.drop fraction)

def numberLength (cs : List Char) : Nat :=
  let based :=
    match cs with
    | '0' :: 'x' :: rest => digitsLength isHexDigit rest
    | '0' :: 'b' :: rest => digitsLength isBinaryDigit rest
    | '0' :: 'o' :: rest => digitsLength isOctalDigit rest
    | _ => 0
  if based ≠ 0 then 2 + based else decimalLength cs

def twoDigits? (lo hi : Nat) : List Char → Option Nat
  | a :: b :: _ =>
    let n := numberOf 10 [a, b]
    if a.isDigit && b.isDigit && lo ≤ n && n ≤ hi then some n else none
  | _ => none

def timeLength (cs : List Char) : Nat :=
  let isTime := (twoDigits? 0 23 cs).isSome && cs[2]? == some ':' && (twoDigits? 0 59 (cs.drop 3)).isSome &&
    cs[5]? == some ':' && (twoDigits? 0 59 (cs.drop 6)).isSome
  if !isTime then 0
  else
    let ds :=
      match cs.drop 8 with
      | '.' :: rest => (rest.takeWhile Char.isDigit).length
      | _ => 0
    if ds = 0 then 8 else 9 + ds

def offsetLength (cs : List Char) : Nat :=
  match cs with
  | 'Z' :: _ => 1
  | 'z' :: _ => 1
  | _ =>
    if signLength cs = 1 && (twoDigits? 0 23 (cs.drop 1)).isSome && cs[3]? == some ':' &&
      (twoDigits? 0 59 (cs.drop 4)).isSome then 6 else 0

def daysIn (year month : Nat) : Nat :=
  if month = 2 then if year % 4 = 0 && (year % 100 ≠ 0 || year % 400 = 0) then 29 else 28
  else if month = 4 || month = 6 || month = 9 || month = 11 then 30
  else 31

def dateLength? (cs : List Char) : Option (Nat × Bool) := do
  let year := cs.take 4
  guard (year.length = 4 && year.all Char.isDigit && cs[4]? == some '-' && cs[7]? == some '-')
  let month ← twoDigits? 1 12 (cs.drop 5)
  let day ← twoDigits? 1 31 (cs.drop 8)
  let y := numberOf 10 year
  let time :=
    match cs.drop 10 with
    | c :: rest =>
      let n := timeLength rest
      if (c == 'T' || c == 't' || c == ' ') && n ≠ 0 then 1 + n + offsetLength (rest.drop n) else 0
    | [] => 0
  return (10 + time, y ≠ 0 && day ≤ daysIn y month)

def plainValue : Reader Value := do
  let rest ← get
  let numberOf (n : Nat) : Reader Value := do
    drop n
    return .number (rest.take n)
  if ← accept "true" then return .boolean true
  else if ← accept "false" then return .boolean false
  else
    match dateLength? rest with
    | some (_, false) => fault .badDate
    | some (n, true) =>
      drop n
      return .date (rest.take n)
    | none =>
      let time := timeLength rest
      if time ≠ 0 then
        drop time
        return .date (rest.take time)
      else if numberLength rest ≠ 0 then numberOf (numberLength rest)
      else if ["inf", "nan"].any fun s => s.toList.isPrefixOf rest then numberOf 3
      else if ["-inf", "+inf", "-nan", "+nan"].any fun s => s.toList.isPrefixOf rest then numberOf 4
      else fault .badValue

mutual

def value : Nat → Reader Value
  | 0 => fault .badValue
  | bound + 1 => do
    match ← get with
    | '"' :: '"' :: '"' :: _ => return .string (← multilineString '"')
    | '\'' :: '\'' :: '\'' :: _ => return .string (← multilineString '\'')
    | '"' :: _ => return .string (← lineString '"')
    | '\'' :: _ => return .string (← lineString '\'')
    | '[' :: rest =>
      set rest
      skipLines (rest.length + 1)
      if ← accept "]" then return .array [] else elements [] bound
    | '\x7b' :: rest =>
      set rest
      skipBlanks
      if ← accept "\x7d" then return .table [] else members [] [] bound
    | _ => plainValue

def elements (done : List Value) : Nat → Reader Value
  | 0 => fault .openArray
  | bound + 1 => do
    let v ← value bound
    skipLines ((← get).length + 1)
    if ← accept "]" then return .array (done ++ [v])
    else if ← accept "," then
      skipLines ((← get).length + 1)
      if ← accept "]" then return .array (done ++ [v]) else elements (done ++ [v]) bound
    else fault .openArray

def members (done : Table) (frozen : List Key) : Nat → Reader Value
  | 0 => fault .openTable
  | bound + 1 => do
    let (k, v) ← keyValue bound
    if frozen.any (·.isPrefixOf k) then fault (.immutable k)
    let name := k.getLast?.getD []
    let done ← lift (done.update false (Table.insert (.duplicateName name) name v) k.dropLast)
    skipBlanks
    if ← accept "\x7d" then return .table done
    else if ← accept "," then
      skipBlanks
      members done (if v.isContainer then k :: frozen else frozen) bound
    else fault .openTable

def keyValue : Nat → Reader (Key × Value)
  | 0 => fault .badKey
  | bound + 1 => do
    let k ← key
    if !(← accept "=") then fault .missingEquals
    skipBlanks
    return (k, ← value bound)

end

end ShortClass.Toml
