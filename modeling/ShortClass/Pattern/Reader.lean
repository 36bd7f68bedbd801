import ShortClass.Pattern.Term
import ShortClass.Text.Blank
import ShortClass.Text.Digits
import ShortClass.Text.Word

/-!
Reading the text of a pattern.

The text is read symbol by symbol, a backslash and the character after it being one symbol. The reader
looks one symbol ahead, so that a backslash at the very end is found as soon as it comes next.
-/

namespace ShortClass.Pattern

structure ReadState where
  pos : Nat
  rest : List Char
  flags : Flags := []
  names : List (List Char × Nat) := []
  widths : List (Option Width) := [none]
  behind : Option Nat := none
  conditions : List (Nat × Nat) := []

abbrev Located := Fault × Option Nat

abbrev Reader := StateT ReadState (Except Located)

namespace Reader

def fault {α : Type} (f : Fault) (offset : Nat) : Reader α := do
  throw (f, some ((← get).pos - offset))

def symbol : List Char → List Char
  | '\\' :: c :: _ => ['\\', c]
  | c :: _ => [c]
  | [] => []

def next : Reader (List Char) := return symbol (← get).rest

def checkEnd : Reader Unit := do
  let s ← get
  if s.rest = ['\\'] then throw (.endsInBackslash, some s.pos)

def take : Reader (List Char) := do
  let this ← next
  modify fun s => { s with pos := s.pos + this.length, rest := s.rest.drop this.length }
  checkEnd
  return this

def accept (c : Char) : Reader Bool := do
  if (← next) = [c] then
    let _ ← take
    return true
  else return false

def takeWhile (p : Char → Bool) : Nat → Reader (List Char)
  | 0 => return []
  | n + 1 => do
    match ← next with
    | [c] =>
      if p c then
        let _ ← take
        return c :: (← takeWhile p n)
      else return []
    | _ => return []

def remaining : Reader Nat := return (← get).rest.length

def nameUpTo (close : Char) (what : String) (result : List Char) : Nat → Reader (List Char)
  | 0 => fault .endsEarly 0
  | bound + 1 => do
    match ← take with
    | [] =>
      if result.isEmpty then fault (.missingName what) 0
      else fault (.unterminatedName close) result.length
    | this =>
      if this = [close] then
        if result.isEmpty then fault (.missingName what) 1 else return result
      else nameUpTo close what (result ++ this) bound

def skipPast (close : Char) : Nat → Reader Bool
  | 0 => return false
  | bound + 1 => do
    match ← take with
    | [] => return false
    | this => if this = [close] then return true else skipPast close bound

def groupCount : Reader Nat := return (← get).widths.length

def isClosed (n : Nat) : Reader Bool := return ((← get).widths[n]?).any Option.isSome

def checkBehind (n : Nat) : Reader Unit := do
  match (← get).behind with
  | none => return ()
  | some before =>
    if !(← isClosed n) then fault .openReference 0
    if n ≥ before then fault .referenceIntoLook 0

def widthOf (t : Term) : Reader Width := do
  let widths := (← get).widths
  return t.width fun n => ((widths[n]?).getD none).getD ⟨0, 0⟩

end Reader

open Reader

def controlCode? : Char → Option Nat
  | 'a' => some 7
  | 'f' => some 12
  | 'n' => some 10
  | 'r' => some 13
  | 't' => some 9
  | 'v' => some 11
  | '\\' => some 92
  | _ => none

def charKind? : Char → Option SetItem
  | 'd' => some (.kind .digit false)
  | 'D' => some (.kind .digit true)
  | 's' => some (.kind .space false)
  | 'S' => some (.kind .space true)
  | 'w' => some (.kind .word false)
  | 'W' => some (.kind .word true)
  | _ => none

def anchor? : Char → Option Anchor
  | 'A' => some .textStart
  | 'b' => some .wordEdge
  | 'B' => some .noWordEdge
  | 'Z' => some .textEnd
  | _ => none

def hexCode (c : Char) (n : Nat) : Reader Nat := do
  let ds ← takeWhile isHexDigit n
  if ds.length ≠ n then fault (.incompleteEscape ('\\' :: c :: ds)) (ds.length + 2)
  return numberOf 16 ds

def escapedCode (c : Char) : Reader Nat := do
  if c = 'x' then hexCode c 2
  else if c = 'u' then hexCode c 4
  else if c = 'U' then
    let ds := (← get).rest.take 8
    let n ← hexCode c 8
    if n > 0x10FFFF then fault (.badEscape ('\\' :: c :: ds)) 10
    return n
  else if c = 'N' then
    if !(← accept '\x7b') then fault .missingBrace 0
    let name ← nameUpTo '\x7d' "character name" [] ((← remaining) + 1)
    fault (.unknownCharacterName name) (name.length + 4)
  else if c.isAlpha then fault (.badEscape ['\\', c]) 2
  else return c.toNat

def octalCode (c : Char) : Reader Nat := do
  let ds ← takeWhile isOctalDigit 2
  let n := numberOf 8 (c :: ds)
  if n > 0o377 then fault (.octalTooLarge ('\\' :: c :: ds)) (ds.length + 2)
  return n

def setEscape (c : Char) : Reader SetItem := do
  if c = 'b' then return .code 8
  match controlCode? c, charKind? c with
  | some n, _ => return .code n
  | none, some k => return k
  | none, none =>
    if isOctalDigit c then return .code (← octalCode c)
    else if c.isDigit then fault (.badEscape ['\\', c]) 2
    else return .code (← escapedCode c)

/-- A reference to a group by one or two digits, or an octal code of three. -/
def numericEscape (c : Char) : Reader Term := do
  let second ← takeWhile Char.isDigit 1
  let third ← if isOctalDigit c && second.any isOctalDigit then takeWhile isOctalDigit 1 else pure []
  let ds := c :: second ++ third
  if !third.isEmpty then
    let n := numberOf 8 ds
    if n > 0o377 then fault (.octalTooLarge ('\\' :: ds)) 4
    return .code n
  else
    let n := numberOf 10 ds
    if n < (← groupCount) then
      if !(← isClosed n) then fault .openReference (ds.length + 1)
      checkBehind n
      return .backref n
    else fault (.invalidReference n) ds.length

def termEscape (c : Char) : Reader Term := do
  match anchor? c, charKind? c, controlCode? c with
  | some a, _, _ => return .anchor a
  | none, some k, _ => return .set false [k]
  | none, none, some n => return .code n
  | none, none, none =>
    if c = '0' then
      let ds ← takeWhile isOctalDigit 2
      return .code (numberOf 8 ds)
    else if c.isDigit then numericEscape c
    else return .code (← escapedCode c)

def setMember : List Char → Reader SetItem
  | ['\\', c] => setEscape c
  | [c] => return .code c.toNat
  | _ => return .code 0

def setItems (start : Nat) (items : List SetItem) : Nat → Reader (List SetItem)
  | 0 => fault .unterminatedSet 0
  | bound + 1 => do
    let unterminated : Reader (List SetItem) := do fault .unterminatedSet ((← get).pos - start)
    let this ← take
    if this.isEmpty then unterminated
    else if this = [']'] && !items.isEmpty then return items
    else
      let lo ← setMember this
      if ← accept '-' then
        let that ← take
        if that.isEmpty then unterminated
        else if that = [']'] then return items ++ [lo, .code '-'.toNat]
        else
          let hi ← setMember that
          match lo, hi with
          | .code a, .code b =>
            if b < a then fault (.badRange this that) (this.length + 1 + that.length)
            setItems start (items ++ [.range a b]) bound
          | _, _ => fault (.badRange this that) (this.length + 1 + that.length)
      else setItems start (items ++ [lo]) bound

def setTerm : Reader Term := do
  let start := (← get).pos - 1
  let negated ← accept '^'
  let items ← setItems start [] ((← remaining) + 1)
  return .set negated items

def bounds : Reader (Option (Nat × Option Nat)) := do
  let start := (← get).pos
  let lo ← takeWhile Char.isDigit (← remaining)
  let hi ← if ← accept ',' then takeWhile Char.isDigit (← remaining) else pure lo
  if ← accept '\x7d' then
    let least := numberOf 10 lo
    if hi.isEmpty then return some (least, none)
    let most := numberOf 10 hi
    if most < least then fault .minAboveMax ((← get).pos - start)
    return some (least, some most)
  else return none

def repeatLast (start : Nat) (least : Nat) (most : Option Nat) : List Term → Reader (List Term)
  | [] => do fault .nothingToRepeat ((← get).pos - start + 1)
  | .anchor _ :: _ => do fault .nothingToRepeat ((← get).pos - start + 1)
  | .repeated _ _ _ _ :: _ => do fault .multipleRepeat ((← get).pos - start + 1)
  | t :: before => do
    let greed ←
      if ← accept '?' then pure Greed.lazy
      else if ← accept '+' then pure Greed.possessive
      else pure Greed.greedy
    return .repeated least most greed t :: before

def quantify (c : Char) (terms : List Term) : Reader (List Term) := do
  let s ← get
  match c with
  | '?' => repeatLast s.pos 0 (some 1) terms
  | '*' => repeatLast s.pos 0 none terms
  | '+' => repeatLast s.pos 1 none terms
  | _ =>
    if (← next) = ['\x7d'] then return .code c.toNat :: terms
    match ← bounds with
    | some (least, most) => repeatLast s.pos least most terms
    | none =>
      set s
      return .code c.toNat :: terms

def isFlag (c : Char) : Bool := "iLmsxatu".toList.contains c

def isChoiceFlag (c : Char) : Bool := c == 'a' || c == 'u' || c == 'L'

def notAFlag {α : Type} (this : List Char) (expected : String) : Reader α := do
  let isLetter := match this with
    | [c] => isWord c && !isDecimal c && c != '_'
    | _ => false
  fault (if isLetter then .unknownFlag else .flagsCutShort expected) this.length

def flagsOn (c : Char) (flags : Flags) : Nat → Reader (Flags × Char)
  | 0 => fault .endsEarly 0
  | bound + 1 => do
    if c = 'L' then fault .localeFlag 0
    let flags := if flags.contains c then flags else flags ++ [c]
    if isChoiceFlag c && flags.any fun d => isChoiceFlag d && d != c then fault .clashingFlags 0
    match ← take with
    | [] => fault (.flagsCutShort "-, : or )") 0
    | [d] =>
      if d = ')' ∨ d = '-' ∨ d = ':' then return (flags, d)
      else if isFlag d then flagsOn d flags bound
      else notAFlag [d] "-, : or )"
    | this => notAFlag this "-, : or )"

def flagsOff (c : Char) (flags : Flags) : Nat → Reader Flags
  | 0 => fault .endsEarly 0
  | bound + 1 => do
    if isChoiceFlag c then fault .fixedFlagOff 0
    let flags := flags ++ [c]
    match ← take with
    | [] => fault (.flagsCutShort ":") 0
    | [d] =>
      if d = ':' then return flags
      else if isFlag d then flagsOff d flags bound
      else notAFlag [d] ":"
    | this => notAFlag this ":"

def groupFlags (c : Char) : Reader (Option (Flags × Flags)) := do
  let bound := (← remaining) + 1
  let (add, stop) ← if c = '-' then pure ([], '-') else flagsOn c [] bound
  if stop = ')' then
    modify fun s => { s with flags := s.flags ++ add }
    return none
  if add.contains 't' then fault .globalFlagOn 1
  let del ←
    if stop = '-' then
      match ← take with
      | [] => fault (.flagsCutShort "flag") 0
      | [d] => if isFlag d then flagsOff d [] bound else notAFlag [d] "flag"
      | this => notAFlag this "flag"
    else pure []
  if del.contains 't' then fault .globalFlagOff 1
  if add.any del.contains then fault .flagOnAndOff 1
  return some (add, del)

def isName (name : List Char) : Bool :=
  name.all isWord && name.head?.any fun c => !isDecimal c

def groupName (close : Char) : Reader (List Char) := do
  let name ← nameUpTo close "group name" [] ((← remaining) + 1)
  if !isName name then fault (.badName name) (name.length + 1)
  return name

def namedReference : Reader Term := do
  let name ← groupName ')'
  match (← get).names.lookup name with
  | none => fault (.unknownName name) (name.length + 1)
  | some n =>
    if !(← isClosed n) then fault .openReference (name.length + 1)
    checkBehind n
    return .backref n

def conditionGroup : Reader Nat := do
  let name ← nameUpTo ')' "group name" [] ((← remaining) + 1)
  let n ←
    if isName name then
      match (← get).names.lookup name with
      | none => fault (.unknownName name) (name.length + 1)
      | some n => pure n
    else if !name.all Char.isDigit then fault (.badName name) (name.length + 1)
    else
      let n := numberOf 10 name
      if n = 0 then fault .badGroupNumber (name.length + 1)
      if n ≥ 1073741823 then fault (.invalidReference n) (name.length + 1)
      let s ← get
      if (s.conditions.lookup n).isNone then
        set { s with conditions := s.conditions ++ [(n, s.pos - name.length - 1)] }
      pure n
  checkBehind n
  return n

def openGroup (name : Option (List Char)) : Reader Nat := do
  let n ← groupCount
  match name with
  | none => pure ()
  | some name =>
    match (← get).names.lookup name with
    | some old => fault (.redefinedName name n old) (name.length + 1)
    | none => modify fun s => { s with names := s.names ++ [(name, n)] }
  modify fun s => { s with widths := s.widths ++ [none] }
  return n

def closeGroup (n : Nat) (t : Term) : Reader Unit := do
  let w ← widthOf t
  modify fun s => { s with widths := s.widths.set n (some w) }

def closing (start : Nat) : Reader Unit := do
  if !(← accept ')') then fault .unterminatedGroup ((← get).pos - start)

def isVerboseBlank (c : Char) : Bool :=
  c == ' ' || c == '\t' || c == '\n' || c == '\r' || c == '\x0b' || c == '\x0c'

/-- What a parenthesis brings: a term, nothing, or flags for all that follows. -/
inductive Piece where
  | term (t : Term)
  | nothing
  | flags

mutual

def alternatives (verbose top : Bool) (done : List Term) : Nat → Reader Term
  | 0 => fault .endsEarly 0
  | bound + 1 => do
    let t ← sequence verbose (top && done.isEmpty) [] bound
    if ← accept '|' then
      let flags := (← get).flags
      alternatives (if top then flags.contains 'x' else verbose) top (done ++ [t]) bound
    else if done.isEmpty then return t
    else return .alt (done ++ [t])

def sequence (verbose first : Bool) (done : List Term) : Nat → Reader Term
  | 0 => fault .endsEarly 0
  | bound + 1 => do
    let this ← next
    if this.isEmpty || this = ['|'] || this = [')'] then return .seq done.reverse
    let _ ← take
    match this with
    | ['\\', c] =>
      let t ← termEscape c
      sequence verbose first (t :: done) bound
    | [c] =>
      if verbose && isVerboseBlank c then sequence verbose first done bound
      else if verbose && c = '#' then
        let _ ← skipPast '\n' ((← remaining) + 1)
        sequence verbose first done bound
      else if c = '[' then
        let t ← setTerm
        sequence verbose first (t :: done) bound
      else if "*+?\x7b".toList.contains c then
        let done ← quantify c done
        sequence verbose first done bound
      else if c = '(' then
        match ← parenthesis verbose (first && done.isEmpty) bound with
        | .term t => sequence verbose first (t :: done) bound
        | .nothing => sequence verbose first done bound
        | .flags =>
          let flags := (← get).flags
          sequence (flags.contains 'x') first done bound
      else
        let t : Term :=
          if c = '.' then .any
          else if c = '^' then .anchor .lineStart
          else if c = '$' then .anchor .lineEnd
          else .code c.toNat
        sequence verbose first (t :: done) bound
    | _ => return .seq done.reverse

def parenthesis (verbose first : Bool) : Nat → Reader Piece
  | 0 => fault .endsEarly 0
  | bound + 1 => do
    let start := (← get).pos - 1
    let plain (name : Option (List Char)) : Reader Piece := do
      let n ← openGroup name
      let t ← alternatives verbose false [] bound
      closing start
      closeGroup n t
      return .term (.group (some n) [] [] t)
    if !(← accept '?') then plain none
    else
      match ← take with
      | [] => fault .endsEarly 0
      | ['P'] =>
        if ← accept '<' then
          let name ← groupName '>'
          plain (some name)
        else if ← accept '=' then return .term (← namedReference)
        else
          match ← take with
          | [] => fault .endsEarly 0
          | mark => fault (.unknownExtension ('P' :: mark)) (mark.length + 2)
      | [':'] =>
        let t ← alternatives verbose false [] bound
        closing start
        return .term (.group none [] [] t)
      | ['#'] =>
        if ← skipPast ')' ((← remaining) + 1) then return .nothing
        else fault .unterminatedComment ((← get).pos - start)
      | ['='] =>
        let t ← alternatives verbose false [] bound
        closing start
        return .term (.look none false t)
      | ['!'] =>
        let t ← alternatives verbose false [] bound
        closing start
        return .term (.look none true t)
      | ['<'] =>
        let mark ← take
        if mark.isEmpty then fault .endsEarly 0
        if mark ≠ ['='] ∧ mark ≠ ['!'] then fault (.unknownExtension ('<' :: mark)) (mark.length + 2)
        let outer := (← get).behind
        modify fun s => { s with behind := some (outer.getD s.widths.length) }
        let t ← alternatives verbose false [] bound
        modify fun s => { s with behind := outer }
        closing start
        return .term (.look (some (← widthOf t)) (mark = ['!']) t)
      | ['('] =>
        let n ← conditionGroup
        let yes ← sequence verbose false [] bound
        let no ← if ← accept '|' then
            let no ← sequence verbose false [] bound
            if (← next) = ['|'] then fault .tooManyBranches 0
            pure no
          else pure (.seq [])
        closing start
        return .term (.ifGroup n yes no)
      | ['>'] =>
        let t ← alternatives verbose false [] bound
        closing start
        return .term (.atomic t)
      | [c] =>
        if isFlag c || c = '-' then
          match ← groupFlags c with
          | none => if first then return .flags else fault .lateFlags ((← get).pos - start)
          | some (add, del) =>
            let t ← alternatives ((verbose || add.contains 'x') && !del.contains 'x') false [] bound
            closing start
            return .term (.group none add del t)
        else fault (.unknownExtension [c]) 2
      | mark => fault (.unknownExtension mark) (mark.length + 1)

end

def wholePattern : Reader (Term × Flags) := do
  checkEnd
  let bound := 4 * (← remaining) + 8
  let t ← alternatives false true [] bound
  if !(← next).isEmpty then fault .unbalanced 0
  let s ← get
  match s.conditions.find? fun c => c.1 ≥ s.widths.length with
  | some (n, pos) => throw (.invalidReference n, some pos)
  | none => pure ()
  if t.hasLooseLook then throw (.looseLook, none)
  return (t, s.flags)

end ShortClass.Pattern
