import ShortClass.Text.Quoted

namespace ShortClass.Pattern

abbrev Flags := List Char

def Flags.change (flags add del : Flags) : Flags :=
  let isChoice (c : Char) : Bool := c == 'a' || c == 'u' || c == 'L'
  let kept := if add.any isChoice then flags.filter (!isChoice ·) else flags
  (kept ++ add).filter (!del.contains ·)

inductive CharKind where
  | digit
  | space
  | word
  deriving DecidableEq

inductive SetItem where
  | code (n : Nat)
  | range (lo hi : Nat)
  | kind (k : CharKind) (negated : Bool)
  deriving DecidableEq

inductive Anchor where
  | lineStart
  | lineEnd
  | textStart
  | textEnd
  | wordEdge
  | noWordEdge
  deriving DecidableEq

inductive Greed where
  | greedy
  | lazy
  | possessive
  deriving DecidableEq

structure Width where
  lo : Nat
  hi : Nat
  deriving DecidableEq

inductive Term where
  | code (n : Nat)
  | any
  | set (negated : Bool) (items : List SetItem)
  | anchor (a : Anchor)
  | seq (ts : List Term)
  | alt (ts : List Term)
  | group (index : Option Nat) (add del : Flags) (t : Term)
  | atomic (t : Term)
  | look (behind : Option Width) (negated : Bool) (t : Term)
  | backref (n : Nat)
  | ifGroup (n : Nat) (yes no : Term)
  | repeated (min : Nat) (max : Option Nat) (greed : Greed) (t : Term)

namespace Term

/-- The width from which on widths are not told apart. -/
def unbounded : Nat := 0x10000000000000000

mutual

def width (groups : Nat → Width) : Term → Width
  | code _ => ⟨1, 1⟩
  | any => ⟨1, 1⟩
  | set _ _ => ⟨1, 1⟩
  | anchor _ => ⟨0, 0⟩
  | seq ts => widthOfSeq groups ts
  | alt ts => widthOfAlt groups ts
  | group _ _ _ t => t.width groups
  | atomic t => t.width groups
  | look _ _ _ => ⟨0, 0⟩
  | backref n => groups n
  | ifGroup _ yes no =>
    let a := yes.width groups
    let b := no.width groups
    ⟨min a.lo b.lo, max a.hi b.hi⟩
  | repeated lo hi _ t =>
    let w := t.width groups
    ⟨min (w.lo * lo) unbounded,
      match hi with
      | none => if w.hi = 0 then 0 else unbounded
      | some n => min (w.hi * n) unbounded⟩

def widthOfSeq (groups : Nat → Width) : List Term → Width
  | [] => ⟨0, 0⟩
  | t :: ts =>
    let a := t.width groups
    let b := widthOfSeq groups ts
    ⟨min (a.lo + b.lo) unbounded, min (a.hi + b.hi) unbounded⟩

def widthOfAlt (groups : Nat → Width) : List Term → Width
  | [] => ⟨unbounded, 0⟩
  | t :: ts =>
    let a := t.width groups
    let b := widthOfAlt groups ts
    ⟨min a.lo b.lo, max a.hi b.hi⟩

def hasLooseLook : Term → Bool
  | seq ts => anyLooseLook ts
  | alt ts => anyLooseLook ts
  | group _ _ _ t => t.hasLooseLook
  | atomic t => t.hasLooseLook
  | look behind _ t => behind.any (fun w => w.lo != w.hi) || t.hasLooseLook
  | ifGroup _ yes no => yes.hasLooseLook || no.hasLooseLook
  | repeated _ _ _ t => t.hasLooseLook
  | _ => false

def anyLooseLook : List Term → Bool
  | [] => false
  | t :: ts => t.hasLooseLook || anyLooseLook ts

end

end Term

inductive Fault where
  | endsInBackslash
  | incompleteEscape (escape : List Char)
  | badEscape (escape : List Char)
  | octalTooLarge (escape : List Char)
  | missingBrace
  | unknownCharacterName (name : List Char)
  | openReference
  | referenceIntoLook
  | invalidReference (n : Nat)
  | unterminatedSet
  | badRange (lo hi : List Char)
  | minAboveMax
  | nothingToRepeat
  | multipleRepeat
  | endsEarly
  | missingName (what : String)
  | unterminatedName (close : Char)
  | badName (name : List Char)
  | unknownName (name : List Char)
  | redefinedName (name : List Char) (new old : Nat)
  | unknownExtension (mark : List Char)
  | unterminatedComment
  | unterminatedGroup
  | tooManyBranches
  | badGroupNumber
  | lateFlags
  | unbalanced
  | localeFlag
  | clashingFlags
  | unknownFlag
  | flagsCutShort (expected : String)
  | globalFlagOn
  | globalFlagOff
  | fixedFlagOff
  | flagOnAndOff
  | looseLook

def Fault.message : Fault → String
  | endsInBackslash => "bad escape (end of pattern)"
  | incompleteEscape e => "incomplete escape " ++ String.ofList e
  | badEscape e => "bad escape " ++ String.ofList e
  | octalTooLarge e => s!"octal escape value {String.ofList e} outside of range 0-0o377"
  | missingBrace => "missing \x7b"
  | unknownCharacterName name => "undefined character name " ++ Quoted.toString name
  | openReference => "cannot refer to an open group"
  | referenceIntoLook => "cannot refer to group defined in the same lookbehind subpattern"
  | invalidReference n => s!"invalid group reference {n}"
  | unterminatedSet => "unterminated character set"
  | badRange lo hi => s!"bad character range {String.ofList lo}-{String.ofList hi}"
  | minAboveMax => "min repeat greater than max repeat"
  | nothingToRepeat => "nothing to repeat"
  | multipleRepeat => "multiple repeat"
  | endsEarly => "unexpected end of pattern"
  | missingName what => "missing " ++ what
  | unterminatedName close => s!"missing {close}, unterminated name"
  | badName name => "bad character in group name " ++ Quoted.toString name
  | unknownName name => "unknown group name " ++ Quoted.toString name
  | redefinedName name new old =>
    s!"redefinition of group name {Quoted.toString name} as group {new}; was group {old}"
  | unknownExtension mark => "unknown extension ?" ++ String.ofList mark
  | unterminatedComment => "missing ), unterminated comment"
  | unterminatedGroup => "missing ), unterminated subpattern"
  | tooManyBranches => "conditional backref with more than two branches"
  | badGroupNumber => "bad group number"
  | lateFlags => "global flags not at the start of the expression"
  | unbalanced => "unbalanced parenthesis"
  | localeFlag => "bad inline flags: cannot use 'L' flag with a str pattern"
  | clashingFlags => "bad inline flags: flags 'a', 'u' and 'L' are incompatible"
  | unknownFlag => "unknown flag"
  | flagsCutShort expected => "missing " ++ expected
  | globalFlagOn => "bad inline flags: cannot turn on global flag"
  | globalFlagOff => "bad inline flags: cannot turn off global flag"
  | fixedFlagOff => "bad inline flags: cannot turn off flags 'a', 'u' and 'L'"
  | flagOnAndOff => "bad inline flags: flag turned on and off"
  | looseLook => "look-behind requires fixed-width pattern"

end ShortClass.Pattern
