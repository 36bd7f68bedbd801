import ShortClass.Pattern.Term
import ShortClass.Text.Blank
import ShortClass.Text.Case
import ShortClass.Text.Word

/-!
Matching a term by backtracking.

A spot is a place in a text with the captures made on the way to it. `Term.run` is given what has to
come after the term, and tries the ways to match the term in order of preference until that succeeds.
-/

namespace ShortClass.Pattern

structure Spot where
  before : List Char
  after : List Char
  captures : List (Nat × List Char) := []

namespace Spot

def start (text : List Char) : Spot := ⟨[], text, []⟩

def text (s : Spot) : List Char := s.before.reverse ++ s.after

def pos (s : Spot) : Nat := s.before.length

def step? (p : Char → Bool) (s : Spot) : Option Spot :=
  match s.after with
  | c :: rest => if p c then some { s with before := c :: s.before, after := rest } else none
  | [] => none

def back? (s : Spot) : Nat → Option Spot
  | 0 => some s
  | n + 1 =>
    match s.before with
    | c :: before => back? { s with before, after := c :: s.after } n
    | [] => none

def past? (same : Char → Char → Bool) (s : Spot) : List Char → Option Spot
  | [] => some s
  | c :: cs => (s.step? (same c)).bind fun t => t.past? same cs

def capture (s : Spot) (n : Nat) (since : Spot) : Spot :=
  { s with captures := (n, (s.before.take (s.pos - since.pos)).reverse) :: s.captures }

def isAtEdge (isWord : Char → Bool) (s : Spot) : Bool :=
  s.before.head?.any isWord != s.after.head?.any isWord

end Spot

namespace Flags

def isAscii (flags : Flags) : Bool := flags.contains 'a'

def ignoresCase (flags : Flags) : Bool := flags.contains 'i'

def wordTest (flags : Flags) : Char → Bool := if flags.isAscii then isAsciiWord else isWord

def lower (flags : Flags) (n : Nat) : Nat := if flags.isAscii then asciiLowerCode n else lowerCode n

def folded (flags : Flags) (n : Nat) : List Nat :=
  if flags.isAscii then [asciiLowerCode n] else foldClass (lowerCode n)

def unfolded (flags : Flags) (n : Nat) : List Nat :=
  if flags.isAscii then if 97 ≤ n && n ≤ 122 then [n, n - 32] else [n]
  else (foldClass n).flatMap lowerSources

def sameChar (flags : Flags) (c d : Char) : Bool :=
  if flags.ignoresCase then flags.lower c.toNat == flags.lower d.toNat else c == d

def isCode (flags : Flags) (n : Nat) (c : Char) : Bool :=
  if flags.ignoresCase && (flags.isAscii || isCased n) then (flags.folded n).contains (flags.lower c.toNat)
  else c.toNat == n

end Flags

def isAsciiSpace (c : Char) : Bool := c == ' ' || ('\t' ≤ c && c ≤ '\r')

def CharKind.holds (flags : Flags) (c : Char) : CharKind → Bool
  | digit => if flags.isAscii then c.isDigit else isDecimal c
  | space => if flags.isAscii then isAsciiSpace c else isSpace c
  | word => flags.wordTest c

namespace SetItem

def holds (flags : Flags) (c : Char) : SetItem → Bool
  | code n => c.toNat == n
  | range lo hi => lo ≤ c.toNat && c.toNat ≤ hi
  | kind k negated => k.holds flags c != negated

def holdsFolded (flags : Flags) (c : Char) : SetItem → Bool
  | code n => (flags.folded n).contains (flags.lower c.toNat)
  | range lo hi => (flags.unfolded (flags.lower c.toNat)).any fun m => lo ≤ m && m ≤ hi
  | kind k negated => k.holds flags (Char.ofNat (flags.lower c.toNat)) != negated

def hasCase : SetItem → Bool
  | code n => isCased n
  | range _ _ => true
  | kind _ _ => false

end SetItem

def isInSet (flags : Flags) (negated : Bool) (items : List SetItem) (c : Char) : Bool :=
  let isIn :=
    if flags.ignoresCase && items.any SetItem.hasCase then items.any (·.holdsFolded flags c)
    else items.any (·.holds flags c)
  isIn != negated

def Anchor.holds (flags : Flags) (s : Spot) : Anchor → Bool
  | lineStart => s.before.isEmpty || (flags.contains 'm' && s.before.head? == some '\n')
  | lineEnd =>
    s.after.isEmpty || s.after == ['\n'] || (flags.contains 'm' && s.after.head? == some '\n')
  | textStart => s.before.isEmpty
  | textEnd => s.after.isEmpty
  | wordEdge => s.isAtEdge flags.wordTest
  | noWordEdge => !s.text.isEmpty && !s.isAtEdge flags.wordTest

abbrev Matcher := (Spot → Option Spot) → Spot → Option Spot

/-- Repeats `body`, which has matched `count` times. Once there are `least` matches, no further one
starts where the last of them started, so that empty matches come to an end. -/
def repeatWith (body : Matcher) (least : Nat) (most : Option Nat) (isLazy : Bool)
    (k : Spot → Option Spot) : Nat → Nat → Option Nat → Spot → Option Spot
  | 0, _, _, _ => none
  | fuel + 1, count, last, s =>
    if count < least then body (repeatWith body least most isLazy k fuel (count + 1) last) s
    else
      let isOpen := most.all (count < ·) && last != some s.pos
      let more (_ : Unit) : Option Spot :=
        if isOpen then body (repeatWith body least most isLazy k fuel (count + 1) (some s.pos)) s else none
      if isLazy then (k s).orElse more else (more ()).orElse fun _ => k s

def repeatAll (body : Matcher) (least : Nat) (most : Option Nat) : Nat → Nat → Spot → Option Spot
  | 0, _, _ => none
  | fuel + 1, count, s =>
    if count < least then (body some s).bind (repeatAll body least most fuel (count + 1))
    else if most.all (count < ·) then
      match body some s with
      | some t => if t.pos = s.pos then some t else repeatAll body least most fuel (count + 1) t
      | none => some s
    else some s

namespace Term

mutual

def run (flags : Flags) : Term → (Spot → Option Spot) → Spot → Option Spot
  | code n, k, s => (s.step? (flags.isCode n)).bind k
  | any, k, s => (s.step? fun c => flags.contains 's' || c != '\n').bind k
  | set negated items, k, s => (s.step? (isInSet flags negated items)).bind k
  | anchor a, k, s => if a.holds flags s then k s else none
  | seq ts, k, s => runSeq flags ts k s
  | alt ts, k, s => runAlt flags ts k s
  | group index add del t, k, s =>
    t.run (flags.change add del)
      (fun e => k (match index with
        | some n => e.capture n s
        | none => e)) s
  | atomic t, k, s => (t.run flags some s).bind k
  | look behind negated t, k, s =>
    let found := (s.back? ((behind.map Width.lo).getD 0)).bind fun b => t.run flags some b
    match found, negated with
    | some e, false => k { s with captures := e.captures }
    | none, true => k s
    | _, _ => none
  | backref n, k, s =>
    ((s.captures.lookup n).bind fun cs => s.past? flags.sameChar cs).bind k
  | ifGroup n yes no, k, s =>
    if (s.captures.lookup n).isSome then yes.run flags k s else no.run flags k s
  | repeated least most greed t, k, s =>
    let fuel := least + s.after.length + 2
    match greed with
    | .possessive => (repeatAll (t.run flags) least most fuel 0 s).bind k
    | .greedy => repeatWith (t.run flags) least most false k fuel 0 none s
    | .lazy => repeatWith (t.run flags) least most true k fuel 0 none s

def runSeq (flags : Flags) : List Term → (Spot → Option Spot) → Spot → Option Spot
  | [], k, s => k s
  | t :: ts, k, s => t.run flags (runSeq flags ts k) s

def runAlt (flags : Flags) : List Term → (Spot → Option Spot) → Spot → Option Spot
  | [], _, _ => none
  | t :: ts, k, s => (t.run flags k s).orElse fun _ => runAlt flags ts k s

end

end Term

end ShortClass.Pattern
