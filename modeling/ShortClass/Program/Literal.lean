import ShortClass.ClassList
import ShortClass.Program.Parse

/-!
The string and template literals of a program, with what their surroundings say about them.

A literal is reported as spans of literal text: one for a string, one before, between and after the
interpolations of a template. Each span knows on which sides run-time text is glued to it. A literal
whose text can hold no class list is protected.
-/

namespace ShortClass.Program

/-- How many links to parents are followed when the surroundings of a literal are looked at. -/
def maxLinks : Nat := 64

structure Link where
  parent : Node
  index : Nat

abbrev Ancestry := List Link

structure Span where
  start : Nat
  stop : Nat
  value : Text
  quote : Quote
  joins : Joins := {}
  raw : Bool := false

inductive Literal where
  | string (span : Span) (isProtected : Bool)
  | template (chunks : List Span) (isProtected tagged : Bool)

namespace Literal

def spans : Literal → List Span
  | string s _ => [s]
  | template cs _ _ => cs

def isProtected : Literal → Bool
  | string _ p => p
  | template _ p _ => p

end Literal

namespace Ancestry

def outsideParentheses (p : Ancestry) : Ancestry := p.dropWhile fun l => l.parent.kind = .parenthesized

/-- Follows at most `bound` concatenations upwards. A side is joined where the node, or the chain it has
been the edge of so far, is the other operand. -/
def joinsUpTo : Nat → (leftmost rightmost : Bool) → Ancestry → Joins
  | 0, _, _, _ => {}
  | bound + 1, leftmost, rightmost, p =>
    match p.outsideParentheses with
    | [] => {}
    | l :: above =>
      if !(leftmost || rightmost) then {}
      else if l.parent.kind = .sum ∨ l.parent.kind = .sumAssignment then
        if l.index = 0 then
          let j := joinsUpTo bound leftmost false above
          { j with right := rightmost || j.right }
        else
          let j := joinsUpTo bound false rightmost above
          { j with left := leftmost || j.left }
      else {}

def joins (p : Ancestry) : Joins := joinsUpTo maxLinks true true p

end Ancestry

def keyText? (p : Program) (key : Node) : Option (List Char) :=
  match key.kind with
  | .identifier => some (p.text key.start key.stop)
  | .string => some (p.text (key.start + 1) (key.stop - 1))
  | _ => none

/-- Does the link lead out of the value of a property or an attribute named `style`? -/
def isStyleLink (p : Program) (l : Link) : Bool :=
  let named := (l.parent.children.head?.bind p.keyText?) == some "style".toList
  match l.parent.kind with
  | .pair => l.index = 1 && named
  | .markupAttribute => named
  | _ => false

def inStyleValue (p : Program) (path : Ancestry) : Bool := (path.take maxLinks).any p.isStyleLink

def namesModule (path : Ancestry) : Bool :=
  match path with
  | [] => false
  | l :: above =>
    match l.parent.kind with
    | .importStatement => true
    | .exportStatement => true
    | .arguments =>
      match above with
      | ⟨.mk .call _ _ (function :: _), _⟩ :: _ => function.kind = .importWord
      | _ => false
    | _ => false

def parentIs (k : Kind) (path : Ancestry) : Bool := path.head?.any fun l => l.parent.kind = k

def isTagged (path : Ancestry) : Bool := path.head?.any fun l => l.parent.kind = .call && l.index = 1

def quoteOf (c : Char) : Quote := if c = '"' then .double else if c = '\'' then .single else .backtick

def quoteAt (p : Program) (i : Nat) : Quote := (p.source[i]?.map quoteOf).getD .backtick

def stringLiteral (p : Program) (path : Ancestry) (n : Node) : Literal :=
  let start := n.start + 1
  let stop := n.stop - 1
  let written := Text.ofChars (p.text start stop)
  let raw := parentIs .markupAttribute path
  let span : Span := ⟨start, stop, if raw then written else cook written, p.quoteAt n.start, path.joins, raw⟩
  .string span (parentIs .expressionStatement path || namesModule path || p.inStyleValue path)

def chunkBounds (position stop : Nat) : List Node → List (Nat × Nat)
  | [] => [(position, stop)]
  | n :: ns =>
    if n.kind = .substitution then (position, n.start) :: chunkBounds n.stop stop ns
    else chunkBounds position stop ns

def chunks (p : Program) (outer : Joins) (afterFirst : Bool) : List (Nat × Nat) → List Span
  | [] => []
  | (start, stop) :: rest =>
    ⟨start, stop, cook (Text.ofChars (p.text start stop)), .backtick,
      ⟨afterFirst || outer.left, !rest.isEmpty || outer.right⟩, false⟩ :: chunks p outer true rest

def templateLiteral (p : Program) (path : Ancestry) (n : Node) : Literal :=
  let tagged := isTagged path
  let bounds := chunkBounds (n.start + 1) (n.stop - 1) n.children
  .template (p.chunks path.joins false bounds) (tagged || p.inStyleValue path) tagged

mutual

def literalsIn (p : Program) (path : Ancestry) : Node → List Literal
  | .mk .string s e cs => [p.stringLiteral path (.mk .string s e cs)]
  | .mk .template s e cs =>
    let n := Node.mk .template s e cs
    p.templateLiteral path n :: literalsInAll p n path 0 cs
  | .mk k s e cs => literalsInAll p (.mk k s e cs) path 0 cs

def literalsInAll (p : Program) (parent : Node) (path : Ancestry) (index : Nat) : List Node → List Literal
  | [] => []
  | n :: ns => literalsIn p (⟨parent, index⟩ :: path) n ++ literalsInAll p parent path (index + 1) ns

end

def literals (p : Program) : List Literal := p.literalsIn [] p.root

def byteOffset (p : Program) (n : Nat) : Nat :=
  (p.source.take n).foldl (fun bytes c => bytes + c.utf8Size) 0

end ShortClass.Program
