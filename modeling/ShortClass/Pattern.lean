import ShortClass.Pattern.Match
import ShortClass.Pattern.Reader
import ShortClass.Text.Position

namespace ShortClass

structure Pattern where
  source : List Char
  flags : Pattern.Flags
  term : Pattern.Term

structure PatternError where
  source : List Char
  fault : Pattern.Fault
  offset : Option Nat

namespace PatternError

def place (e : PatternError) : String :=
  match e.offset with
  | none => ""
  | some n =>
    let p := Position.ofOffset e.source n
    let line := if e.source.contains '\n' then s!" (line {p.line}, column {p.column})" else ""
    s!" at position {n}" ++ line

def message (e : PatternError) : String :=
  s!"Invalid exclude pattern {Quoted.toString e.source}: {e.fault.message}{e.place}"

end PatternError

namespace Pattern

def compile (source : List Char) : Except PatternError Pattern :=
  match wholePattern.run { pos := 0, rest := source } with
  | .ok ((term, flags), _) => .ok ⟨source, flags, term⟩
  | .error (fault, offset) => .error ⟨source, fault, offset⟩

def occursFrom (p : Pattern) (before : List Char) : List Char → Bool
  | [] => (p.term.run p.flags some ⟨before, [], []⟩).isSome
  | c :: rest => (p.term.run p.flags some ⟨before, c :: rest, []⟩).isSome || p.occursFrom (c :: before) rest

def occursIn (p : Pattern) (text : List Char) : Bool := p.occursFrom [] text

end Pattern

end ShortClass
