import ShortClass.ClassMap
import ShortClass.Edits
import ShortClass.Program.Literal
import ShortClass.Usage

namespace ShortClass

/-- Counts the tokens of a span; a last token glued to run-time text may be the stem of a name. -/
def Usage.recordSpan (u : Usage) (s : Program.Span) : Usage :=
  let u := u.recordList s.value
  if ClassList.gluedRight s.joins s.value then
    match s.value.tokens.getLast? with
    | some t => u.recordStem t
    | none => u
  else u

def Usage.recordProgram (u : Usage) (p : Program) : Usage :=
  (p.literals.flatMap Program.Literal.spans).foldl recordSpan u

namespace Program

def Span.edit? (lookup : Text → Option Text) (s : Span) : Option (Edit Char) :=
  ((ClassList.renamed lookup s.joins s.value).source? s.value s.quote s.raw).map fun t =>
    ⟨s.start, s.stop, t.toChars⟩

def edits (lookup : Text → Option Text) (p : Program) : List (Edit Char) :=
  (p.literals.filter fun l => !l.isProtected).flatMap fun l => l.spans.filterMap (Span.edit? lookup)

def rename (lookup : Text → Option Text) (p : Program) : Except EditError (List Char) :=
  EditBuffer.applyAll p.source (p.edits lookup)

end Program

end ShortClass
