import ShortClass.Edits
import ShortClass.Stylesheet.Selector
import ShortClass.Text.Position
import ShortClass.Text.Quoted

namespace ShortClass

structure StylesheetError where
  position : Position
  detail : List Char

def StylesheetError.message (e : StylesheetError) : String :=
  s!"stylesheet parse error at line {e.position.line}, column {e.position.column}: " ++ String.ofList e.detail

namespace Stylesheet

def SyntaxError.offset : SyntaxError → Nat
  | unexpected t => t.start
  | unexpectedEnd last => last.start
  | unreadable offset _ => offset

def SyntaxError.detail (p : Position) : SyntaxError → String
  | unexpected t =>
    s!"Unexpected token Token('{t.kind.name}', {Quoted.toString t.text}) at line {p.line}, column {p.column}."
  | unexpectedEnd _ => s!"Unexpected token Token('$END', '') at line {p.line}, column {p.column}."
  | unreadable _ c =>
    s!"No terminal matches '{c}' in the current parser context, at line {p.line} col {p.column}"

def SyntaxError.locate (source : List Char) (e : SyntaxError) : StylesheetError :=
  let p := Position.ofOffset source e.offset
  ⟨p, firstLine (e.detail p).toList⟩

end Stylesheet

abbrev Stylesheet := List Stylesheet.Statement

namespace Stylesheet

def parse (source : List Char) : Except StylesheetError Stylesheet :=
  (statements source).mapError (·.locate source)

def components (sheet : Stylesheet) : List Component :=
  (selectorsOf sheet).flatMap fun p => p.flatMap Segment.components

def classes (source : List Char) : Except StylesheetError (List ClassName) := do
  return (components (← parse source)).map (·.value)

inductive RenameError where
  | sheet (e : StylesheetError)
  | edit (e : EditError)

def renameEdits (rename : ClassName → Option ClassName) (cs : List Component) : List (Edit Char) :=
  cs.filterMap fun c =>
    match rename c.value with
    | some name => if name = c.value then none else some ⟨c.start, c.stop, name⟩
    | none => none

def renameClasses (rename : ClassName → Option ClassName) (source : List Char) :
    Except RenameError (List Char) := do
  let sheet ← (parse source).mapError .sheet
  (EditBuffer.applyAll source (renameEdits rename (components sheet))).mapError .edit

end Stylesheet

end ShortClass
