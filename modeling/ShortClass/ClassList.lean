import ShortClass.Program.Escape
import ShortClass.Text.Blank

/-!
Renaming in a class list.

A value is a class list when one of its tokens is a class that has a name. Its tokens are looked up one
by one and joined again by single spaces. Where the program glues run-time text onto an edge, a space
is kept there unless the token at the edge may be a part of a name, and a last token that a run-time
text completes stays as it is.
-/

namespace ShortClass

structure Joins where
  left : Bool := false
  right : Bool := false
  deriving DecidableEq

inductive Renaming where
  | none
  | full (text : Text)
  | upToStem (text stem : Text)
  deriving DecidableEq

def Renaming.text? : Renaming → Option Text
  | none => .none
  | full t => some t
  | upToStem t _ => some t

namespace ClassList

def spaced : List Text → Text
  | [] => []
  | [t] => t
  | t :: ts => t ++ .scalar ' ' :: spaced ts

def gluedLeft (j : Joins) (value : Text) : Bool := j.left && !value.startsBlank

def gluedRight (j : Joins) (value : Text) : Bool := j.right && !value.endsBlank

/-- The space at a joined edge, left out where `token` may go on in the glued text. -/
def edge (lookup : Text → Option Text) (joined glued : Bool) (token : Text) : Text :=
  if !joined || (glued && (lookup token).isNone) then [] else [.scalar ' ']

def rename (lookup : Text → Option Text) (t : Text) : Text := (lookup t).getD t

def renamed (lookup : Text → Option Text) (j : Joins) (value : Text) : Renaming :=
  match value.tokens with
  | [] => .none
  | first :: rest =>
    let tokens := first :: rest
    let last := tokens.getLast (by simp [tokens])
    let lead := edge lookup j.left (gluedLeft j value) first
    if gluedRight j value && last.isFragment then
      let whole := tokens.dropLast
      if whole.isEmpty || !whole.all fun t => (lookup t).isSome then .none
      else .upToStem (lead ++ spaced (whole.map (rename lookup)) ++ .scalar ' ' :: last) last
    else if tokens.any fun t => (lookup t).isSome then
      .full (lead ++ spaced (tokens.map (rename lookup)) ++ edge lookup j.right (gluedRight j value) last)
    else .none

theorem renamed_of_tokens_nil {lookup : Text → Option Text} {j : Joins} {value : Text}
    (h : value.tokens = []) : renamed lookup j value = .none := by
  simp [renamed, h]

end ClassList

def Renaming.source? (r : Renaming) (value : Text) (q : Quote) (raw : Bool) : Option Text :=
  match r.text? with
  | .none => .none
  | some t => if t = value then .none else some (if raw then t else Text.ofChars (escape q t))

end ShortClass
