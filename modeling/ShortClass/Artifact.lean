import ShortClass.Path

namespace ShortClass

inductive Artifact.Kind where
  | stylesheet
  | program
  | other
  deriving DecidableEq

def Artifact.Kind.name : Kind → String
  | stylesheet => "stylesheet"
  | program => "program"
  | other => "other"

def Artifact.Kind.ofPath (path : Path) : Kind :=
  let ext := String.ofList (path.extension.map Char.toLower)
  if ext == ".css" then stylesheet
  else if [".js", ".mjs", ".cjs", ".jsx"].contains ext then program
  else other

structure Artifact where
  name : List Char
  kind : Artifact.Kind
  text : List Char

def Artifact.ofFile (name text : List Char) : Artifact := ⟨name, .ofPath (Path.ofChars name), text⟩

end ShortClass
