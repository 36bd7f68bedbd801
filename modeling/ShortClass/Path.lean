import ShortClass.Text.Order

/-!
Paths, as the parts between slashes.

A path that starts with a slash has that slash as its first part. Single dots and doubled slashes say
nothing, so they are no parts.
-/

namespace ShortClass

abbrev Path := List (List Char)

namespace Path

/-- The part that stands for leading slashes: exactly two of them differ from any other number. -/
def root (s : List Char) : Path :=
  match (s.takeWhile (· == '/')).length with
  | 0 => []
  | 2 => [['/', '/']]
  | _ => [['/']]

def ofChars (s : List Char) : Path :=
  root s ++ (s.splitBy fun a b => a != '/' && b != '/').filter fun part => part != ['/'] && part != ['.']

def isRoot (part : List Char) : Bool := part.head? == some '/'

def isAbsolute (p : Path) : Bool := p.head?.any isRoot

def joinParts : Path → List Char
  | [] => []
  | [part] => part
  | part :: rest => part ++ '/' :: joinParts rest

def toChars (p : Path) : List Char :=
  match p with
  | [] => ['.']
  | part :: rest => if isRoot part then part ++ joinParts rest else joinParts p

def join (p q : Path) : Path := if q.isAbsolute then q else p ++ q

def parent (p : Path) : Path :=
  match p with
  | [part] => if isRoot part then p else []
  | _ => p.dropLast

def name (p : Path) : List Char :=
  match p.getLast? with
  | some part => if isRoot part then [] else part
  | none => []

def extension (p : Path) : List Char :=
  let ext := (p.name.reverse.takeWhile (· != '.')).reverse
  if ext.isEmpty || p.name.length ≤ ext.length + 1 then [] else '.' :: ext

def le : Path → Path → Bool
  | [], _ => true
  | _ :: _, [] => false
  | a :: p, b :: q => if a = b then le p q else charsLe a b

end Path

end ShortClass
