import ShortClass.Toml.Reader

/-!
TOML documents, statement by statement.

A table is declared once. What an inline table or array holds can no longer change, and a table that a
dotted key has made cannot be declared later on.
-/

namespace ShortClass

namespace Toml

structure Document where
  table : Table := []
  header : Key := []
  declared : List Key := []
  dotted : List Key := []
  frozen : List Key := []

namespace Document

def isFrozen (d : Document) (k : Key) : Bool := d.frozen.any (·.isPrefixOf k)

def settled (d : Document) : Document := { d with declared := d.dotted ++ d.declared, dotted := [] }

def openTable (d : Document) (k : Key) : Except Fault Document := do
  if d.declared.contains k || d.isFrozen k then throw (.declaredTwice k)
  let table ← d.table.update true .ok k
  return { d with table, header := k, declared := k :: d.declared }

/-- Starts a new table in an array of tables; what was declared below the last one is free again. -/
def openElement (d : Document) (k : Key) : Except Fault Document := do
  if d.isFrozen k then throw (.immutable k)
  let free (ks : List Key) : List Key := ks.filter (!k.isPrefixOf ·)
  let table ← d.table.update true (Table.extendArray (k.getLast?.getD [])) k.dropLast
  return { d with table, header := k, declared := k :: free d.declared, frozen := free d.frozen }

def assign (d : Document) (k : Key) (v : Value) : Except Fault Document := do
  let above := (List.range (k.length - 1)).map fun i => d.header ++ k.take (i + 1)
  match above.find? d.declared.contains with
  | some other => throw (.redefined other)
  | none => pure ()
  let parent := d.header ++ k.dropLast
  if d.isFrozen parent then throw (.immutable parent)
  let table ← d.table.update true (Table.insert .overwritten (k.getLast?.getD []) v) parent
  let frozen := if v.isContainer then (d.header ++ k) :: d.frozen else d.frozen
  return { d with table, frozen, dotted := d.dotted ++ above }

end Document

open Reader

def statement (d : Document) : Reader Document := do
  match ← get with
  | '[' :: '[' :: rest =>
    set rest
    skipBlanks
    let k ← key
    let d ← lift (d.settled.openElement k)
    if ← accept "]]" then return d else fault .openArrayHeader
  | '[' :: rest =>
    set rest
    skipBlanks
    let k ← key
    let d ← lift (d.settled.openTable k)
    if ← accept "]" then return d else fault .openTableHeader
  | '#' :: _ => return d
  | c :: rest =>
    if isBare c || c = '"' || c = '\'' then
      let (k, v) ← keyValue (2 * rest.length + 8)
      lift (d.assign k v)
    else fault .badStatement
  | [] => return d

def document (d : Document) : Nat → Reader Document
  | 0 => return d
  | bound + 1 => do
    skipBlanks
    match ← get with
    | [] => return d
    | '\n' :: rest =>
      set rest
      document d bound
    | _ =>
      let d ← statement d
      skipBlanks
      skipComment
      match ← get with
      | [] => return d
      | '\n' :: rest =>
        set rest
        document d bound
      | _ => fault .afterStatement

end Toml

structure TomlError where
  fault : Toml.Fault
  position : Option Position

def TomlError.message (e : TomlError) : String :=
  let place := match e.position with
    | some p => s!"line {p.line}, column {p.column}"
    | none => "end of document"
  s!"{e.fault.message} (at {place})"

def Toml.parse (source : List Char) : Except TomlError Toml.Table :=
  match (Toml.document {} (source.length + 1)).run source with
  | .ok (d, _) => .ok d.table
  | .error (fault, left) =>
    .error ⟨fault, if left = 0 then none else some (Position.ofOffset source (source.length - left))⟩

end ShortClass
