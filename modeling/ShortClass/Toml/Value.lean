import ShortClass.Text.Position
import ShortClass.Text.Quoted

namespace ShortClass.Toml

abbrev Name := List Char

abbrev Key := List Name

inductive Value where
  | string (text : List Char)
  | boolean (b : Bool)
  | number (source : List Char)
  | date (source : List Char)
  | array (values : List Value)
  | table (entries : List (Name × Value))

abbrev Table := List (Name × Value)

def Value.isContainer : Value → Bool
  | array _ => true
  | table _ => true
  | _ => false

def Key.toString (key : Key) : String :=
  match key with
  | [name] => s!"({Quoted.toString name},)"
  | _ => "(" ++ ", ".intercalate (key.map Quoted.toString) ++ ")"

inductive Fault where
  | badStatement
  | afterStatement
  | missing (close : List Char)
  | invalidChar (c : Char)
  | illegalChar (c : Char)
  | declaredTwice (key : Key)
  | immutable (key : Key)
  | redefined (key : Key)
  | overwritten
  | duplicateName (name : Name)
  | openTableHeader
  | openArrayHeader
  | missingEquals
  | badKey
  | openArray
  | openTable
  | openString
  | badEscape
  | badHex
  | notScalar
  | badDate
  | badValue

def Fault.message : Fault → String
  | badStatement => "Invalid statement"
  | afterStatement => "Expected newline or end of document after a statement"
  | missing close => "Expected " ++ Quoted.toString close
  | invalidChar c => "Found invalid character " ++ Quoted.toString [c]
  | illegalChar c => "Illegal character " ++ Quoted.toString [c]
  | declaredTwice key => s!"Cannot declare {key.toString} twice"
  | immutable key => "Cannot mutate immutable namespace " ++ key.toString
  | redefined key => "Cannot redefine namespace " ++ key.toString
  | overwritten => "Cannot overwrite a value"
  | duplicateName name => "Duplicate inline table key " ++ Quoted.toString name
  | openTableHeader => "Expected ']' at the end of a table declaration"
  | openArrayHeader => "Expected ']]' at the end of an array declaration"
  | missingEquals => "Expected '=' after a key in a key/value pair"
  | badKey => "Invalid initial character for a key part"
  | openArray => "Unclosed array"
  | openTable => "Unclosed inline table"
  | openString => "Unterminated string"
  | badEscape => "Unescaped '\\' in a string"
  | badHex => "Invalid hex value"
  | notScalar => "Escaped character is not a Unicode scalar value"
  | badDate => "Invalid date or datetime"
  | badValue => "Invalid value"

namespace Table

def get? (t : Table) (name : Name) : Option Value := List.lookup name t

def put (t : Table) (name : Name) (v : Value) : Table :=
  match t with
  | [] => [(name, v)]
  | (n, w) :: rest => if n = name then (n, v) :: rest else (n, w) :: put rest name v

/-- Changes the table under a key, which is made where it is missing. Where `intoArrays` holds, an
array stands for the last table in it. -/
def update (intoArrays : Bool) (f : Table → Except Fault Table) : Key → Table → Except Fault Table
  | [], t => f t
  | name :: key, t => do
    match t.get? name with
    | none => return t.put name (.table (← update intoArrays f key []))
    | some (.table u) => return t.put name (.table (← update intoArrays f key u))
    | some (.array vs) =>
      match intoArrays, vs.getLast? with
      | true, some (.table u) =>
        return t.put name (.array (vs.dropLast ++ [.table (← update intoArrays f key u)]))
      | _, _ => throw .overwritten
    | some _ => throw .overwritten

def insert (taken : Fault) (name : Name) (v : Value) (t : Table) : Except Fault Table :=
  match t.get? name with
  | some _ => .error taken
  | none => .ok (t.put name v)

def extendArray (name : Name) (t : Table) : Except Fault Table :=
  match t.get? name with
  | none => .ok (t.put name (.array [.table []]))
  | some (.array vs) => .ok (t.put name (.array (vs ++ [.table []])))
  | some _ => .error .overwritten

end Table

end ShortClass.Toml
