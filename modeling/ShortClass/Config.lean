import ShortClass.Path
import ShortClass.Pattern
import ShortClass.Toml

namespace ShortClass

structure Config where
  exclude : List (List Char) := []
  verbose : Bool := false
  mapFile : List Char := "class-map.json".toList
  source : Option Path := none

structure Overrides where
  exclude : List (List Char) := []
  verbose : Option Bool := none
  mapFile : Option (List Char) := none

inductive ConfigError where
  | notFound (path : Path)
  | toml (path : Path) (e : TomlError)
  | noTable
  | unknownKeys (path : Path) (names : List (List Char))
  | badExclude
  | badVerbose
  | badMapFile
  | pattern (e : PatternError)

def ConfigError.message : ConfigError → String
  | notFound path => "Config file not found: " ++ String.ofList path.toChars
  | toml path e => s!"Invalid TOML in {String.ofList path.toChars}: {e.message}"
  | noTable => "[tool.mimicss] must be a table"
  | unknownKeys path names =>
    s!"Unknown config key(s) in {String.ofList path.toChars}: " ++ ", ".intercalate (names.map String.ofList)
  | badExclude => "'exclude' must be a string or a list of strings"
  | badVerbose => "'verbose' must be a boolean"
  | badMapFile => "'map_file' must be a non-empty string"
  | pattern e => e.message

namespace Config

def isDefault (c : Config) : Bool :=
  c.exclude.isEmpty && !c.verbose && c.mapFile == ({} : Config).mapFile

def keys : List String := ["exclude", "verbose", "map_file"]

/-- The table of settings: the one for this program under `tool`, or the whole document if it has no
`tool`. -/
def settings (document : Toml.Table) : Except ConfigError Toml.Table :=
  match document.get? "tool".toList with
  | none => .ok document
  | some (.table tool) =>
    match Toml.Table.get? tool "mimicss".toList with
    | none => .ok []
    | some (.table t) => .ok t
    | some _ => .error .noTable
  | some _ => .ok []

def strings? (vs : List Toml.Value) : Option (List (List Char)) :=
  vs.mapM fun
    | .string s => some s
    | _ => none

def compileAll (patterns : List (List Char)) : Except ConfigError (List Pattern) :=
  (patterns.mapM Pattern.compile).mapError .pattern

def excludeOf (v : Option Toml.Value) : Except ConfigError (List (List Char)) := do
  let patterns ← match v with
    | none => pure []
    | some (.string s) => pure [s]
    | some (.array vs) =>
      match strings? vs with
      | some ss => pure ss
      | none => throw .badExclude
    | some _ => throw .badExclude
  let _ ← compileAll patterns
  return patterns

def verboseOf : Option Toml.Value → Except ConfigError Bool
  | none => .ok false
  | some (.boolean b) => .ok b
  | some _ => .error .badVerbose

def mapFileOf : Option Toml.Value → Except ConfigError (List Char)
  | none => .ok ({} : Config).mapFile
  | some (.string s) => if s.isEmpty then .error .badMapFile else .ok s
  | some _ => .error .badMapFile

def load (path : Path) (text : Option (List Char)) : Except ConfigError Config := do
  let source ← match text with
    | some source => pure source
    | none => throw (.notFound path)
  let document ← (Toml.parse source).mapError (.toml path)
  let table ← settings document
  let unknown := (table.map Prod.fst).filter fun name => !keys.contains (String.ofList name)
  if !unknown.isEmpty then throw (.unknownKeys path (unknown.mergeSort charsLe))
  let exclude ← excludeOf (table.get? "exclude".toList)
  let verbose ← verboseOf (table.get? "verbose".toList)
  let mapFile ← mapFileOf (table.get? "map_file".toList)
  return { exclude, verbose, mapFile, source := some path }

def merge (c : Config) (o : Overrides) : Config where
  exclude := c.exclude ++ o.exclude
  verbose := o.verbose.getD c.verbose
  mapFile := match o.mapFile with
    | some (ch :: cs) => ch :: cs
    | _ => c.mapFile
  source := c.source

def patterns (c : Config) : Except ConfigError (List Pattern) := compileAll c.exclude

end Config

end ShortClass
