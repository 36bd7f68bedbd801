import ShortClass.Artifact
import ShortClass.Config
import ShortClass.Minifier
import ShortClass.Text.JsonText

/-!
Bundles: the artifacts of one build, minified together.

All programs are analysed and the classes of all stylesheets named before anything is renamed. A
stylesheet that cannot be read ends the pass; a program that cannot be read is left as it is.
-/

namespace ShortClass

inductive LogLevel where
  | debug
  | info
  | warning
  deriving DecidableEq

def LogLevel.name : LogLevel → String
  | debug => "DEBUG"
  | info => "INFO"
  | warning => "WARNING"

structure LogEntry where
  level : LogLevel
  message : String

inductive BundleError where
  | config (e : ConfigError)
  | extract (e : ExtractError)
  | sheet (e : Stylesheet.RenameError)
  | program (e : EditError)

namespace Bundle

def ofKind (k : Artifact.Kind) (as : List Artifact) : List Artifact := as.filter (·.kind = k)

def joinedSheets (as : List Artifact) : List Char :=
  ['\n'].intercalate ((ofKind .stylesheet as).map Artifact.text)

def isReadable (a : Artifact) : Bool := (Program.parse? a.text).isSome

def analyze (m : Minifier) (as : List Artifact) : Minifier :=
  (ofKind .program as).foldl (fun m a => m.analyze a.text) m

def analysisLog (as : List Artifact) : List LogEntry :=
  ((ofKind .program as).filter (!isReadable ·)).map fun a =>
    ⟨.debug, s!"Skipping usage analysis of {String.ofList a.name}: not parseable"⟩

structure Progress where
  artifacts : List Artifact
  log : List LogEntry := []
  skipped : List (List Char) := []
  error : Option BundleError := none

structure Rewritten where
  text : List Char
  entry : LogEntry
  isSkipped : Bool := false

abbrev Change := Artifact → Except BundleError Rewritten

def changeAll (k : Artifact.Kind) (f : Change) : List Artifact → Progress
  | [] => { artifacts := [] }
  | a :: as =>
    if a.kind = k then
      match f a with
      | .error e => { artifacts := a :: as, error := some e }
      | .ok r =>
        let rest := changeAll k f as
        { artifacts := { a with text := r.text } :: rest.artifacts
          log := r.entry :: rest.log
          skipped := if r.isSkipped then a.name :: rest.skipped else rest.skipped
          error := rest.error }
    else
      let rest := changeAll k f as
      { rest with artifacts := a :: rest.artifacts }

def renameSheet (m : Minifier) : Change := fun a => do
  let text ← (m.renameSheet a.text).mapError .sheet
  return { text, entry := ⟨.info, s!"Rewrote stylesheet {String.ofList a.name}"⟩ }

def renameProgram (m : Minifier) : Change := fun a =>
  match Program.parse? a.text with
  | none =>
    let entry := ⟨.warning, s!"Left {String.ofList a.name} unmodified: program parse error"⟩
    .ok { text := a.text, entry, isSkipped := true }
  | some p => do
    let text ← (m.renameProgram p).mapError .program
    return { text, entry := ⟨.info, s!"Rewrote program {String.ofList a.name}"⟩ }

structure Summary where
  classMap : ClassMap
  skipped : List (List Char)

structure Result where
  artifacts : List Artifact
  log : List LogEntry
  outcome : Except BundleError Summary

def mapArtifact (c : Config) (m : ClassMap) : List Artifact :=
  if c.verbose then [⟨c.mapFile, .other, JsonText.object m.entries⟩] else []

def renameAll (c : Config) (m : Minifier) (as : List Artifact) : Result :=
  let sheets := changeAll .stylesheet (renameSheet m) as
  match sheets.error with
  | some e => ⟨sheets.artifacts, sheets.log, .error e⟩
  | none =>
    let programs := changeAll .program (renameProgram m) sheets.artifacts
    let log := sheets.log ++ programs.log
    match programs.error with
    | some e => ⟨programs.artifacts, log, .error e⟩
    | none => ⟨programs.artifacts ++ mapArtifact c m.classMap, log, .ok ⟨m.classMap, programs.skipped⟩⟩

def foundLog (m : Minifier) (as : List Artifact) : LogEntry :=
  ⟨.info, s!"Found {m.classMap.size} classes in {(ofKind .stylesheet as).length} stylesheet(s)"⟩

def minifyWith (tries : Nat) (m : Minifier) (c : Config) (as : List Artifact) : Result :=
  let log := analysisLog as
  match (analyze m as).extract tries (joinedSheets as) with
  | .error e => ⟨as, log, .error (.extract e)⟩
  | .ok m =>
    let result := renameAll c m as
    { result with log := log ++ foundLog m as :: result.log }

def minify (tries : Nat) (minifier : Option Minifier) (c : Config) (as : List Artifact) : Result :=
  match minifier with
  | some m => minifyWith tries m c as
  | none =>
    match c.patterns with
    | .error e => ⟨as, [], .error (.config e)⟩
    | .ok exclude => minifyWith tries { exclude } c as

end Bundle

end ShortClass
