import ShortClass.Bundle
import ShortClass.CommandLine.Arguments
import ShortClass.FileTree

namespace ShortClass.CommandLine

inductive Breakdown where
  | file (e : FileError)
  | edit (e : EditError)
  | assign (e : AssignError)
  | outOfNames

def Breakdown.message : Breakdown → String
  | file .notFound => "file not found"
  | file .isDirectory => "a directory stands where a file is needed"
  | file .notDirectory => "a file stands where a directory is needed"
  | file .alreadyExists => "a file of that name exists"
  | file .notText => "file is not UTF-8 text"
  | edit e => e.message
  | assign e => e.message
  | outOfNames => "no name is left"

structure Outcome where
  exitCode : Nat := 0
  output : String := ""
  errors : String := ""
  tree : FileTree
  breakdown : Option Breakdown := none

namespace Outcome

def refused (t : FileTree) (code : Nat) (message : String) : Outcome :=
  { exitCode := code, errors := message ++ "\n", tree := t }

def broken (t : FileTree) (b : Breakdown) : Outcome := { exitCode := 1, tree := t, breakdown := some b }

end Outcome

def Scope.title : Scope → String
  | program => "mimicss"
  | minify => "mimicss minify"
  | inspect => "mimicss inspect"

def Scope.usage (s : Scope) : String :=
  match s with
  | program => s!"Usage: {s.title} [OPTIONS] COMMAND [ARGS]..."
  | _ => s!"Usage: {s.title} [OPTIONS] PATHS..."

def usageError (t : FileTree) (s : Scope) (e : ArgumentError) : Outcome :=
  let usage := if e.showsUsage then s!"{s.usage}\nTry '{s.title} --help' for help.\n\n" else ""
  .refused t 2 s!"{usage}Error: {e.message}"

structure Located where
  path : Path
  artifact : Artifact

def candidates (t : FileTree) (arg : Argument) : List (Path × List Char) :=
  let p := Path.ofChars arg
  match t.resolve? p with
  | some q => if t.isDirectory q then (t.below q).map fun r => (p ++ r, r.toChars) else [(p, p.name)]
  | none => [(p, p.name)]

def readCandidate (t : FileTree) (path : Path) (name : List Char) : Except FileError (Option Located) :=
  if !t.isFileAt path || Artifact.Kind.ofPath (Path.ofChars name) = .other then .ok none
  else do
    let text ← t.readText path
    return some ⟨path, Artifact.ofFile name text⟩

def collect (t : FileTree) (args : List Argument) : Except FileError (List Located) := do
  let found ← (args.flatMap (candidates t)).mapM fun (path, name) => readCandidate t path name
  return found.filterMap id

inductive SettingsError where
  | config (e : ConfigError)
  | file (e : FileError)

def settings (t : FileTree) (a : Arguments) : Except SettingsError Config := do
  let base ← match a.value? .config with
    | none => pure {}
    | some [] => pure {}
    | some file =>
      let path := Path.ofChars file
      match t.readText path with
      | .ok text => (Config.load path (some text)).mapError .config
      | .error .notFound => (Config.load path none).mapError .config
      | .error e => throw (.file e)
  let c := base.merge
    { exclude := a.values .exclude
      verbose := if a.has .verbose then some true else none
      mapFile := a.value? .mapFile }
  let _ ← c.patterns.mapError .config
  return c

def settingsFailure (t : FileTree) : SettingsError → Outcome
  | .config e => .refused t 1 ("Config error: " ++ e.message)
  | .file e => .broken t (.file e)

def logLine (verbosity : Nat) (e : LogEntry) : String :=
  let tagged := s!"[mimicss] {e.level.name} {e.message}\n"
  match verbosity, e.level with
  | 0, .warning => e.message ++ "\n"
  | 0, _ => ""
  | 1, .debug => ""
  | _, _ => tagged

def logText (verbosity : Nat) (log : List LogEntry) : String := String.join (log.map (logLine verbosity))

def parseFailure (t : FileTree) (log : String) (e : StylesheetError) : Outcome :=
  .refused t 1 (log ++ "Parse error: " ++ e.message)

def extractFailure (t : FileTree) (log : String) : ExtractError → Outcome
  | .sheet e => parseFailure t log e
  | .assign e => { Outcome.broken t (.assign e) with errors := log }
  | .outOfNames => { Outcome.broken t .outOfNames with errors := log }

def bundleFailure (t : FileTree) (log : String) : BundleError → Outcome
  | .config e => .refused t 1 (log ++ "Config error: " ++ e.message)
  | .extract e => extractFailure t log e
  | .sheet (.sheet e) => parseFailure t log e
  | .sheet (.edit e) => { Outcome.broken t (.edit e) with errors := log }
  | .program e => { Outcome.broken t (.edit e) with errors := log }

def duplicates (names : List (List Char)) : List (List Char) :=
  ((names.filter fun n => names.count n > 1).eraseDups).mergeSort charsLe

def writeAll (t : FileTree) : List (Path × List Char) → FileTree × Option FileError
  | [] => (t, none)
  | (p, text) :: rest =>
    match t.writeText p text with
    | (t, some e) => (t, some e)
    | (t, none) => writeAll t rest

def baseDirectory (t : FileTree) (outDir : Option Path) (args : List Argument) : Path :=
  match outDir with
  | some p => p
  | none =>
    let first := Path.ofChars (args.head?.getD [])
    if t.isDirectoryAt first then first else first.parent

/-- Where the artifacts of a pass go; those that were found are the first of them. -/
def targets (t : FileTree) (outDir : Option Path) (args : List Argument) (found : List Located)
    (as : List Artifact) : List (Path × List Char) :=
  let own := (found.zip as).map fun (l, a) =>
    ((match outDir with
      | some p => p.join (Path.ofChars a.name)
      | none => l.path), a.text)
  let base := baseDirectory t outDir args
  own ++ (as.drop found.length).map fun a => (base.join (Path.ofChars a.name), a.text)

def outDir? (a : Arguments) : Option Path :=
  match a.value? .outDir with
  | some (c :: cs) => some (Path.ofChars (c :: cs))
  | _ => none

def report (verbosity : Nat) (r : Bundle.Result) (s : Bundle.Summary) : String :=
  logText verbosity r.log ++
    String.join (s.skipped.map fun name => s!"  skipped {String.ofList name} (parse error)\n")

def minify (tries : Nat) (a : Arguments) (t : FileTree) : Outcome :=
  match settings t a with
  | .error e => settingsFailure t e
  | .ok c =>
    match collect t a.others with
    | .error e => .broken t (.file e)
    | .ok found =>
      let as := found.map Located.artifact
      let twice := if (outDir? a).isSome then duplicates (as.map Artifact.name) else []
      if !as.any (·.kind = .stylesheet) then .refused t 1 "No stylesheets found; nothing to minify."
      else if !twice.isEmpty then
        .refused t 1 ("Duplicate output name(s) under --out-dir: " ++ ", ".intercalate (twice.map String.ofList))
      else
        let r := Bundle.minify tries none c as
        let log := logText (a.count .verbose) r.log
        match r.outcome with
        | .error e => bundleFailure t log e
        | .ok s =>
          let files := targets t (outDir? a) a.others found r.artifacts
          match writeAll t files with
          | (t, some e) => { Outcome.broken t (.file e) with errors := log }
          | (t, none) =>
            { output := s!"Minified {s.classMap.size} class(es) across {files.length} file(s)\n"
              errors := report (a.count .verbose) r s
              tree := t }

def analyzePrograms (m : Minifier) (as : List Artifact) : Minifier :=
  as.foldl (fun m a => if a.kind = .program then m.analyze a.text else m) m

def joinStylesheets (as : List Artifact) : List Char :=
  ['\n'].intercalate (as.filterMap fun a => if a.kind = .stylesheet then some a.text else none)

def inspect (tries : Nat) (a : Arguments) (t : FileTree) : Outcome :=
  match settings t a with
  | .error e => settingsFailure t e
  | .ok c =>
    match collect t a.others, c.patterns with
    | .error e, _ => .broken t (.file e)
    | _, .error e => settingsFailure t (.config e)
    | .ok found, .ok exclude =>
      let as := found.map Located.artifact
      match (analyzePrograms { exclude } as).extract tries (joinStylesheets as) with
      | .error e => extractFailure t "" e
      | .ok m => { output := String.ofList (JsonText.object m.classMap.entries) ++ "\n", tree := t }

def checkPaths (t : FileTree) (a : Arguments) : Except ArgumentError Unit := do
  match a.value? .config with
  | some file => if !t.hasPath file then throw (.noSuchPath "--config" file)
  | none => pure ()
  if a.others.isEmpty then throw .missingPaths
  match a.others.find? fun p => !t.hasPath p with
  | some p => throw (.noSuchPath "PATHS..." p)
  | none => pure ()

def help (t : FileTree) (s : Scope) : Outcome := { output := s.usage ++ "\n", tree := t }

def runCommand (tries : Nat) (s : Scope) (args : List Argument) (t : FileTree) : Outcome :=
  match readArguments s {} none args with
  | .error e => usageError t s e
  | .ok a =>
    if a.has .help then help t s
    else
      match checkPaths t a with
      | .error e => usageError t s e
      | .ok () => if s = .inspect then inspect tries a t else minify tries a t

def run (tries : Nat) (args : List Argument) (t : FileTree) : Outcome :=
  match readArguments .program {} none args with
  | .error e => usageError t .program e
  | .ok a =>
    match a.options with
    | (.version, _) :: _ => { output := "mimicss, version 0.1.0\n", tree := t }
    | _ :: _ => help t .program
    | [] =>
      match a.others with
      | [] => if args.isEmpty then { help t .program with exitCode := 2 } else usageError t .program .missingCommand
      | command :: rest =>
        if command = "minify".toList then runCommand tries .minify rest t
        else if command = "inspect".toList then runCommand tries .inspect rest t
        else usageError t .program (.noSuchCommand command)

end ShortClass.CommandLine
