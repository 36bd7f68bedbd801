import ShortClass.Text.Quoted

namespace ShortClass.CommandLine

abbrev Argument := List Char

inductive Switch where
  | exclude
  | config
  | outDir
  | mapFile
  | verbose
  | help
  | version
  deriving DecidableEq

inductive Scope where
  | program
  | minify
  | inspect
  deriving DecidableEq

inductive ArgumentError where
  | noSuchOption (name : Argument)
  | missingValue (name : Argument)
  | unwantedValue (name : Argument)
  | noSuchCommand (name : Argument)
  | missingCommand
  | missingPaths
  | noSuchPath (parameter : String) (path : Argument)

namespace ArgumentError

def message : ArgumentError → String
  | noSuchOption name => s!"No such option {Quoted.toString name}."
  | missingValue name => s!"Option {Quoted.toString name} requires an argument."
  | unwantedValue name => s!"Option {Quoted.toString name} does not take a value."
  | noSuchCommand name => s!"No such command {Quoted.toString name}."
  | missingCommand => "Missing command."
  | missingPaths => "Missing argument 'PATHS...'."
  | noSuchPath parameter path => s!"Invalid value for '{parameter}': Path {Quoted.toString path} does not exist."

def showsUsage : ArgumentError → Bool
  | missingValue _ => false
  | unwantedValue _ => false
  | _ => true

end ArgumentError

namespace Scope

def long? (s : Scope) (name : String) : Option Switch :=
  match s, name with
  | _, "--help" => some .help
  | .program, "--version" => some .version
  | .program, _ => none
  | _, "--exclude" => some .exclude
  | _, "--config" => some .config
  | _, "--verbose" => some .verbose
  | .minify, "--out-dir" => some .outDir
  | .minify, "--map-file" => some .mapFile
  | _, _ => none

def short? (s : Scope) (letter : Char) : Option Switch :=
  match s, letter with
  | .program, _ => none
  | _, 'e' => some .exclude
  | _, 'v' => some .verbose
  | _, _ => none

end Scope

def Switch.takesValue : Switch → Bool
  | exclude => true
  | config => true
  | outDir => true
  | mapFile => true
  | _ => false

structure Arguments where
  options : List (Switch × Argument) := []
  others : List Argument := []

namespace Arguments

def addOption (o : Switch) (value : Argument) (a : Arguments) : Arguments :=
  { a with options := a.options ++ [(o, value)] }

def addOther (arg : Argument) (a : Arguments) : Arguments := { a with others := a.others ++ [arg] }

def has (a : Arguments) (o : Switch) : Bool := a.options.any (·.1 = o)

def values (a : Arguments) (o : Switch) : List Argument := (a.options.filter (·.1 = o)).map Prod.snd

def value? (a : Arguments) (o : Switch) : Option Argument := (a.values o).getLast?

def count (a : Arguments) (o : Switch) : Nat := (a.values o).length

end Arguments

abbrev Waiting := Option (Switch × Argument)

def readLetters (s : Scope) (a : Arguments) : List Char → Except ArgumentError (Arguments × Waiting)
  | [] => .ok (a, none)
  | c :: rest =>
    match s.short? c with
    | none => .error (.noSuchOption ['-', c])
    | some o =>
      if !o.takesValue then readLetters s (a.addOption o []) rest
      else if rest.isEmpty then .ok (a, some (o, ['-', c]))
      else .ok (a.addOption o rest, none)

def readOption (s : Scope) (a : Arguments) (arg : Argument) : Except ArgumentError (Arguments × Waiting) :=
  let name := arg.takeWhile (· != '=')
  match s.long? (String.ofList name), (arg.drop name.length).tail? with
  | some o, attached =>
    match o.takesValue, attached with
    | true, some value => .ok (a.addOption o value, none)
    | true, none => .ok (a, some (o, name))
    | false, some _ => .error (.unwantedValue name)
    | false, none => .ok (a.addOption o [], none)
  | none, _ =>
    if ['-', '-'].isPrefixOf arg then .error (.noSuchOption name) else readLetters s a arg.tail

def isOption (arg : Argument) : Bool := arg.head? == some '-' && arg.length > 1

def readArguments (s : Scope) (a : Arguments) : Waiting → List Argument → Except ArgumentError Arguments
  | some (_, name), [] => .error (.missingValue name)
  | none, [] => .ok a
  | some (o, _), arg :: rest => readArguments s (a.addOption o arg) none rest
  | none, arg :: rest => do
    if arg = ['-', '-'] then return { a with others := a.others ++ rest }
    else if isOption arg then
      let (a, waiting) ← readOption s a arg
      readArguments s a waiting rest
    else if s = .program then return { a with others := a.others ++ arg :: rest }
    else readArguments s (a.addOther arg) none rest

end ShortClass.CommandLine
