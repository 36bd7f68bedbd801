import ShortClass.CommandLine

/-!
The program. Arguments that name files are read; if one names a directory, the files to be found there
are taken from standard input, which lists their paths one a line. The command itself is a function of
the tree so read, and the files that it has changed are written back.
-/

open ShortClass

def maxTries : Nat := 0x4000000000000000

def fileContents (bytes : ByteArray) : Contents :=
  match String.fromUTF8? bytes with
  | some s => .text s.toList
  | none => .binary bytes.toList

def addPath (t : FileTree) (name : String) : IO FileTree := do
  let p := Path.ofChars name.toList
  if t.isFile p then return t
  try
    let bytes ← IO.FS.readBinFile name
    return { t with files := (p, fileContents bytes) :: t.files }
  catch
    | .noFileOrDirectory .. => return t
    | _ => return { t with directories := p :: t.directories }

def readTree (args : List String) : IO FileTree := do
  let t ← (args.filter (!·.isEmpty)).foldlM addPath {}
  if t.directories.isEmpty then return t
  let listing ← (← IO.getStdin).lines
  listing.toList.foldlM addPath t

def writeChanges (before after : FileTree) : IO Unit := do
  for (p, contents) in after.files do
    match contents, before.get? p with
    | .text new, some (.text old) => if new ≠ old then IO.FS.writeFile (String.ofList p.toChars) (String.ofList new)
    | .text new, _ =>
      IO.FS.createDirAll (String.ofList p.parent.toChars)
      IO.FS.writeFile (String.ofList p.toChars) (String.ofList new)
    | .binary _, _ => pure ()

def main (args : List String) : IO UInt32 := do
  let before ← readTree args
  let r := CommandLine.run maxTries (args.map String.toList) before
  writeChanges before r.tree
  IO.print r.output
  IO.eprint r.errors
  match r.breakdown with
  | some b => IO.eprintln b.message
  | none => pure ()
  return r.exitCode.toUInt32
