import ShortClass.Path
import ShortClass.Text.LineFeed

/-!
A tree of files, as a command sees it from its working directory.

Files have contents, and a directory is there if it was made or if a file lies below it. The parent of
a path is taken in the tree: `a/..` leads somewhere only if `a` is a directory. A root is its own parent,
and what lies below a root does not lie below the working directory.
-/

namespace ShortClass

inductive Contents where
  | text (cs : List Char)
  | binary (bytes : List UInt8)

inductive FileError where
  | notFound
  | isDirectory
  | notDirectory
  | alreadyExists
  | notText
  deriving DecidableEq

structure FileTree where
  files : List (Path × Contents) := []
  directories : List Path := []

namespace FileTree

def get? (t : FileTree) (p : Path) : Option Contents := t.files.lookup p

def isFile (t : FileTree) (p : Path) : Bool := (t.get? p).isSome

def isDirectory (t : FileTree) (p : Path) : Bool :=
  p.isEmpty || t.directories.any (p.isPrefixOf ·) || t.files.any fun f => p.isPrefixOf f.1 && f.1 != p

def follow? (t : FileTree) (p : Path) : Path → Option Path
  | [] => some p
  | part :: rest =>
    if part = ['.', '.'] then
      if t.isDirectory p && !p.isEmpty then t.follow? p.parent rest else none
    else t.follow? (p ++ [part]) rest

def resolve? (t : FileTree) (p : Path) : Option Path := t.follow? [] p

def isFileAt (t : FileTree) (p : Path) : Bool := (t.resolve? p).any t.isFile

def isDirectoryAt (t : FileTree) (p : Path) : Bool := (t.resolve? p).any t.isDirectory

def hasPath (t : FileTree) (s : List Char) : Bool :=
  let p := Path.ofChars s
  let endsInSlash := ['/'].isSuffixOf s || ['/', '.'].isSuffixOf s
  !s.isEmpty && (t.isDirectoryAt p || (t.isFileAt p && !endsInSlash))

def readText (t : FileTree) (p : Path) : Except FileError (List Char) :=
  match t.resolve? p with
  | none => .error .notFound
  | some q =>
    match t.get? q with
    | some (.text cs) => .ok (lineFeeds cs)
    | some (.binary _) => .error .notText
    | none => .error (if t.isDirectory q then .isDirectory else .notFound)

def putFile (t : FileTree) (p : Path) (cs : List Char) : FileTree :=
  { t with files := (p, .text cs) :: t.files.filter (·.1 != p) }

theorem get?_putFile (t : FileTree) (p q : Path) (cs : List Char) :
    (t.putFile p cs).get? q = if q = p then some (.text cs) else t.get? q := by
  have h (fs : List (Path × Contents)) (hq : q ≠ p) :
      (fs.filter (·.1 != p)).lookup q = fs.lookup q := by
    induction fs with
    | nil => rfl
    | cons f fs ih => grind
  by_cases hq : q = p
  · simp [putFile, get?, hq]
  · have hb : (q == p) = false := by simpa using hq
    simp only [putFile, get?, List.lookup_cons, hb, hq, if_false]
    exact h t.files hq

/-- Makes the directories of a path from `p` on, and says where it leads. -/
def makeDirectories (t : FileTree) (p : Path) : Path → Except FileError (FileTree × Path)
  | [] => .ok (t, p)
  | part :: rest =>
    if part = ['.', '.'] then
      if p.isEmpty then .error .notFound else t.makeDirectories p.parent rest
    else
      let q := p ++ [part]
      if t.isFile q then .error (if rest.isEmpty then .alreadyExists else .notDirectory)
      else if t.isDirectory q then t.makeDirectories q rest
      else { t with directories := q :: t.directories }.makeDirectories q rest

theorem files_makeDirectories {t u : FileTree} {p q r : Path}
    (h : t.makeDirectories p r = .ok (u, q)) : u.files = t.files := by
  induction r generalizing t p with
  | nil => simp only [makeDirectories, Except.ok.injEq, Prod.mk.injEq] at h; rw [h.1]
  | cons part rest ih =>
    unfold makeDirectories at h
    split at h
    · split at h
      · simp at h
      · exact ih h
    · dsimp only at h
      split at h
      · simp at h
      · split at h
        · exact ih h
        · have hf := ih h
          exact hf

def writeText (t : FileTree) (p : Path) (cs : List Char) : FileTree × Option FileError :=
  match t.makeDirectories [] p.parent with
  | .error e => (t, some e)
  | .ok (t, above) =>
    let q := if p.name = ['.', '.'] then above.dropLast else above ++ p.drop p.parent.length
    if t.isDirectory q then (t, some .isDirectory) else (t.putFile q cs, none)

def below (t : FileTree) (p : Path) : List Path :=
  let inside := t.files.filter fun f => p.isPrefixOf f.1 && f.1 != p && f.1.isAbsolute == p.isAbsolute
  (inside.map fun f => f.1.drop p.length).mergeSort Path.le

end FileTree

end ShortClass
