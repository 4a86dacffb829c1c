import RuleLang.Text.Basic

/-!
# RuleLang.Files.Tree

A tree of files with a working directory. Paths are resolved one name after another, so that every
name on the way has to be a directory; `.` stays, `..` goes up. Writing replaces the whole content
of a file.
-/

namespace RuleLang

/-- The names from the root down to a file or directory. -/
abbrev Path := List Text

namespace Path

/-- The path as an absolute one, in text. -/
def toText (p : Path) : Text :=
  if p.isEmpty then txt "/" else p.flatMap fun name => 47 :: name

/-- All directories above a path, the root included. -/
def parents (p : Path) : List Path := (List.range p.length).map p.take

/-- Resolve `.` and `..` by the names alone. -/
def clean (p : Path) : Path :=
  p.foldl (fun done name =>
    if name.isEmpty || name = txt "." then done
    else if name = txt ".." then done.dropLast
    else done ++ [name]) []

end Path

/-- Why a file operation failed. -/
inductive FileFault where
  | notFound
  | notDirectory
  | isDirectory
  | nameTooLong
  | badName
deriving Repr, DecidableEq

namespace FileFault

def message : FileFault → Text
  | notFound => txt "no such file or directory"
  | notDirectory => txt "not a directory"
  | isDirectory => txt "is a directory"
  | nameTooLong => txt "file name too long"
  | badName => txt "invalid argument"

end FileFault

/-- The steps of file operations that can fail. -/
inductive FileStep where
  | opening
  | reading
  | makingDirectory
deriving Repr, DecidableEq

/-- A failed step with the path as it was given. -/
structure FileError where
  step : FileStep
  path : Text
  fault : FileFault
deriving Repr, DecidableEq

namespace FileError

def message (e : FileError) : Text :=
  let verb := match e.step with
    | .opening => txt "open "
    | .reading => txt "read "
    | .makingDirectory => txt "mkdir "
  verb ++ e.path ++ txt ": " ++ e.fault.message

end FileError

inductive FileNode where
  | directory
  | file (content : Text)
deriving Repr, DecidableEq

/-- Of two nodes at one path, the first counts. -/
structure FileTree where
  cwd : Path := []
  nodes : List (Path × FileNode) := []
deriving Repr, DecidableEq

namespace FileTree

/-- The node at a path; the root is always a directory. -/
def get? (t : FileTree) (p : Path) : Option FileNode :=
  if p.isEmpty then some .directory else t.nodes.lookup p

def insert (t : FileTree) (p : Path) (n : FileNode) : FileTree := { t with nodes := (p, n) :: t.nodes }

theorem get?_insert (t : FileTree) (p q : Path) (n : FileNode) (h : p ≠ []) :
    (t.insert p n).get? q = if q = p then some n else t.get? q := by
  cases q with
  | nil => simp [get?, h.symm]
  | cons a q =>
    by_cases hq : a :: q = p
    · subst hq
      simp [get?, insert]
    · have : (a :: q == p) = false := by simp [hq]
      simp [get?, insert, List.lookup_cons, hq, this]

/-- A tree with the given nodes below its working directory, and the directories above them. -/
def ofNodes (cwd : Path) (nodes : List (Path × FileNode)) : FileTree :=
  let nodes := nodes.map fun (p, n) => (cwd ++ p, n)
  let above := (cwd, FileNode.directory) ::
    (cwd :: nodes.map Prod.fst).flatMap fun p => p.parents.map fun d => (d, .directory)
  ⟨cwd, nodes ++ above⟩

/-- All files, each once. -/
def files (t : FileTree) : List (Path × Text) :=
  (t.nodes.filterMap fun (p, _) =>
    match t.get? p with
    | some (.file c) => some (p, c)
    | _ => none).eraseDups

/-- The files of a tree that an earlier tree does not have with this content. -/
def changesSince (t old : FileTree) : List (Path × Text) :=
  t.files.filter fun (p, c) => old.get? p ≠ some (.file c)

/-! ## Paths -/

/-- Go down from a directory along names. Only the last name may be missing. -/
def walk (t : FileTree) : (here : Path) → List Text → Except FileFault Path
  | here, [] => .ok here
  | here, name :: names =>
    match t.get? here with
    | none => .error .notFound
    | some (.file _) => .error .notDirectory
    | some .directory =>
      if name.isEmpty || name = txt "." then walk t here names
      else if name = txt ".." then walk t here.dropLast names
      else if 255 < name.length then .error .nameTooLong
      else match t.get? (here ++ [name]) with
        | none => if names.isEmpty then .ok (here ++ [name]) else .error .notFound
        | some _ => walk t (here ++ [name]) names

/-- The place that a path names, seen from the working directory. -/
def resolve (t : FileTree) (path : Text) : Except FileFault Path :=
  if path.contains 0 then .error .badName
  else if path.isEmpty then .error .notFound
  else if 4096 ≤ path.length then .error .nameTooLong
  else t.walk (if path.startsWith (txt "/") then [] else t.cwd) (Text.cut 47 path)

/-! ## Operations -/

/-- The content of a file. -/
def read (t : FileTree) (path : Text) : Except FileError Text :=
  match t.resolve path with
  | .error f => .error ⟨.opening, path, f⟩
  | .ok p =>
    match t.get? p with
    | none => .error ⟨.opening, path, .notFound⟩
    | some .directory => .error ⟨.reading, path, .isDirectory⟩
    | some (.file c) => .ok c

/-- Replace the content of a file, or make a new one. -/
def write (t : FileTree) (path content : Text) : Except FileError FileTree :=
  match t.resolve path with
  | .error f => .error ⟨.opening, path, f⟩
  | .ok p =>
    match t.get? p with
    | some .directory => .error ⟨.opening, path, .isDirectory⟩
    | _ => .ok (t.insert p (.file content))

/-- Make directories, outermost first, unless they are there. -/
def makeDirectories : FileTree → List Path → Except FileError FileTree
  | t, [] => .ok t
  | t, p :: ps =>
    match t.get? p with
    | some .directory => makeDirectories t ps
    | some (.file _) => .error ⟨.makingDirectory, p.toText, .notDirectory⟩
    | none =>
      if p.getLast?.any fun name => 255 < name.length then
        .error ⟨.makingDirectory, p.toText, .nameTooLong⟩
      else makeDirectories (t.insert p .directory) ps

end FileTree

end RuleLang
