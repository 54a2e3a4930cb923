import DynLisp.Assoc

/-!
# Paths and files

The text form of a path, and a directory tree held in memory.
-/

namespace DynLisp

namespace Disk

/-- Why a file cannot be read. -/
inductive Refusal where
  | missing
  | isDirectory
  | notDirectory
deriving DecidableEq, Repr

/-- The wording of a refusal. -/
def Refusal.text : Refusal → String
  | .missing => "No such file or directory"
  | .isDirectory => "Is a directory"
  | .notDirectory => "Not a directory"

/-- A path: its leading slashes and its parts. -/
structure Path where
  root : String
  parts : List String
deriving DecidableEq, Repr

/-- The parts of a text between slashes. -/
def splitSlashes : List Char → List (List Char)
  | [] => [[]]
  | c :: rest =>
    match splitSlashes rest with
    | [] => [[c]]
    | part :: more => if c = '/' then [] :: part :: more else (c :: part) :: more

/-- The path that a text names.  Parts that are empty or a single dot do not count, and of leading
slashes one counts, unless there are exactly two. -/
def Path.ofString (text : String) : Path :=
  let cs := text.toList
  let slashes := (cs.takeWhile (· == '/')).length
  let root := if slashes = 0 then "" else if slashes = 2 then "//" else "/"
  let parts := (splitSlashes cs).filter fun part => !part.isEmpty && part != ['.']
  ⟨root, parts.map String.ofList⟩

/-- The text of a path. -/
def Path.text (p : Path) : String :=
  if p.root.isEmpty && p.parts.isEmpty then "." else p.root ++ String.intercalate "/" p.parts

/-- A directory with everything below it: files by path, and directories by path. -/
structure Tree where
  files : List (List String × List UInt8)
  dirs : List (List String)

/-- Is the path that of a directory?  Every part of a file's way is one. -/
def Tree.isDir (t : Tree) (path : List String) : Bool :=
  path.isEmpty || t.dirs.any (fun d => path.isPrefixOf d) ||
    t.files.any fun f => path.isPrefixOf f.1 && f.1.length != path.length

/-- The content of a file. -/
def Tree.file? (t : Tree) (path : List String) : Option (List UInt8) :=
  (t.files.find? fun f => f.1 == path).map (·.2)

/-- Follows parts from a directory, whose own parts are given in order; none is a directory outside
the tree. -/
def Tree.follow (t : Tree) : Option (List String) → List String → Except Refusal (List UInt8)
  | _, [] => .error .isDirectory
  | here, ".." :: rest =>
    t.follow (here.bind fun path => if path.isEmpty then none else some path.dropLast) rest
  | none, _ :: _ => .error .missing
  | some path, name :: rest =>
    let path := path ++ [name]
    if t.isDir path then t.follow (some path) rest
    else
      match t.file? path with
      | none => .error .missing
      | some content => if rest.isEmpty then .ok content else .error .notDirectory

/-- Reads a file. -/
def Tree.read (t : Tree) (p : Path) : Except Refusal (List UInt8) :=
  t.follow (if p.root.isEmpty then some [] else none) p.parts

end Disk

end DynLisp
