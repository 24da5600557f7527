import TypeAtlas.Files.Tree

/-!
# Walking a file tree

`FileTree.walk` lists the directories at and below a path, parents before children and siblings in the order of
their names.  A directory that is skipped is left out with all that is below it.  `FileTree.visitDirectories` calls a
visitor on them, until the visitor fails.

`Exclusions` skip the directories that are to be ignored, and below the start of the walk also those that are hidden or
hold the packages of others.
-/

namespace TypeAtlas

namespace FileNode

mutual

/-- The directories at and below a file or directory that stands at `path`, `depth` levels below the start. -/
def directories (skip : String → Nat → Bool) (path : String) (depth : Nat) : FileNode → List String
  | file _ => []
  | dir es => if skip path depth then [] else path :: directoriesIn skip path (depth + 1) es

/-- The directories among the entries of the directory at `path`, and below them. -/
def directoriesIn (skip : String → Nat → Bool) (path : String) (depth : Nat) : List (String × FileNode) → List String
  | [] => []
  | (name, t) :: es => directories skip (Path.join path name) depth t ++ directoriesIn skip path depth es

end

end FileNode

/-- The directories at and below a path. -/
def FileTree.walk (t : FileTree) (skip : String → Nat → Bool) (root : String) : Except FileError (List String) :=
  match t.resolve root with
  | .ok start => .ok (start.directories skip root 0)
  | .error e => .error e

/-- Call a visitor on directories in turn, until it fails. -/
def visitEach {σ ε : Type} (visit : String → σ → Except ε Unit × σ) : List String → σ → Except ε Unit × σ
  | [], s => (.ok (), s)
  | dir :: dirs, s =>
    match visit dir s with
    | (.ok (), s) => visitEach visit dirs s
    | (.error e, s) => (.error e, s)

/-- Call a visitor on the directories at and below a path, until it fails. -/
def FileTree.visitDirectories {σ ε : Type} (t : FileTree) (skip : String → Nat → Bool) (root : String)
    (fail : FileError → ε) (visit : String → σ → Except ε Unit × σ) (s : σ) : Except ε Unit × σ :=
  match t.walk skip root with
  | .ok dirs => visitEach visit dirs s
  | .error e => (.error (fail e), s)

/-- Which directories a recursive load leaves out. -/
structure Exclusions where
  /-- The paths to ignore. -/
  ignored : List String

namespace Exclusions

/-- Whether two paths are the same component by component. -/
def samePath (p q : String) : Bool := decide (Path.components p = Path.components q)

/-- Whether directories of a name are left out: hidden ones, and those that hold the packages of others. -/
def excludesName (name : String) : Bool := name.toList.head? == some '.' || name == "vendor"

/-- Whether the directory at a path, `depth` levels below the start, is left out. -/
def excludes (rules : Exclusions) (path : String) (depth : Nat) : Bool :=
  rules.ignored.any (samePath path) ||
    (decide (0 < depth) &&
      match Path.fileName? path with
      | some name => excludesName name
      | none => false)

end Exclusions

end TypeAtlas
