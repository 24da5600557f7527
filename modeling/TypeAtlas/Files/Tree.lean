import TypeAtlas.Files.Path
import TypeAtlas.Table

/-!
# File trees

A tree of directories and files, with the entries of a directory in the order of their names.  A path with a slash in front
leads from the top of the tree, any other one from the place where one works (`FileTree.resolve`).  A part of a path after a
file, even an empty one, is an error, and so is a part that leads to nothing.  Above the top there is only the top itself.
-/

namespace TypeAtlas

/-- Why a file or directory cannot be read. -/
inductive FileError where
  | notFound
  | notDirectory
  | notText
deriving DecidableEq

/-- The text of a file error. -/
def FileError.message : FileError → String
  | notFound => "No such file or directory (os error 2)"
  | notDirectory => "Not a directory (os error 20)"
  | notText => "stream did not contain valid UTF-8"

/-- A file or a directory. -/
inductive FileNode where
  /-- A file and its text, if it is text. -/
  | file (text : Option String)
  | dir (entries : List (String × FileNode))
deriving Inhabited

namespace FileNode

/-- The empty directory. -/
def empty : FileNode := .dir []

/-- A file with the given bytes. -/
def ofBytes (bytes : ByteArray) : FileNode := .file (String.fromUTF8? bytes)

/-- The entries of a directory; a file has none. -/
def entries : FileNode → List (String × FileNode)
  | dir es => es
  | file _ => []

/-- Change what stands at a place, where directories are made as they are needed. -/
def graft (change : FileNode → FileNode) : List String → FileNode → FileNode
  | [], t => change t
  | n :: ns, t => .dir (Table.place n (graft change ns ((t.entries.lookup n).getD empty)) t.entries)

/-- Go on from a place along the components of a path, making every directory on the way, and change what stands at
its end. -/
def graftAlong (change : FileNode → FileNode) (place : List String) (t : FileNode) : List Path.Component → FileNode
  | [] => graft change place t
  | c :: cs => graftAlong change (c.follow place) (graft id place t) cs

/-- Go on from `current` along the parts of a path.  The directories above are `above`, the nearest first. -/
def descend (above : List FileNode) (current : FileNode) : List (List Char) → Except FileError FileNode
  | [] => .ok current
  | s :: ss =>
    match current with
    | file _ => .error .notDirectory
    | dir es =>
      if s = [] ∨ s = ['.'] then descend above (dir es) ss
      else if s = ['.', '.'] then
        match above with
        | t :: ts => descend ts t ss
        | [] => descend [] (dir es) ss
      else
        match es.lookup (String.ofList s) with
        | some t => descend (dir es :: above) t ss
        | none => .error .notFound

end FileNode

/-- All files and directories, and the place where one works. -/
structure FileTree where
  /-- The directory above all others. -/
  top : FileNode
  /-- The names that lead from the top to the directory from which paths start. -/
  place : List String
deriving Inhabited

namespace FileTree

/-- The tree without files: the place where one works is an empty directory below the top. -/
def empty : FileTree := ⟨.dir [("work", .empty)], ["work"]⟩

/-- Make a directory, and all directories on the way to it. -/
def makeDir (t : FileTree) (path : String) : FileTree :=
  { t with top := .graftAlong id t.place t.top (Path.components path) }

/-- Put a file at a path, in place of an earlier one.  The directories on the way to it are made. -/
def put (t : FileTree) (path : String) (file : FileNode) : FileTree :=
  { t with top := .graftAlong (fun _ => file) t.place t.top (Path.components path) }

/-- The parts of the way that a path means, from the top.  The empty path means none. -/
def way (t : FileTree) (path : String) : Option (List (List Char)) :=
  match Path.segments path.toList with
  | [[]] => none
  | [] :: ss => some ss
  | ss => some (t.place.map String.toList ++ ss)

/-- What a path leads to. -/
def resolve (t : FileTree) (path : String) : Except FileError FileNode :=
  match t.way path with
  | none => .error .notFound
  | some ss => FileNode.descend [] t.top ss

/-- The entries of the directory that a path leads to. -/
def list (t : FileTree) (path : String) : Except FileError (List (String × FileNode)) :=
  match t.resolve path with
  | .ok (.dir es) => .ok es
  | .ok (.file _) => .error .notDirectory
  | .error e => .error e

end FileTree

end TypeAtlas
