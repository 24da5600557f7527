import TypeAtlas.Export.Check
import TypeAtlas.Export.Codec

/-!
# The exports of a directory

The exports of a directory are the files in it whose names end in `.symbols.json`.  They are read and checked in the
order of their names, into one universe; the first failure ends it.
-/

namespace TypeAtlas

/-- How the names of export files end. -/
def exportEnding : String := ".symbols.json"

/-- Whether a file of this name is an export. -/
def isExportName (name : String) : Bool := exportEnding.toList.isSuffixOf name.toList

/-- The name and the text of an entry of a directory, if it is an export file. -/
def exportText? (entry : String × FileNode) : Option (String × Option String) :=
  match entry with
  | (name, .file text) => if isExportName name then some (name, text) else none
  | _ => none

/-- The export in a file. -/
def exportOf (path : String) (text : Option String) : Except ExportError PackageExport :=
  match text with
  | none => .error (.unreadable path .notText)
  | some text =>
    match PackageExport.parse? text with
    | some e => .ok e
    | none => .error (.malformed path)

/-- What came of checking a directory: the packages and the universe that defines their types, or the failure; and
how many exports were read. -/
structure DirectoryCheck where
  result : Except ExportError (List CheckedPackage × Universe)
  filesRead : Nat

/-- Check files in turn, after the packages `done`. -/
def checkFiles (dir : String) (u : Universe) (done : List CheckedPackage) (filesRead : Nat) :
    List (String × Option String) → DirectoryCheck
  | [] => ⟨.ok (done, u), filesRead⟩
  | (name, text) :: rest =>
    match exportOf (Path.join dir name) text with
    | .error e => ⟨.error e, filesRead⟩
    | .ok e =>
      match e.check u with
      | (.error e, _) => ⟨.error e, filesRead + 1⟩
      | (.ok pkg, u) => checkFiles dir u (done ++ [pkg]) (filesRead + 1) rest

/-- Check the exports of a directory against a universe without other definitions. -/
def checkExports (tree : FileTree) (dir : String) : DirectoryCheck :=
  match tree.list dir with
  | .error e => ⟨.error (.unreadable dir e), 0⟩
  | .ok entries => checkFiles dir .initial [] 0 (entries.filterMap exportText?)

end TypeAtlas
