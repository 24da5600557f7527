import TypeAtlas.Export.Basic
import TypeAtlas.Files.Tree

/-!
# Checking an export

An export becomes a checked package, and its top-level types become definitions of a universe.  An export with
errors is refused as a whole.  The declarations are then taken in order; a top-level declaration that repeats the
name of an earlier one ends the check.  What was defined up to there, the repeated declaration included, stays in
the universe.
-/

namespace TypeAtlas

/-- Why a package or a directory was refused. -/
inductive ExportError where
  /-- A directory or a file cannot be read. -/
  | unreadable (path : String) (cause : FileError)
  /-- A file is no export. -/
  | malformed (path : String)
  /-- The compiler found errors. -/
  | compile (package : String) (errors : List String)
  /-- A top-level name is declared twice. -/
  | redeclared (package name : String)
deriving DecidableEq

/-- The text of a check error. -/
def ExportError.message : ExportError → String
  | unreadable path cause => "failed to read " ++ path ++ ": " ++ cause.message
  | malformed path => "failed to parse " ++ path
  | compile package errors =>
    "package " ++ package ++ " has " ++ Nat.repr errors.length ++ " compile error(s): " ++
      String.intercalate "; " errors
  | redeclared package name => name ++ " redeclared in package " ++ package

namespace Declaration

/-- Define the type that a top-level type declaration introduces, with its methods. -/
def defineIn (u : Universe) (owner : PackageRef) : Declaration → Universe
  | type n _ t methods false => methods.foldl (fun u m => u.addMethod ⟨owner.path, n⟩ m) (u.define ⟨owner.path, n⟩ t)
  | _ => u

end Declaration

namespace CheckedPackage

/-- The package without declarations. -/
def start (e : PackageExport) : CheckedPackage where
  ref := e.ref
  imports := Table.ofList (e.imports.map fun p => (p.path, p))
  defs := []
  scope := .empty

/-- Take declarations in order. -/
def declareAll (pkg : CheckedPackage) (u : Universe) : List Declaration → Except ExportError CheckedPackage × Universe
  | [] => (.ok pkg, u)
  | d :: ds =>
    let u := d.defineIn u pkg.ref
    let o := d.object pkg.ref
    if d.isLocal then declareAll { pkg with defs := pkg.defs ++ [o] } u ds
    else if (pkg.scope.lookup o.name).isSome then (.error (.redeclared pkg.ref.path o.name), u)
    else declareAll { pkg with defs := pkg.defs ++ [o], scope := pkg.scope.insert o } u ds

end CheckedPackage

/-- Check an export: the package, or why it is refused, and the universe afterwards. -/
def PackageExport.check (e : PackageExport) (u : Universe) : Except ExportError CheckedPackage × Universe :=
  if e.errors.isEmpty then (CheckedPackage.start e).declareAll u e.decls
  else (.error (.compile e.ref.path e.errors), u)

end TypeAtlas
