import TypeAtlas.Entity.Basic

/-!
# Extracting the entities of a package

A package is described to the extraction by a `PackageOutline`: its imports, its objects and its scope.  A checked
package has one; so has a package under analysis, which knows its objects by the identifiers that introduce them.

An object is top-level if the scope binds its name to that very object.  Extraction takes the top-level objects, each
name once, in the order of their names, and sorts the entities that they are by kind (`Package.extract`).
-/

namespace TypeAtlas

/-- What the extraction is told of a package. -/
structure PackageOutline where
  ref : PackageRef
  imports : List PackageRef
  /-- All objects, local ones included, in any order. -/
  defs : List Object
  scope : Scope
deriving DecidableEq

/-- The outline of a checked package. -/
def CheckedPackage.outline (pkg : CheckedPackage) : PackageOutline where
  ref := pkg.ref
  imports := pkg.imports.values
  defs := pkg.defs
  scope := pkg.scope

/-! ## Packages under analysis -/

/-- An identifier where it stands. -/
structure Ident where
  name : String
  pos : Position
deriving DecidableEq

namespace Ident

/-- Identifiers are ordered by name, then by position. -/
instance : Ord Ident := ⟨compareLex (compareOn name) (compareOn pos)⟩

instance : Std.TransOrd Ident := inferInstanceAs (Std.TransCmp (compareLex _ _))

instance : Std.LawfulEqOrd Ident where
  eq_of_compare {a b} h := by
    have h : (compare a.name b.name).then (compare a.pos b.pos) = .eq := h
    rw [Ordering.then_eq_eq, Std.compare_eq_iff_eq, Std.compare_eq_iff_eq] at h
    cases a; cases b; simp_all

end Ident

/-- One package under analysis. -/
structure Analysis where
  ref : PackageRef
  imports : List PackageRef
  scope : Scope
  /-- What each defining identifier introduces.  The identifier of the package clause introduces no object. -/
  defs : Table Ident (Option Object)
deriving DecidableEq

namespace Analysis

/-- The analysis of a checked package.  Of objects introduced by equal identifiers the last one counts. -/
def ofChecked (pkg : CheckedPackage) : Analysis where
  ref := pkg.ref
  imports := pkg.imports.values
  scope := pkg.scope
  defs := Table.ofList
    ((⟨pkg.ref.name, .unknown⟩, none) :: pkg.defs.map fun o => (⟨o.name, o.pos⟩, some o))

/-- The outline of a package under analysis. -/
def outline (a : Analysis) : PackageOutline where
  ref := a.ref
  imports := a.imports
  defs := a.defs.values.filterMap id
  scope := a.scope

end Analysis

/-! ## Extraction -/

/-- A package and its entities. -/
structure Package where
  ref : PackageRef
  /-- The imported packages, in the order of their paths, each once. -/
  imports : List PackageRef
  aggregates : List Aggregate
  interfaces : List Interface
  namedTypes : List NamedType
  typeAliases : List TypeAlias
deriving DecidableEq

namespace PackageOutline

/-- The top-level objects by name. -/
def topLevel (outline : PackageOutline) : Table String Object :=
  (outline.defs.filter outline.scope.binds).foldl (fun t o => t.insertIfNew o.name o) .empty

/-- The entities among the top-level objects, in the order of their names. -/
def entities (outline : PackageOutline) (u : Universe) : List Entity :=
  outline.topLevel.values.filterMap (Entity.ofObject? u outline.ref)

end PackageOutline

namespace Package

/-- A package that declares nothing. -/
def bare (ref : PackageRef) : Package := ⟨ref, [], [], [], [], []⟩

/-- The package that an outline describes, its types seen in a universe. -/
def extract (outline : PackageOutline) (u : Universe) : Package where
  ref := outline.ref
  imports := PackageRef.sortUnique outline.imports
  aggregates := (outline.entities u).filterMap Entity.asAggregate?
  interfaces := (outline.entities u).filterMap Entity.asInterface?
  namedTypes := (outline.entities u).filterMap Entity.asNamedType?
  typeAliases := (outline.entities u).filterMap Entity.asTypeAlias?

end Package

end TypeAtlas
