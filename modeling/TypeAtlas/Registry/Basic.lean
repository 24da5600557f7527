import TypeAtlas.Entity.Catalog
import TypeAtlas.Entity.Extraction
import TypeAtlas.Export.Check

/-!
# Registries of packages

A registry holds packages, their entities by kind, and the universe in which their types are defined.  While it is
open, packages can be added; finalizing it records for every aggregate which interfaces it implements, and closes it.

A package that was extracted once may be added to several registries.  Its aggregates are then the same in all of
them, and what an aggregate implements is recorded once: the first of the registries to be finalized decides.  The
records stand in a `Ledger` that the registries share.  It numbers the extractions, and an aggregate is known to it by
the number of its extraction and its name (`AggregateId`).
-/

namespace TypeAtlas

/-- What identifies an aggregate among those of all extractions. -/
structure AggregateId where
  /-- The number of the extraction. -/
  edition : Nat
  name : String
deriving DecidableEq

namespace AggregateId

instance : Ord AggregateId := ⟨compareLex (compareOn edition) (compareOn name)⟩

instance : Std.TransOrd AggregateId := inferInstanceAs (Std.TransCmp (compareLex _ _))

instance : Std.LawfulEqOrd AggregateId where
  eq_of_compare {a b} h := by
    have h : (compare a.edition b.edition).then (compare a.name b.name) = .eq := h
    rw [Ordering.then_eq_eq, Std.compare_eq_iff_eq, Std.compare_eq_iff_eq] at h
    cases a; cases b; simp_all

end AggregateId

/-- Which aggregates are resolved, and the number of the next extraction. -/
structure Ledger where
  next : Nat
  /-- The keys of the interfaces that an aggregate implements, in order. -/
  resolved : Table AggregateId (List EntityKey)
  /-- Only aggregates of extractions that were made are resolved. -/
  issued : ∀ a keys, resolved.get? a = some keys → a.edition < next

namespace Ledger

instance : DecidableEq Ledger := fun l m =>
  decidable_of_iff (l.next = m.next ∧ l.resolved = m.resolved)
    ⟨fun h => by cases l; cases m; cases h.1; cases h.2; rfl, fun h => ⟨congrArg next h, congrArg resolved h⟩⟩

/-- The ledger before the first extraction. -/
def empty : Ledger := ⟨0, .empty, fun _ _ h => nomatch h⟩

instance : Inhabited Ledger := ⟨empty⟩

/-- The ledger after one more extraction. -/
def advance (l : Ledger) : Ledger :=
  ⟨l.next + 1, l.resolved, fun a keys h => Nat.lt_succ_of_lt (l.issued a keys h)⟩

/-- The interfaces that an aggregate implements, if it is resolved. -/
def implemented? (l : Ledger) (a : AggregateId) : Option (List EntityKey) := l.resolved.get? a

/-- Record what an aggregate implements, unless it is resolved already.  There is nothing to record about an extraction
that was not made. -/
def record (l : Ledger) (a : AggregateId) (keys : List EntityKey) : Ledger :=
  if h : a.edition < l.next then
    ⟨l.next, l.resolved.insertIfNew a keys, fun b found hb => by
      rw [Table.get?_insertIfNew, Option.or_eq_some_iff] at hb
      rcases hb with hb | ⟨-, hb⟩
      · exact l.issued b found hb
      · split at hb
        case isTrue he => exact he ▸ h
        case isFalse => cases hb⟩
  else l

end Ledger

/-- Why an operation on a registry failed. -/
inductive RegistryError where
  /-- A directory was refused. -/
  | load (dir : String) (cause : ExportError)
  /-- A root cannot be walked. -/
  | traversal (root : String) (cause : FileError)
  /-- The package is registered already. -/
  | duplicatePackage (path : String)
  /-- The registry is closed. -/
  | finalized (path : String)
  /-- The registry was finalized before. -/
  | alreadyFinalized
  /-- It is not yet known what an aggregate implements. -/
  | unresolved (aggregate : EntityKey)
deriving DecidableEq

/-- The text of a registry error. -/
def RegistryError.message : RegistryError → String
  | load dir cause => "failed to load " ++ dir ++ ": " ++ cause.message
  | traversal root cause =>
    "failed to traverse " ++ root ++ ": IO error for operation on " ++ root ++ ": " ++ cause.message
  | duplicatePackage path => "package already registered: " ++ path
  | finalized path => "cannot add " ++ path ++ ": relations are finalized"
  | alreadyFinalized => "relations are already finalized"
  | unresolved aggregate => "implements relation of " ++ aggregate.format ++ " is not resolved yet"

/-- Packages, their entities, and the universe of their types. -/
structure Registry where
  types : Universe
  packages : Table String Package
  /-- From which extraction each package comes. -/
  editions : Table String Nat
  aggregates : Catalog Aggregate
  interfaces : Catalog Interface
  namedTypes : Catalog NamedType
  typeAliases : Catalog TypeAlias
  finalized : Bool
deriving DecidableEq

/-- The path of what is no package. -/
def placeholderPath : String := "."

namespace Registry

/-- An open registry without packages, over a universe. -/
def ofUniverse (u : Universe) : Registry := ⟨u, .empty, .empty, .empty, .empty, .empty, .empty, false⟩

/-- An open registry without packages. -/
def empty : Registry := ofUniverse .initial

instance : Inhabited Registry := ⟨empty⟩

/-- Register a package of some extraction, and its entities.  What is no package is ignored. -/
def add (r : Registry) (edition : Nat) (p : Package) : Except RegistryError Registry :=
  if p.ref.path = placeholderPath then .ok r
  else if r.finalized then .error (.finalized p.ref.path)
  else if r.packages.contains p.ref.path then .error (.duplicatePackage p.ref.path)
  else .ok { r with
    packages := r.packages.insert p.ref.path p
    editions := r.editions.insert p.ref.path edition
    aggregates := r.aggregates.putAll p.aggregates
    interfaces := r.interfaces.putAll p.interfaces
    namedTypes := r.namedTypes.putAll p.namedTypes
    typeAliases := r.typeAliases.putAll p.typeAliases }

/-- What identifies a registered aggregate among those of all extractions. -/
def idOf? (r : Registry) (a : Aggregate) : Option AggregateId :=
  (r.editions.get? a.package.path).map fun edition => ⟨edition, a.name⟩

/-- The keys of the registered interfaces that an aggregate implements, in order. -/
def implementedBy (r : Registry) (a : Aggregate) : List EntityKey :=
  (r.interfaces.all.filter fun i => i.implementedBy r.types a.type).map Interface.key

/-- Record what a registered aggregate implements. -/
def resolve (r : Registry) (l : Ledger) (a : Aggregate) : Ledger :=
  match r.idOf? a with
  | some id => l.record id (r.implementedBy a)
  | none => l

/-- Record what every aggregate implements, and close the registry. -/
def finalize (r : Registry) (l : Ledger) : Except RegistryError (Registry × Ledger) :=
  if r.finalized then .error .alreadyFinalized
  else .ok ({ r with finalized := true }, r.aggregates.all.foldl r.resolve l)

/-- The closed registry of the package under analysis in a universe. -/
def ofAnalysis (u : Universe) (a : Analysis) (l : Ledger) : Except RegistryError (Registry × Ledger) := do
  let r ← (ofUniverse u).add l.next (Package.extract a.outline u)
  r.finalize l.advance

/-! ## Queries -/

/-- The keys of the interfaces that a registered aggregate implements, if it is resolved. -/
def implemented? (r : Registry) (l : Ledger) (a : Aggregate) : Option (List EntityKey) :=
  (r.idOf? a).bind l.implemented?

/-- The keys of the interfaces that a registered aggregate implements. -/
def interfacesOf (r : Registry) (l : Ledger) (a : Aggregate) : Except RegistryError (List EntityKey) :=
  match r.implemented? l a with
  | some keys => .ok keys
  | none => .error (.unresolved a.key)

/-- Every registered aggregate with the keys of the interfaces that it implements, in the order of keys. -/
def relation (r : Registry) (l : Ledger) : Except RegistryError (List (Aggregate × List EntityKey)) :=
  r.aggregates.all.mapM fun a => do return (a, ← r.interfacesOf l a)

/-- The registered aggregates that implement an interface, in the order of keys. -/
def implementersOf (r : Registry) (l : Ledger) (interface : EntityKey) : Except RegistryError (List Aggregate) := do
  return ((← r.relation l).filter fun e => decide (interface ∈ e.2)).map Prod.fst

end Registry

end TypeAtlas
