import TypeAtlas.Entity.Basic

/-!
# Catalogs of entities

A catalog holds entities of one kind by their keys: every package has a shelf of its own, on which its entities stand by
name.  How many there are is counted as they are put.  Where entities are listed, all of them or those of one package, they
are collected from the shelves and then sorted, so the order in which shelves are gone through is of no account.
-/

namespace TypeAtlas

/-- Entities that have a key. -/
class Keyed (α : Type) where
  key : α → EntityKey

instance : Keyed Aggregate := ⟨Aggregate.key⟩

instance : Keyed Interface := ⟨Interface.key⟩

instance : Keyed NamedType := ⟨NamedType.key⟩

instance : Keyed TypeAlias := ⟨TypeAlias.key⟩

/-- Entities of one kind by key. -/
structure Catalog (α : Type) where
  /-- The entities of each package, by name. -/
  shelves : Table String (Table String α)
  /-- The number of entities, as counted while they were put. -/
  count : Nat
deriving DecidableEq

namespace Catalog

variable {α : Type}

/-- The catalog without entities. -/
def empty : Catalog α := ⟨.empty, 0⟩

instance : Inhabited (Catalog α) := ⟨empty⟩

/-- The shelf of a package, empty if nothing was put there. -/
def shelf (x : Catalog α) (path : String) : Table String α := (x.shelves.get? path).getD .empty

/-- The entity under a key. -/
def get? (x : Catalog α) (key : EntityKey) : Option α := (x.shelf key.package).get? key.name

/-- Whether there is an entity under a key. -/
def contains (x : Catalog α) (key : EntityKey) : Bool := (x.get? key).isSome

/-- Put an entity under its key, and tell which entity it replaces.  It counts if it replaces none. -/
def exchange [Keyed α] (x : Catalog α) (e : α) : Option α × Catalog α :=
  let key := Keyed.key e
  let replaced := (x.shelf key.package).get? key.name
  (replaced,
    { shelves := x.shelves.insert key.package ((x.shelf key.package).insert key.name e)
      count := if replaced.isNone then x.count + 1 else x.count })

/-- Put an entity under its key, in place of an earlier one. -/
def put [Keyed α] (x : Catalog α) (e : α) : Catalog α := (x.exchange e).2

/-- Put entities in turn. -/
def putAll [Keyed α] (x : Catalog α) (es : List α) : Catalog α := es.foldl put x

/-- What stands on the shelves, one shelf after the other. -/
def collected (x : Catalog α) : List α := x.shelves.values.flatMap Table.values

/-- Entities in the order of their keys, or of what else `f` makes of them. -/
def sortBy {κ : Type} [Ord κ] (f : α → κ) (es : List α) : List α := es.mergeSort fun a b => (compare (f a) (f b)).isLE

/-- All entities, in the order of their keys. -/
def all [Keyed α] (x : Catalog α) : List α := sortBy Keyed.key x.collected

/-- The entities of one package, in the order of their names. -/
def inPackage [Keyed α] (x : Catalog α) (path : String) : List α :=
  sortBy (fun e => (Keyed.key e).name) (x.shelf path).values

/-- The number of entities. -/
def size (x : Catalog α) : Nat := x.count

/-- Whether there are no entities. -/
def isEmpty (x : Catalog α) : Bool := x.count == 0

end Catalog

end TypeAtlas
