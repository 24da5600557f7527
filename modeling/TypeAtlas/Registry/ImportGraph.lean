import TypeAtlas.Registry.Basic

/-!
# The graph of imports

Every registered package with the packages that it imports, in the order of their paths: all of them, or the
registered ones only.
-/

namespace TypeAtlas

/-- Which packages import which. -/
structure ImportGraph where
  /-- Whether packages that are not registered count. -/
  external : Bool
  /-- The imports of every registered package. -/
  imports : Table String (List PackageRef)
deriving DecidableEq

namespace ImportGraph

/-- The imports of a package; a package that is not registered has none. -/
def importsOf (g : ImportGraph) (path : String) : List PackageRef := (g.imports.get? path).getD []

/-- Whether a package imports another one. -/
def hasEdge (g : ImportGraph) (source target : String) : Bool := (g.importsOf source).any fun p => p.path == target

/-- The number of imports. -/
def edgeCount (g : ImportGraph) : Nat := g.imports.values.flatten.length

end ImportGraph

/-- The graph of the imports of the registered packages. -/
def Registry.importGraph (r : Registry) (external : Bool) : ImportGraph where
  external := external
  imports := r.packages.map fun p =>
    PackageRef.sortUnique (p.imports.filter fun q => external || r.packages.contains q.path)

end TypeAtlas
