import TypeAtlas.Json.Decode

/-!
# References to packages

A package is identified by its import path; the name that it declares goes with it.
-/

namespace TypeAtlas

/-- A package: its import path, and the name that it declares. -/
structure PackageRef where
  path : String
  name : String
deriving DecidableEq, Inhabited

namespace PackageRef

/-- The JSON form. -/
def encode (p : PackageRef) : Json := .obj [("path", .str p.path), ("name", .str p.name)]

/-- A reference from its record. -/
def decode (j : Json) : Option PackageRef := do
  match ← j.fields? ["path", "name"] with
  | [path, name] =>
    return {
      path := ← Json.required Json.asString? path
      name := ← Json.required Json.asString? name }
  | _ => none

/-- The reference as written: the name, and the path in parentheses. -/
def format (p : PackageRef) : String := p.name ++ " (" ++ p.path ++ ")"

/-- Whether two references mean the same package: only the paths count. -/
def samePackage (p q : PackageRef) : Bool := p.path == q.path

/-- Whether a package comes before another one: only the paths count. -/
def before (p q : PackageRef) : Bool := decide (p.path < q.path)

/-- In path order; references to the same package keep their order. -/
def sort (ps : List PackageRef) : List PackageRef := ps.mergeSort fun p q => !q.before p

/-- The references after `p`, without those that mean the same package as the one kept before them. -/
def dropAfter (p : PackageRef) : List PackageRef → List PackageRef
  | [] => []
  | q :: qs => if p.samePackage q then dropAfter p qs else q :: dropAfter q qs

/-- Of neighbours that mean the same package, only the first one. -/
def dropRepeats : List PackageRef → List PackageRef
  | [] => []
  | p :: ps => p :: dropAfter p ps

/-- In path order, every package once: the first reference to it. -/
def sortUnique (ps : List PackageRef) : List PackageRef := dropRepeats (sort ps)

end PackageRef

end TypeAtlas
