import TypeAtlas.Universe.Identity
import TypeAtlas.Universe.MethodSet

/-!
# Satisfaction of interfaces

A type satisfies an interface if its method set has every method that the interface asks for, with an identical
signature.  Every type satisfies an interface that asks for nothing.
-/

namespace TypeAtlas

namespace Universe

/-- Whether a method set has a method with an identical signature. -/
def provides (u : Universe) (available : MethodSet) (m : String × Signature) : Bool :=
  match available.get? m.1 with
  | some found => u.identicalSignatures found.signature m.2
  | none => false

/-- The first method, in the order of names, that an interface asks for and a type does not have. -/
def missingMethod (u : Universe) (t : Ty) (i : InterfaceType) : Option String :=
  let available := u.methodSet t
  ((u.interfaceMethods i).entries.find? fun m => !u.provides available m).map Prod.fst

/-- Whether a type satisfies an interface. -/
def implements (u : Universe) (t : Ty) (i : InterfaceType) : Bool := (u.missingMethod t i).isNone

end Universe

end TypeAtlas
