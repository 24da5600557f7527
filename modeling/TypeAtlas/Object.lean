import TypeAtlas.PackageRef
import TypeAtlas.Position
import TypeAtlas.Table
import TypeAtlas.Ty.Equality

/-!
# Declared objects, scopes and checked packages

An object is what one declaration introduces: a defined type, an alias, a function, a variable or a constant.  A
scope binds the top-level names of a package to their objects.  A checked package holds all objects of a package,
local ones included, and its scope.
-/

namespace TypeAtlas

/-- What an object is. -/
inductive ObjectKind where
  | definedType
  | aliasType
  | func
  | var
  | const
deriving DecidableEq, Inhabited

/-- A declared object.  The type of a defined type is its name, that of an alias is the target, that of a function
is its signature. -/
structure Object where
  name : String
  pos : Position
  package : PackageRef
  kind : ObjectKind
  type : Ty
deriving DecidableEq, Inhabited

namespace Object

/-- The object of a defined type. -/
def defined (name : String) (pos : Position) (package : PackageRef) : Object :=
  ⟨name, pos, package, .definedType, .named ⟨package.path, name⟩⟩

/-- Whether the object is a type, defined or alias. -/
def isTypeName (o : Object) : Bool := o.kind == .definedType || o.kind == .aliasType

/-- Whether the object is an alias. -/
def isAlias (o : Object) : Bool := o.kind == .aliasType

end Object

/-- The top-level names of a package, each bound to its object. -/
structure Scope where
  objects : Table String Object
deriving DecidableEq, Inhabited

namespace Scope

/-- The scope without names. -/
def empty : Scope := ⟨.empty⟩

/-- The object that a name is bound to. -/
def lookup (s : Scope) (name : String) : Option Object := s.objects.get? name

/-- Bind an object to its name, in place of an earlier one. -/
def insert (s : Scope) (o : Object) : Scope := ⟨s.objects.insert o.name o⟩

/-- Whether the scope binds the object's name to this very object. -/
def binds (s : Scope) (o : Object) : Bool := s.lookup o.name == some o

/-- The bound names, in order. -/
def names (s : Scope) : List String := s.objects.keys

end Scope

/-- A package whose declarations were checked. -/
structure CheckedPackage where
  ref : PackageRef
  /-- The imported packages by path. -/
  imports : Table String PackageRef
  /-- All objects, local ones included, in the order of their declarations. -/
  defs : List Object
  /-- The top-level objects. -/
  scope : Scope
deriving DecidableEq, Inhabited

end TypeAtlas
