import TypeAtlas.Object
import TypeAtlas.Universe.Basic

/-!
# Package exports

What a compiler reports of a package that it has checked: the imports, the declarations, and the errors if there
were any.  A local declaration was made inside a function body; functions are never local.
-/

namespace TypeAtlas

/-- A declaration of a package. -/
inductive Declaration where
  | type (name : String) (pos : Position) (underlying : Ty) (methods : List MethodDecl) (isLocal : Bool)
  | aliasType (name : String) (pos : Position) (target : Ty) (isLocal : Bool)
  | func (name : String) (pos : Position) (signature : Signature)
  | var (name : String) (pos : Position) (type : Ty) (isLocal : Bool)
  | const (name : String) (pos : Position) (type : Ty) (isLocal : Bool)
deriving DecidableEq

namespace Declaration

/-- The declared name. -/
def name : Declaration → String
  | type n _ _ _ _ => n
  | aliasType n _ _ _ => n
  | func n _ _ => n
  | var n _ _ _ => n
  | const n _ _ _ => n

/-- Whether the declaration stands inside a function body. -/
def isLocal : Declaration → Bool
  | type _ _ _ _ l => l
  | aliasType _ _ _ l => l
  | func _ _ _ => false
  | var _ _ _ l => l
  | const _ _ _ l => l

/-- The object that a declaration introduces.  The type of a local defined type is what it stands for, since only
top-level types are defined in a universe. -/
def object (owner : PackageRef) : Declaration → Object
  | type n pos t _ isLocal =>
    if isLocal then ⟨n, pos, owner, .definedType, t⟩ else Object.defined n pos owner
  | aliasType n pos t _ => ⟨n, pos, owner, .aliasType, t⟩
  | func n pos s => ⟨n, pos, owner, .func, .func s⟩
  | var n pos t _ => ⟨n, pos, owner, .var, t⟩
  | const n pos t _ => ⟨n, pos, owner, .const, t⟩

end Declaration

/-- What is reported of a package. -/
structure PackageExport where
  ref : PackageRef
  imports : List PackageRef
  decls : List Declaration
  /-- What the compiler found wrong. -/
  errors : List String
deriving DecidableEq

end TypeAtlas
