import TypeAtlas.Object
import TypeAtlas.Text.Uppercase
import TypeAtlas.Ty.Format
import TypeAtlas.Universe.Satisfaction

/-!
# Entities

A top-level type of a package is an entity of one of four kinds.

* An alias is a `TypeAlias`, whatever it stands for.
* A defined type is an `Aggregate` if a struct is behind it, an `Interface` if an interface is behind it, and a
  `NamedType` otherwise.

Functions, variables and constants are no entities (`Entity.ofObject?`).  An interface keeps the methods that it asks
for in the universe from which it was extracted.
-/

namespace TypeAtlas

/-- What identifies an entity: the path of its package, and its name. -/
structure EntityKey where
  package : String
  name : String
deriving DecidableEq, Inhabited

namespace EntityKey

/-- Keys are ordered by package, then by name. -/
instance : Ord EntityKey := ⟨compareLex (compareOn package) (compareOn name)⟩

instance : Std.TransOrd EntityKey := inferInstanceAs (Std.TransCmp (compareLex _ _))

instance : Std.LawfulEqOrd EntityKey where
  eq_of_compare {a b} h := by
    have h : (compare a.package b.package).then (compare a.name b.name) = .eq := h
    rw [Ordering.then_eq_eq, Std.compare_eq_iff_eq, Std.compare_eq_iff_eq] at h
    cases a; cases b; simp_all

/-- The key as written: path, point, name. -/
def format (k : EntityKey) : String := k.package ++ "." ++ k.name

end EntityKey

/-- What an embedded type turns out to be. -/
inductive EmbedKind where
  | aggregate
  | interface
  | other
deriving DecidableEq, Inhabited

/-- A type embedded in an entity. -/
structure Embed where
  name : String
  /-- The type as written, a pointer included. -/
  type : Ty
  kind : EmbedKind
deriving DecidableEq

namespace Embed

/-- The embedded type `t` under a name, in a universe. -/
def ofType (u : Universe) (name : String) (t : Ty) : Embed where
  name := name
  type := t
  kind :=
    match u.underlying t.deref with
    | .struct _ => .aggregate
    | .interface _ => .interface
    | _ => .other

/-- The name under which an interface embeds a type. -/
def nameIn (t : Ty) : String :=
  match t with
  | .named n => n.name
  | t => t.format

end Embed

/-- A defined type with a struct behind it. -/
structure Aggregate where
  pos : Position
  type : Ty
  name : String
  package : PackageRef
  /-- The methods declared on the type. -/
  methods : List MethodDecl
  /-- The fields that are not embedded. -/
  fields : List Field
  embeds : List Embed
deriving DecidableEq

/-- A defined type with an interface behind it. -/
structure Interface where
  pos : Position
  type : Ty
  underlying : InterfaceType
  name : String
  package : PackageRef
  /-- The methods that the interface lists itself. -/
  methods : List MethodDecl
  embeds : List Embed
  /-- All methods that the interface asked for when it was extracted. -/
  methodSet : Table String Signature
deriving DecidableEq

/-- Any other defined type. -/
structure NamedType where
  pos : Position
  type : Ty
  underlying : Ty
  name : String
  package : PackageRef
  /-- The methods declared on the type. -/
  methods : List MethodDecl
deriving DecidableEq

/-- An alias. -/
structure TypeAlias where
  pos : Position
  name : String
  package : PackageRef
  target : Ty
deriving DecidableEq

/-- An entity of any kind. -/
inductive Entity where
  | aggregate (a : Aggregate)
  | interface (i : Interface)
  | namedType (n : NamedType)
  | typeAlias (a : TypeAlias)
deriving DecidableEq

/-- The methods declared on a type: a type without a name has none. -/
def Universe.methodsOf (u : Universe) (t : Ty) : List MethodDecl :=
  match t.asNamed? with
  | some n => u.declaredOn n
  | none => []

namespace Aggregate

/-- The aggregate that an object is. -/
def ofObject? (u : Universe) (package : PackageRef) (o : Object) : Option Aggregate :=
  match o.kind, u.underlying o.type with
  | .definedType, .struct fs => some {
      pos := o.pos
      type := o.type
      name := o.name
      package
      methods := u.methodsOf o.type
      fields := fs.filter (!·.embedded)
      embeds := (fs.filter (·.embedded)).map fun f => Embed.ofType u f.name f.type }
  | _, _ => none

/-- What identifies the aggregate among all entities. -/
def key (a : Aggregate) : EntityKey := ⟨a.package.path, a.name⟩

/-- The name, qualified by the name of the package. -/
def qualifiedName (a : Aggregate) : String := a.package.name ++ "." ++ a.name

/-- The methods that embedded fields promote to a pointer to the aggregate, by name. -/
def promoted (u : Universe) (a : Aggregate) : List Selection :=
  ((u.methodSet a.type.toPointer).values).filter Selection.isPromoted

end Aggregate

namespace Interface

/-- The interface that an object is. -/
def ofObject? (u : Universe) (package : PackageRef) (o : Object) : Option Interface :=
  match o.kind, u.underlying o.type with
  | .definedType, .interface i => some {
      pos := o.pos
      type := o.type
      underlying := i
      name := o.name
      package
      methods := i.methods.map fun m => ⟨m.name, m.signature, false, .unknown⟩
      embeds := i.embeds.map fun t => Embed.ofType u (Embed.nameIn t) t
      methodSet := u.interfaceMethods i }
  | _, _ => none

/-- What identifies the interface among all entities. -/
def key (i : Interface) : EntityKey := ⟨i.package.path, i.name⟩

/-- The name, qualified by the name of the package. -/
def qualifiedName (i : Interface) : String := i.package.name ++ "." ++ i.name

/-- Whether the interface asked for no method when it was extracted. -/
def isEmpty (i : Interface) : Bool := i.methodSet.isEmpty

/-- Whether a type counts as an implementation: its pointer form satisfies the interface, and the interface is not
empty. -/
def implementedBy (u : Universe) (i : Interface) (t : Ty) : Bool :=
  !i.isEmpty && u.implements t.toPointer i.underlying

end Interface

namespace NamedType

/-- The named type that an object is. -/
def ofObject? (u : Universe) (package : PackageRef) (o : Object) : Option NamedType :=
  match o.kind, u.underlying o.type with
  | .definedType, .struct _ => none
  | .definedType, .interface _ => none
  | .definedType, t => some {
      pos := o.pos
      type := o.type
      underlying := t
      name := o.name
      package
      methods := u.methodsOf o.type }
  | _, _ => none

/-- What identifies the named type among all entities. -/
def key (n : NamedType) : EntityKey := ⟨n.package.path, n.name⟩

end NamedType

namespace TypeAlias

/-- The alias that an object is. -/
def ofObject? (package : PackageRef) (o : Object) : Option TypeAlias :=
  if o.isAlias then some { pos := o.pos, name := o.name, package, target := o.type } else none

/-- What identifies the alias among all entities. -/
def key (a : TypeAlias) : EntityKey := ⟨a.package.path, a.name⟩

end TypeAlias

namespace Entity

/-- The entity that an object of a package is. -/
def ofObject? (u : Universe) (package : PackageRef) (o : Object) : Option Entity :=
  ((TypeAlias.ofObject? package o).map .typeAlias).or
    (((Aggregate.ofObject? u package o).map .aggregate).or
      (((Interface.ofObject? u package o).map .interface).or
        ((NamedType.ofObject? u package o).map .namedType)))

/-- The aggregate that the entity is. -/
def asAggregate? : Entity → Option Aggregate
  | aggregate a => some a
  | _ => none

/-- The interface that the entity is. -/
def asInterface? : Entity → Option Interface
  | interface i => some i
  | _ => none

/-- The named type that the entity is. -/
def asNamedType? : Entity → Option NamedType
  | namedType n => some n
  | _ => none

/-- The alias that the entity is. -/
def asTypeAlias? : Entity → Option TypeAlias
  | typeAlias a => some a
  | _ => none

end Entity

end TypeAtlas
