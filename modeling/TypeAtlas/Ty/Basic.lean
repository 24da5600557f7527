/-!
# Go types

A type is described by its shape.  Defined types are referred to by name (`TypeName`), so that recursive types and
types of other packages need no cycle in the description; a universe tells what a name stands for.

The description of a type, of a signature, of a struct field, of an interface method and of an interface are defined
together, each in terms of the others.
-/

namespace TypeAtlas

/-- The name of a defined type: the import path of its package, and the name in it.  Predeclared types such as
`error` have the empty path. -/
structure TypeName where
  package : String
  name : String
deriving DecidableEq, Inhabited

namespace TypeName

/-- Names are ordered by package, then by name. -/
instance : Ord TypeName := ⟨compareLex (compareOn package) (compareOn name)⟩

instance : Std.TransOrd TypeName := inferInstanceAs (Std.TransCmp (compareLex _ _))

instance : Std.LawfulEqOrd TypeName where
  eq_of_compare {a b} h := by
    have h : (compare a.package b.package).then (compare a.name b.name) = .eq := h
    rw [Ordering.then_eq_eq, Std.compare_eq_iff_eq, Std.compare_eq_iff_eq] at h
    cases a; cases b; simp_all

/-- Whether the name belongs to the language itself. -/
def isPredeclared (n : TypeName) : Bool := n.package.isEmpty

/-- The name as written in a type: qualified by the path of its package, unless it is predeclared. -/
def format (n : TypeName) : String :=
  if n.isPredeclared then n.name else n.package ++ "." ++ n.name

end TypeName

/-- The predeclared basic types.  `byte` and `rune` are spellings of `uint8` and `int32`. -/
inductive BasicKind where
  | bool
  | string
  | int
  | int8
  | int16
  | int32
  | int64
  | uint
  | uint8
  | uint16
  | uint32
  | uint64
  | uintptr
  | float32
  | float64
  | complex64
  | complex128
  | unsafePointer
deriving DecidableEq, Inhabited

/-- The name of a basic type. -/
def BasicKind.format : BasicKind → String
  | bool => "bool"
  | string => "string"
  | int => "int"
  | int8 => "int8"
  | int16 => "int16"
  | int32 => "int32"
  | int64 => "int64"
  | uint => "uint"
  | uint8 => "uint8"
  | uint16 => "uint16"
  | uint32 => "uint32"
  | uint64 => "uint64"
  | uintptr => "uintptr"
  | float32 => "float32"
  | float64 => "float64"
  | complex64 => "complex64"
  | complex128 => "complex128"
  | unsafePointer => "unsafe.Pointer"

/-- What a channel may be used for. -/
inductive ChanDir where
  | both
  | send
  | recv
deriving DecidableEq, Inhabited

mutual

/-- A type. -/
inductive Ty where
  | basic (kind : BasicKind)
  /-- A defined type, known by its name. -/
  | named (name : TypeName)
  | pointer (elem : Ty)
  | slice (elem : Ty)
  | array (len : UInt64) (elem : Ty)
  | map (key value : Ty)
  | chan (dir : ChanDir) (elem : Ty)
  | func (signature : Signature)
  | struct (fields : List Field)
  | interface (iface : InterfaceType)

/-- Parameters and results of a function.  Parameter names carry no identity and are not kept.  The last parameter
of a variadic function is a slice. -/
structure Signature where
  params : List Ty
  results : List Ty
  variadic : Bool

/-- A field of a struct.  An embedded field is named after its type. -/
structure Field where
  name : String
  type : Ty
  embedded : Bool

/-- A method that an interface asks for. -/
structure MethodSpec where
  name : String
  signature : Signature

/-- An interface: methods of its own, and the types that it embeds. -/
structure InterfaceType where
  methods : List MethodSpec
  embeds : List Ty

end

instance : Inhabited Ty := ⟨.basic .bool⟩

instance : Inhabited Signature := ⟨⟨[], [], false⟩⟩

instance : Inhabited InterfaceType := ⟨⟨[], []⟩⟩

/-- The same interface with one more embedded type, after the others. -/
def InterfaceType.withEmbed (i : InterfaceType) (t : Ty) : InterfaceType :=
  { i with embeds := i.embeds ++ [t] }

namespace Ty

/-- The predeclared type `error`. -/
def error : Ty := .named ⟨"", "error"⟩

/-- Whether the type is a pointer. -/
def isPointer : Ty → Bool
  | pointer _ => true
  | _ => false

/-- The pointer form of a type: a pointer stays as it is. -/
def toPointer : Ty → Ty
  | pointer t => pointer t
  | t => pointer t

/-- The type without one level of pointer. -/
def deref : Ty → Ty
  | pointer t => t
  | t => t

/-- The name of a defined type. -/
def asNamed? : Ty → Option TypeName
  | named n => some n
  | _ => none

/-- Whether the type is a name of a list. -/
def seenIn (t : Ty) (names : List TypeName) : Bool :=
  match t.asNamed? with
  | some n => decide (n ∈ names)
  | none => false

/-- The interface that a type literally is. -/
def asInterface? : Ty → Option InterfaceType
  | interface i => some i
  | _ => none

/-- The fields of the struct that a type literally is. -/
def asStruct? : Ty → Option (List Field)
  | struct fs => some fs
  | _ => none

theorem eq_named_of_asNamed? {t : Ty} {n : TypeName} (h : t.asNamed? = some n) : t = named n := by
  cases t <;> simp_all [asNamed?]

theorem eq_interface_of_asInterface? {t : Ty} {i : InterfaceType} (h : t.asInterface? = some i) :
    t = interface i := by
  cases t <;> simp_all [asInterface?]

theorem eq_struct_of_asStruct? {t : Ty} {fs : List Field} (h : t.asStruct? = some fs) : t = struct fs := by
  cases t <;> simp_all [asStruct?]

end Ty

end TypeAtlas
