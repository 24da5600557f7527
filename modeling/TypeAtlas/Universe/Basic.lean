import TypeAtlas.Position
import TypeAtlas.Table
import TypeAtlas.Ty.Equality
import TypeAtlas.Ty.Size

/-!
# Universes of type definitions

A universe tells what each defined type stands for, and which methods are declared on it.  It starts with the
predeclared interface `error`.  A name that is not defined stands for nothing: such a type is opaque.

`Universe.underlying` follows definitions to the type behind a name.  A chain of definitions is followed for at most
`Universe.chainLimit` links, so that a cyclic one has an answer too.
-/

namespace TypeAtlas

/-- A method declared on a defined type. -/
structure MethodDecl where
  name : String
  signature : Signature
  /-- Whether the receiver is a pointer. -/
  pointerReceiver : Bool
  pos : Position
deriving DecidableEq

/-- What a defined type stands for, and its methods in the order of their declarations. -/
structure Definition where
  underlying : Ty
  methods : List MethodDecl
deriving DecidableEq

/-- The defined types. -/
structure Universe where
  defs : Table TypeName Definition
deriving DecidableEq

namespace Universe

/-- What a name stands for. -/
def lookup (u : Universe) (n : TypeName) : Option Definition := u.defs.get? n

/-- Whether a name is defined. -/
def contains (u : Universe) (n : TypeName) : Bool := u.defs.contains n

/-- The number of defined names. -/
def size (u : Universe) : Nat := u.defs.size

/-- Define a name, in place of an earlier definition and its methods. -/
def define (u : Universe) (n : TypeName) (t : Ty) : Universe := ⟨u.defs.insert n ⟨t, []⟩⟩

/-- Declare a method on a defined type, after the earlier ones.  On a name that is not defined it is lost. -/
def addMethod (u : Universe) (n : TypeName) (m : MethodDecl) : Universe :=
  match u.lookup n with
  | some d => ⟨u.defs.insert n { d with methods := d.methods ++ [m] }⟩
  | none => u

/-- The interface of the predeclared type `error`. -/
def errorInterface : InterfaceType := ⟨[⟨"Error", ⟨[], [.basic .string], false⟩⟩], []⟩

/-- The universe that defines `error` alone. -/
def initial : Universe := Universe.define ⟨.empty⟩ ⟨"", "error"⟩ (.interface errorInterface)

instance : Inhabited Universe := ⟨initial⟩

/-- The methods declared on a name. -/
def declaredOn (u : Universe) (n : TypeName) : List MethodDecl :=
  match u.lookup n with
  | some d => d.methods
  | none => []

/-- The definitions of one package. -/
def definitionsOf (u : Universe) (package : String) : List (TypeName × Definition) :=
  u.defs.entries.filter fun e => e.1.package == package

/-- Take over the definitions of one package from another universe, in place of earlier ones. -/
def adopt (u other : Universe) (package : String) : Universe :=
  ⟨u.defs.insertAll (other.definitionsOf package)⟩

/-! ## Underlying types -/

/-- How many links of a chain of definitions are followed. -/
def chainLimit : Nat := 64

/-- The type reached from a type by at most `links` definitions. -/
def follow (u : Universe) : Nat → Ty → Ty
  | 0, t => t
  | links + 1, .named n =>
    match u.lookup n with
    | some d => u.follow links d.underlying
    | none => .named n
  | _ + 1, t => t

/-- The type behind a type: names are followed, any other type stands for itself. -/
def underlying (u : Universe) (t : Ty) : Ty := u.follow chainLimit t

theorem underlying_of_undefined {u : Universe} {n : TypeName} (h : u.lookup n = none) :
    u.underlying (.named n) = .named n := by
  simp [underlying, chainLimit, follow, h]

/-- **A type that is no name stands for itself.** -/
theorem underlying_of_asNamed?_eq_none {u : Universe} {t : Ty} (h : t.asNamed? = none) :
    u.underlying t = t := by
  cases t <;> simp_all [underlying, chainLimit, follow, Ty.asNamed?]

/-! ## Names not yet seen -/

/-- How many defined names are not in a list. -/
def unseen (u : Universe) (seen : List TypeName) : Nat :=
  (u.defs.keys.filter fun n => decide (n ∉ seen)).length

theorem unseen_append_le (u : Universe) (ns seen : List TypeName) : u.unseen (ns ++ seen) ≤ u.unseen seen := by
  unfold unseen
  rw [← List.countP_eq_length_filter, ← List.countP_eq_length_filter]
  refine List.countP_mono_left fun n _ hn => ?_
  simp only [decide_eq_true_eq, List.mem_append, not_or] at hn ⊢
  exact hn.2

theorem mem_keys_of_lookup {u : Universe} {n : TypeName} {d : Definition} (h : u.lookup n = some d) :
    n ∈ u.defs.keys :=
  List.mem_map.2 ⟨(n, d), Table.mem_entries_iff.2 h, rfl⟩

/-- **Seeing a defined name for the first time leaves fewer to see.** -/
theorem unseen_append_lt {u : Universe} {n : TypeName} {d : Definition} {ns seen : List TypeName}
    (hd : u.lookup n = some d) (hn : n ∈ ns) (hs : n ∉ seen) : u.unseen (ns ++ seen) < u.unseen seen := by
  unfold unseen
  have hsub : (u.defs.keys.filter fun k => decide (k ∉ ns ++ seen)) =
      (u.defs.keys.filter fun k => decide (k ∉ seen)).filter fun k => decide (k ∉ ns) := by
    rw [List.filter_filter]
    refine List.filter_congr fun k _ => ?_
    simp only [List.mem_append, not_or, Bool.decide_and]
  rw [hsub]
  refine List.length_filter_lt_length_iff_exists.2 ⟨n, ?_, ?_⟩
  · exact List.mem_filter.2 ⟨mem_keys_of_lookup hd, decide_eq_true hs⟩
  · simpa using hn

end Universe

end TypeAtlas
