import TypeAtlas.Ty.Basic

/-!
# The size of a type

`Ty.size` counts the types that a description holds, itself included.  It is what shrinks when a search goes from an
anonymous type to its parts.
-/

namespace TypeAtlas

mutual

/-- The number of types in the description of a type. -/
def Ty.size : Ty → Nat
  | .basic _ => 1
  | .named _ => 1
  | .pointer t => t.size + 1
  | .slice t => t.size + 1
  | .array _ t => t.size + 1
  | .map k v => k.size + v.size + 1
  | .chan _ t => t.size + 1
  | .func s => s.size + 1
  | .struct fs => Field.sizeAll fs + 1
  | .interface i => i.size + 1

/-- The number of types in a list of types. -/
def Ty.sizeAll : List Ty → Nat
  | [] => 0
  | t :: ts => t.size + Ty.sizeAll ts

/-- The number of types in a signature. -/
def Signature.size : Signature → Nat
  | ⟨params, results, _⟩ => Ty.sizeAll params + Ty.sizeAll results

/-- The number of types in a list of fields. -/
def Field.sizeAll : List Field → Nat
  | [] => 0
  | ⟨_, t, _⟩ :: fs => t.size + Field.sizeAll fs

/-- The number of types in a list of interface methods. -/
def MethodSpec.sizeAll : List MethodSpec → Nat
  | [] => 0
  | ⟨_, s⟩ :: ms => s.size + MethodSpec.sizeAll ms

/-- The number of types in an interface. -/
def InterfaceType.size : InterfaceType → Nat
  | ⟨methods, embeds⟩ => MethodSpec.sizeAll methods + Ty.sizeAll embeds

end

theorem Ty.size_pos (t : Ty) : 0 < t.size := by
  cases t <;> simp [Ty.size]

/-- A pointer is larger than what it points to. -/
theorem Ty.size_deref_le (t : Ty) : t.deref.size ≤ t.size := by
  cases t <;> simp [Ty.deref, Ty.size]

theorem Ty.sizeAll_append (ss ts : List Ty) : Ty.sizeAll (ss ++ ts) = Ty.sizeAll ss + Ty.sizeAll ts := by
  induction ss with
  | nil => simp [Ty.sizeAll]
  | cons s ss ih => simp only [List.cons_append, Ty.sizeAll, ih]; omega

/-- What an interface embeds is smaller than the interface. -/
theorem InterfaceType.sizeAll_embeds_lt (i : InterfaceType) : Ty.sizeAll i.embeds < (Ty.interface i).size := by
  cases i
  simp only [Ty.size, InterfaceType.size]
  omega

end TypeAtlas
