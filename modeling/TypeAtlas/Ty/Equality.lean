import TypeAtlas.Ty.Basic

/-!
# Equality of types is decidable

Two descriptions are compared part by part (`Ty.same` and the functions beside it).  The comparison holds exactly of
equal descriptions (`Ty.same_iff`, `Signature.same_iff`, `InterfaceType.same_iff`).  This is equality of the
descriptions, not identity of types: two interfaces that ask for the same methods may be described differently.
-/

namespace TypeAtlas

mutual

/-- Whether two types have the same description. -/
def Ty.same : Ty → Ty → Bool
  | .basic a, .basic b => a == b
  | .named a, .named b => a == b
  | .pointer s, .pointer t => s.same t
  | .slice s, .slice t => s.same t
  | .array m s, .array n t => m == n && s.same t
  | .map k s, .map l t => k.same l && s.same t
  | .chan d s, .chan e t => d == e && s.same t
  | .func s, .func t => s.same t
  | .struct fs, .struct gs => Field.sameAll fs gs
  | .interface i, .interface j => i.same j
  | _, _ => false

/-- Whether two lists of types have the same description. -/
def Ty.sameAll : List Ty → List Ty → Bool
  | [], [] => true
  | s :: ss, t :: ts => s.same t && Ty.sameAll ss ts
  | _, _ => false

/-- Whether two signatures have the same description. -/
def Signature.same : Signature → Signature → Bool
  | ⟨ps, rs, v⟩, ⟨qs, ss, w⟩ => Ty.sameAll ps qs && Ty.sameAll rs ss && v == w

/-- Whether two fields have the same description. -/
def Field.same : Field → Field → Bool
  | ⟨m, s, d⟩, ⟨n, t, e⟩ => m == n && s.same t && d == e

/-- Whether two lists of fields have the same description. -/
def Field.sameAll : List Field → List Field → Bool
  | [], [] => true
  | f :: fs, g :: gs => f.same g && Field.sameAll fs gs
  | _, _ => false

/-- Whether two interface methods have the same description. -/
def MethodSpec.same : MethodSpec → MethodSpec → Bool
  | ⟨m, s⟩, ⟨n, t⟩ => m == n && s.same t

/-- Whether two lists of interface methods have the same description. -/
def MethodSpec.sameAll : List MethodSpec → List MethodSpec → Bool
  | [], [] => true
  | f :: fs, g :: gs => f.same g && MethodSpec.sameAll fs gs
  | _, _ => false

/-- Whether two interfaces have the same description. -/
def InterfaceType.same : InterfaceType → InterfaceType → Bool
  | ⟨ms, es⟩, ⟨ns, fs⟩ => MethodSpec.sameAll ms ns && Ty.sameAll es fs

end

mutual

/-- **Types with the same description are equal.** -/
theorem Ty.same_iff : ∀ s t : Ty, s.same t = true ↔ s = t
  | .basic _, t => by cases t <;> simp [Ty.same]
  | .named _, t => by cases t <;> simp [Ty.same]
  | .pointer s, t => by cases t <;> simp [Ty.same, Ty.same_iff s]
  | .slice s, t => by cases t <;> simp [Ty.same, Ty.same_iff s]
  | .array _ s, t => by cases t <;> simp [Ty.same, Ty.same_iff s]
  | .map k s, t => by cases t <;> simp [Ty.same, Ty.same_iff k, Ty.same_iff s]
  | .chan _ s, t => by cases t <;> simp [Ty.same, Ty.same_iff s]
  | .func s, t => by cases t <;> simp [Ty.same, Signature.same_iff s]
  | .struct fs, t => by cases t <;> simp [Ty.same, Field.sameAll_iff fs]
  | .interface i, t => by cases t <;> simp [Ty.same, InterfaceType.same_iff i]

theorem Ty.sameAll_iff : ∀ ss ts : List Ty, Ty.sameAll ss ts = true ↔ ss = ts
  | [], ts => by cases ts <;> simp [Ty.sameAll]
  | s :: ss, ts => by cases ts <;> simp [Ty.sameAll, Ty.same_iff s, Ty.sameAll_iff ss]

/-- **Signatures with the same description are equal.** -/
theorem Signature.same_iff : ∀ s t : Signature, s.same t = true ↔ s = t
  | ⟨ps, rs, v⟩, ⟨qs, ss, w⟩ => by
    simp [Signature.same, Ty.sameAll_iff ps, Ty.sameAll_iff rs, and_assoc]

theorem Field.same_iff : ∀ f g : Field, f.same g = true ↔ f = g
  | ⟨m, s, d⟩, ⟨n, t, e⟩ => by simp [Field.same, Ty.same_iff s, and_assoc]

theorem Field.sameAll_iff : ∀ fs gs : List Field, Field.sameAll fs gs = true ↔ fs = gs
  | [], gs => by cases gs <;> simp [Field.sameAll]
  | f :: fs, gs => by cases gs <;> simp [Field.sameAll, Field.same_iff f, Field.sameAll_iff fs]

theorem MethodSpec.same_iff : ∀ f g : MethodSpec, f.same g = true ↔ f = g
  | ⟨m, s⟩, ⟨n, t⟩ => by simp [MethodSpec.same, Signature.same_iff s]

theorem MethodSpec.sameAll_iff : ∀ fs gs : List MethodSpec, MethodSpec.sameAll fs gs = true ↔ fs = gs
  | [], gs => by cases gs <;> simp [MethodSpec.sameAll]
  | f :: fs, gs => by
    cases gs <;> simp [MethodSpec.sameAll, MethodSpec.same_iff f, MethodSpec.sameAll_iff fs]

/-- **Interfaces with the same description are equal.** -/
theorem InterfaceType.same_iff : ∀ i j : InterfaceType, i.same j = true ↔ i = j
  | ⟨ms, es⟩, ⟨ns, fs⟩ => by
    simp [InterfaceType.same, MethodSpec.sameAll_iff ms, Ty.sameAll_iff es]

end

instance : DecidableEq Ty := fun s t => decidable_of_iff _ (Ty.same_iff s t)

instance : DecidableEq Signature := fun s t => decidable_of_iff _ (Signature.same_iff s t)

instance : DecidableEq Field := fun f g => decidable_of_iff _ (Field.same_iff f g)

instance : DecidableEq MethodSpec := fun f g => decidable_of_iff _ (MethodSpec.same_iff f g)

instance : DecidableEq InterfaceType := fun i j => decidable_of_iff _ (InterfaceType.same_iff i j)

end TypeAtlas
