import Mathlib.Data.Finset.Card
import Mathlib.Data.Finset.Prod
import TypeAtlas.Proofs.EmbeddedInterfaces
import TypeAtlas.Universe.Identity

/-!
# How deep types are compared

Types are compared down to a depth.  A deeper comparison keeps every answer (`Universe.identicalWithin_mono`), so the only
question is whether it finds more.  It does not, once the depth is `Universe.comparisonDepth`: two types are identical
exactly if some comparison says so, however deep (`Universe.identical_iff`, `Universe.identicalSignatures_iff`).

* A comparison meets only types that are written in its arguments or in the universe (`Universe.vocabulary`): the parts of
  such types, and the types in the methods of the interfaces that they reach (`Universe.Encloses`).
* What is answered one level deeper depends on what is answered at this level (`Universe.Encloses.succ`).  So if one more
  level answers no further pair of these types, no deeper level does.
* Until then each level answers at least one more pair, and there are only finitely many.
-/

namespace TypeAtlas

/-! ## The types in a type -/

/-- The types in a signature. -/
def Signature.types (s : Signature) : List Ty := s.params ++ s.results

/-- The types of which a type is made directly. -/
def Ty.direct : Ty → List Ty
  | .basic _ => []
  | .named _ => []
  | .pointer t => [t]
  | .slice t => [t]
  | .array _ t => [t]
  | .map k v => [k, v]
  | .chan _ t => [t]
  | .func s => s.types
  | .struct fs => fs.map (·.type)
  | .interface i => i.methods.flatMap (·.signature.types) ++ i.embeds

theorem Signature.size_eq (s : Signature) : s.size = Ty.sizeAll s.types := by
  cases s
  rw [Signature.size, Signature.types, Ty.sizeAll_append]

theorem Field.sizeAll_eq (fs : List Field) : Field.sizeAll fs = Ty.sizeAll (fs.map (·.type)) := by
  induction fs with
  | nil => rw [Field.sizeAll, List.map_nil, Ty.sizeAll]
  | cons f fs ih =>
    cases f
    rw [Field.sizeAll, List.map_cons, Ty.sizeAll, ih]

theorem MethodSpec.sizeAll_eq (ms : List MethodSpec) :
    MethodSpec.sizeAll ms = Ty.sizeAll (ms.flatMap (·.signature.types)) := by
  induction ms with
  | nil => rw [MethodSpec.sizeAll, List.flatMap_nil, Ty.sizeAll]
  | cons m ms ih =>
    cases m
    rw [MethodSpec.sizeAll, List.flatMap_cons, Ty.sizeAll_append, Signature.size_eq, ih]

/-- A type counts one more than what it is made of. -/
theorem Ty.size_eq (t : Ty) : t.size = Ty.sizeAll t.direct + 1 := by
  cases t with
  | func s => rw [Ty.size, Ty.direct, Signature.size_eq]
  | struct fs => rw [Ty.size, Ty.direct, Field.sizeAll_eq]
  | interface i =>
    cases i
    rw [Ty.size, Ty.direct, Ty.sizeAll_append, InterfaceType.size, MethodSpec.sizeAll_eq]
  | _ => simp [Ty.size, Ty.direct, Ty.sizeAll]

theorem Ty.size_le_sizeAll {t : Ty} : ∀ {ts : List Ty}, t ∈ ts → t.size ≤ Ty.sizeAll ts
  | s :: ts, h => by
    rw [Ty.sizeAll]
    rcases List.mem_cons.1 h with rfl | h
    · omega
    · have := size_le_sizeAll h
      omega

theorem Ty.size_lt_of_mem_direct {c t : Ty} (h : c ∈ t.direct) : c.size < t.size := by
  have := Ty.size_le_sizeAll h
  rw [t.size_eq]
  omega

/-- **What holds of a type if it holds of what the type is made of, holds of every type.** -/
theorem Ty.induction_direct {P : Ty → Prop} (h : ∀ t : Ty, (∀ c ∈ t.direct, P c) → P t) (t : Ty) : P t :=
  h t fun c _ => Ty.induction_direct h c
termination_by t.size
decreasing_by exact Ty.size_lt_of_mem_direct ‹_›

/-- The types in a type, itself included. -/
def Ty.parts (t : Ty) : List Ty := t :: t.direct.attach.flatMap fun c => Ty.parts c.1
termination_by t.size
decreasing_by exact Ty.size_lt_of_mem_direct c.2

theorem Ty.parts_eq (t : Ty) : t.parts = t :: t.direct.flatMap Ty.parts := by
  rw [Ty.parts, List.flatMap_subtype (g := Ty.parts) fun _ _ => rfl, List.unattach_attach]

theorem Ty.self_mem_parts (t : Ty) : t ∈ t.parts := by
  rw [t.parts_eq]
  exact List.mem_cons_self

theorem Ty.length_flatMap_parts {ts : List Ty} (h : ∀ t ∈ ts, t.parts.length = t.size) :
    (ts.flatMap Ty.parts).length = Ty.sizeAll ts := by
  induction ts with
  | nil => rw [List.flatMap_nil, List.length_nil, Ty.sizeAll]
  | cons t ts ih =>
    rw [List.flatMap_cons, List.length_append, Ty.sizeAll, h t List.mem_cons_self,
      ih fun s hs => h s (List.mem_cons_of_mem t hs)]

theorem Ty.length_parts (t : Ty) : t.parts.length = t.size := by
  induction t using Ty.induction_direct with
  | h t ih => rw [t.parts_eq, List.length_cons, Ty.length_flatMap_parts ih, ← t.size_eq]

/-- What a part is made of is a part. -/
theorem Ty.mem_parts_of_direct {c p t : Ty} (hp : p ∈ t.parts) (hc : c ∈ p.direct) : c ∈ t.parts := by
  induction t using Ty.induction_direct with
  | h t ih =>
    rw [t.parts_eq] at hp ⊢
    refine List.mem_cons_of_mem t (List.mem_flatMap.2 ?_)
    rcases List.mem_cons.1 hp with rfl | hp
    · exact ⟨c, hc, c.self_mem_parts⟩
    · obtain ⟨d, hd, hp⟩ := List.mem_flatMap.1 hp
      exact ⟨d, hd, ih d hd hp⟩

/-! ## Comparisons that keep answers -/

section Answers

variable {b : Bool}

/-- A comparison that is made under a condition keeps its answer. -/
theorem ite_keeps {p : Prop} [Decidable p] {x y : Option Bool} (h : x = some b → y = some b)
    (hb : (if p then x else some false) = some b) : (if p then y else some false) = some b := by
  split
  case isTrue hp => exact h (by rwa [if_pos hp] at hb)
  case isFalse hp => rwa [if_neg hp] at hb

/-- A comparison that goes on after another one keeps its answer. -/
theorem andThen_keeps {x y x' y' : Option Bool} (hx : ∀ c, x = some c → x' = some c) (hy : y = some b → y' = some b)
    (hb : (do if ← x then y else return false) = some b) : (do if ← x' then y' else return false) = some b := by
  obtain ⟨c, hc, hb⟩ := Option.bind_eq_some_iff.1 hb
  refine Option.bind_eq_some_iff.2 ⟨c, hx c hc, ?_⟩
  cases c with
  | true => exact hy hb
  | false => exact hb

theorem agreeItems_keeps {α : Type} {same same' : α → α → Option Bool} {xs ys : List α}
    (h : ∀ x ∈ xs, ∀ y ∈ ys, ∀ b, same x y = some b → same' x y = some b) (hb : agreeItems same xs ys = some b) :
    agreeItems same' xs ys = some b := by
  induction xs generalizing ys with
  | nil => cases ys <;> exact hb
  | cons x xs ih =>
    cases ys with
    | nil => exact hb
    | cons y ys =>
      refine andThen_keeps (h x List.mem_cons_self y List.mem_cons_self) (ih fun z hz w hw => ?_) hb
      exact h z (List.mem_cons_of_mem x hz) w (List.mem_cons_of_mem y hw)

/-- Whether a way to compare types has the answers of another one, for types of a set. -/
def Keeps (K : Ty → Prop) (same same' : Ty → Ty → Option Bool) : Prop :=
  ∀ s t b, K s → K t → same s t = some b → same' s t = some b

variable {K : Ty → Prop} {same same' : Ty → Ty → Option Bool}

theorem Keeps.signature (h : Keeps K same same') {s t : Signature} (hs : ∀ x ∈ s.types, K x) (ht : ∀ y ∈ t.types, K y)
    (hb : s.identicalBy same t = some b) : s.identicalBy same' t = some b := by
  obtain ⟨hsp, hsr⟩ := List.forall_mem_append.1 hs
  obtain ⟨htp, htr⟩ := List.forall_mem_append.1 ht
  refine ite_keeps (andThen_keeps (fun c => agreeItems_keeps fun x hx y hy b => ?_)
    (agreeItems_keeps fun x hx y hy b => ?_)) hb
  · exact h x y b (hsp x hx) (htp y hy)
  · exact h x y b (hsr x hx) (htr y hy)

end Answers

namespace Universe

/-! ## Types that a comparison does not leave -/

/-- Whether a set of types has, with a type, what it is made of and what it stands for. -/
structure Encloses (u : Universe) (K : Ty → Prop) : Prop where
  direct : ∀ t, K t → ∀ c ∈ t.direct, K c
  defined : ∀ n d, K (.named n) → u.lookup n = some d → K d.underlying

namespace Encloses

variable {u v : Universe} {K : Ty → Prop} (hK : u.Encloses K)
include hK

theorem follow (links : Nat) {t : Ty} (ht : K t) : K (u.follow links t) := by
  induction links generalizing t with
  | zero => exact ht
  | succ links ih =>
    cases t with
    | named n =>
      rw [Universe.follow]
      split
      case h_1 d hd => exact ih (hK.defined n d ht hd)
      case h_2 => exact ht
    | _ => exact ht

theorem interfaceOf? {t : Ty} (ht : K t) {i : InterfaceType} (hi : u.interfaceOf? t = some i) : K (.interface i) := by
  have hu : K (u.underlying t) := hK.follow _ ht
  rwa [Ty.eq_interface_of_asInterface? hi] at hu

theorem reaches {i j : InterfaceType} (hr : u.Reaches i j) (hi : K (.interface i)) : K (.interface j) := by
  induction hr with
  | refl i => exact hi
  | step ht hj _ ih => exact ih (hK.interfaceOf? (hK.direct _ hi _ (List.mem_append_right _ ht)) hj)

/-- The methods that an interface asks for mention types of the set. -/
theorem interfaceMethods {i : InterfaceType} (hi : K (.interface i)) :
    ∀ m ∈ (u.interfaceMethods i).entries, ∀ t ∈ m.2.types, K t := by
  rintro ⟨name, sig⟩ hm t ht
  obtain ⟨j, hr, hj⟩ := listed_of_get?_interfaceMethods (Table.mem_entries_iff.1 hm)
  refine hK.direct _ (hK.reaches hr hi) t (List.mem_append_left _ ?_)
  exact List.mem_flatMap.2 ⟨⟨name, sig⟩, hj, ht⟩

/-- **A comparison one level deeper goes by the answers at this level,** also in another universe if it has the same
methods for the interfaces of the set. -/
theorem succ (hsame : ∀ i, K (.interface i) → v.interfaceMethods i = u.interfaceMethods i) {d e : Nat}
    (h : Keeps K (u.identicalWithin d) (v.identicalWithin e)) :
    Keeps K (u.identicalWithin (d + 1)) (v.identicalWithin (e + 1)) := by
  intro s t b hs ht hb
  have hpart : ∀ {t c : Ty}, K t → c ∈ t.direct → K c := fun ht hc => hK.direct _ ht _ hc
  -- Types of different shapes are told apart at once, so only the pairs of one shape go on.
  cases s with
  | basic a => cases t <;> exact hb
  | named m => cases t <;> exact hb
  | pointer s =>
    cases t with
    | pointer t => exact h s t b (hpart hs List.mem_cons_self) (hpart ht List.mem_cons_self) hb
    | _ => exact hb
  | slice s =>
    cases t with
    | slice t => exact h s t b (hpart hs List.mem_cons_self) (hpart ht List.mem_cons_self) hb
    | _ => exact hb
  | array m s =>
    cases t with
    | array n t =>
      exact ite_keeps (h s t b (hpart hs List.mem_cons_self) (hpart ht List.mem_cons_self)) hb
    | _ => exact hb
  | map k s =>
    cases t with
    | map l t =>
      have hvalue : ∀ {k s : Ty}, s ∈ (Ty.map k s).direct := List.mem_cons_of_mem _ List.mem_cons_self
      exact andThen_keeps (fun c => h k l c (hpart hs List.mem_cons_self) (hpart ht List.mem_cons_self))
        (h s t b (hpart hs hvalue) (hpart ht hvalue)) hb
    | _ => exact hb
  | chan dir s =>
    cases t with
    | chan dir' t =>
      exact ite_keeps (h s t b (hpart hs List.mem_cons_self) (hpart ht List.mem_cons_self)) hb
    | _ => exact hb
  | func s =>
    cases t with
    | func t => exact h.signature (fun x => hpart hs) (fun y => hpart ht) hb
    | _ => exact hb
  | struct fs =>
    cases t with
    | struct gs =>
      refine ite_keeps (agreeItems_keeps fun f hf g hg c => ite_keeps ?_) hb
      exact h f.type g.type c (hpart hs (List.mem_map_of_mem hf)) (hpart ht (List.mem_map_of_mem hg))
    | _ => exact hb
  | interface i =>
    cases t with
    | interface j =>
      rw [identicalWithin] at hb ⊢
      rw [hsame i hs, hsame j ht]
      refine ite_keeps (agreeItems_keeps fun m hm n hn c => ite_keeps ?_) hb
      exact h.signature (hK.interfaceMethods hs m hm) (hK.interfaceMethods ht n hn)
    | _ => exact hb

end Encloses

/-! ## Deeper comparisons -/

variable {u : Universe}

theorem keeps_identicalWithin_succ (u : Universe) (d : Nat) :
    Keeps (fun _ => True) (u.identicalWithin d) (u.identicalWithin (d + 1)) := by
  induction d with
  | zero => exact fun _ _ _ _ _ hb => nomatch hb
  | succ d ih =>
    have hall : u.Encloses fun _ => True := ⟨fun _ _ _ _ => trivial, fun _ _ _ _ => trivial⟩
    exact hall.succ (fun _ _ => rfl) ih

/-- **A deeper comparison keeps every answer.** -/
theorem identicalWithin_mono {d e : Nat} (hde : d ≤ e) {s t : Ty} {b : Bool} (hb : u.identicalWithin d s t = some b) :
    u.identicalWithin e s t = some b := by
  induction e, hde using Nat.le_induction with
  | base => exact hb
  | succ e _ ih => exact u.keeps_identicalWithin_succ e s t b trivial trivial ih

/-- The types that are written in given types or in the universe. -/
def vocabulary (u : Universe) (args : List Ty) : List Ty := (args ++ u.defs.values.map (·.underlying)).flatMap Ty.parts

theorem mem_vocabulary {args : List Ty} {t : Ty} (h : t ∈ args) : t ∈ u.vocabulary args :=
  List.mem_flatMap.2 ⟨t, List.mem_append_left _ h, t.self_mem_parts⟩

theorem encloses_vocabulary (u : Universe) (args : List Ty) : u.Encloses (· ∈ u.vocabulary args) where
  direct t ht c hc := by
    obtain ⟨root, hroot, ht⟩ := List.mem_flatMap.1 ht
    exact List.mem_flatMap.2 ⟨root, hroot, Ty.mem_parts_of_direct ht hc⟩
  defined n d _ hd := by
    have hmem : d.underlying ∈ u.defs.values.map (·.underlying) :=
      List.mem_map_of_mem (Table.mem_values_iff.2 ⟨n, hd⟩)
    exact List.mem_flatMap.2 ⟨d.underlying, List.mem_append_right _ hmem, d.underlying.self_mem_parts⟩

theorem length_vocabulary_le (u : Universe) (args : List Ty) :
    (u.vocabulary args).length ≤ u.typeCount + Ty.sizeAll args := by
  have hdefs : ∀ ds : List Definition, Ty.sizeAll (ds.map (·.underlying)) ≤ Definition.sizeAll ds := by
    intro ds
    induction ds with
    | nil => exact Nat.zero_le _
    | cons d ds ih =>
      rw [List.map_cons, Ty.sizeAll, Definition.sizeAll, Definition.size]
      omega
  have h := hdefs u.defs.values
  rw [vocabulary, Ty.length_flatMap_parts fun t _ => t.length_parts, Ty.sizeAll_append, typeCount]
  omega

/-! ## Deep enough -/

/-- The pairs of these types that a comparison of some depth answers. -/
def answered (u : Universe) (args : List Ty) (d : Nat) : Finset (Ty × Ty) :=
  ((u.vocabulary args).toFinset ×ˢ (u.vocabulary args).toFinset).filter fun p => (u.identicalWithin d p.1 p.2).isSome

theorem mem_answered {args : List Ty} {d : Nat} {s t : Ty} :
    (s, t) ∈ u.answered args d ↔
      (s ∈ u.vocabulary args ∧ t ∈ u.vocabulary args) ∧ ∃ b, u.identicalWithin d s t = some b := by
  simp only [answered, Finset.mem_filter, Finset.mem_product, List.mem_toFinset, Option.isSome_iff_exists]

theorem card_answered_le (u : Universe) (args : List Ty) (d : Nat) :
    (u.answered args d).card ≤ (u.vocabulary args).length * (u.vocabulary args).length := by
  have hcard := (u.vocabulary args).toFinset_card_le
  calc (u.answered args d).card
      ≤ ((u.vocabulary args).toFinset ×ˢ (u.vocabulary args).toFinset).card := Finset.card_filter_le _ _
    _ = (u.vocabulary args).toFinset.card * (u.vocabulary args).toFinset.card := Finset.card_product _ _
    _ ≤ (u.vocabulary args).length * (u.vocabulary args).length := Nat.mul_le_mul hcard hcard

theorem answered_subset_succ (u : Universe) (args : List Ty) (d : Nat) :
    u.answered args d ⊆ u.answered args (d + 1) := by
  rintro ⟨s, t⟩ h
  obtain ⟨hmem, b, hb⟩ := mem_answered.1 h
  exact mem_answered.2 ⟨hmem, b, identicalWithin_mono (Nat.le_succ d) hb⟩

/-- **At some depth one more level answers no further pair.** -/
theorem exists_answered_succ_subset (u : Universe) (args : List Ty) :
    ∃ d ≤ (u.vocabulary args).length * (u.vocabulary args).length, u.answered args (d + 1) ⊆ u.answered args d := by
  by_contra hnone
  simp only [not_exists, not_and] at hnone
  -- Otherwise each level would answer one more pair, and there are not so many.
  have hgrows : ∀ d ≤ (u.vocabulary args).length * (u.vocabulary args).length + 1, d ≤ (u.answered args d).card := by
    intro d hd
    induction d with
    | zero => exact Nat.zero_le _
    | succ d ih =>
      have hlt : (u.answered args d).card < (u.answered args (d + 1)).card :=
        Finset.card_lt_card ⟨u.answered_subset_succ args d, hnone d (by omega)⟩
      have := ih (by omega)
      omega
  have := hgrows _ le_rfl
  have := u.card_answered_le args ((u.vocabulary args).length * (u.vocabulary args).length + 1)
  omega

/-- If one more level answers no further pair, no deeper level does. -/
theorem keeps_of_answered_succ_subset {args : List Ty} {d : Nat} (h : u.answered args (d + 1) ⊆ u.answered args d)
    (k : Nat) : Keeps (· ∈ u.vocabulary args) (u.identicalWithin (d + k)) (u.identicalWithin d) := by
  have hback : Keeps (· ∈ u.vocabulary args) (u.identicalWithin (d + 1)) (u.identicalWithin d) := by
    intro s t b hs ht hb
    obtain ⟨-, c, hc⟩ := mem_answered.1 (h (mem_answered.2 ⟨⟨hs, ht⟩, b, hb⟩))
    obtain rfl : c = b := Option.some.inj ((identicalWithin_mono (Nat.le_succ d) hc).symm.trans hb)
    exact hc
  induction k with
  | zero => exact fun _ _ _ _ _ hb => hb
  | succ k ih =>
    intro s t b hs ht hb
    exact hback s t b hs ht ((u.encloses_vocabulary args).succ (fun _ _ => rfl) ih s t b hs ht hb)

/-- **Comparing deeper than `comparisonDepth` answers nothing more.** -/
theorem keeps_comparisonDepth (u : Universe) (args : List Ty) (e : Nat) :
    Keeps (· ∈ u.vocabulary args) (u.identicalWithin e) (u.identicalWithin (u.comparisonDepth (Ty.sizeAll args))) := by
  obtain ⟨d, hd, hsettled⟩ := u.exists_answered_succ_subset args
  have hdeep : d ≤ u.comparisonDepth (Ty.sizeAll args) := by
    have hlength := u.length_vocabulary_le args
    have := Nat.mul_le_mul hlength hlength
    rw [comparisonDepth]
    omega
  intro s t b hs ht hb
  refine identicalWithin_mono hdeep (keeps_of_answered_succ_subset hsettled e s t b hs ht ?_)
  exact identicalWithin_mono (Nat.le_add_left e d) hb

/-- **Types are identical exactly if a comparison of some depth says so.** -/
theorem identical_iff {s t : Ty} : u.identical s t = true ↔ ∃ d, u.identicalWithin d s t = some true := by
  rw [identical, beq_iff_eq]
  constructor
  · exact fun h => ⟨_, h⟩
  · rintro ⟨d, h⟩
    have hsize : Ty.sizeAll [s, t] = s.size + t.size := by simp [Ty.sizeAll]
    rw [← hsize]
    exact u.keeps_comparisonDepth [s, t] d s t true (mem_vocabulary (by simp)) (mem_vocabulary (by simp)) h

/-- **Signatures are identical exactly if a comparison of some depth says so.** -/
theorem identicalSignatures_iff {s t : Signature} :
    u.identicalSignatures s t = true ↔ ∃ d, s.identicalBy (u.identicalWithin d) t = some true := by
  rw [identicalSignatures, beq_iff_eq]
  constructor
  · exact fun h => ⟨_, h⟩
  · rintro ⟨d, h⟩
    have hsize : Ty.sizeAll (s.types ++ t.types) = s.size + t.size := by
      rw [Ty.sizeAll_append, s.size_eq, t.size_eq]
    rw [← hsize]
    refine (u.keeps_comparisonDepth (s.types ++ t.types) d).signature (fun x hx => ?_) (fun y hy => ?_) h
    · exact mem_vocabulary (List.mem_append_left _ hx)
    · exact mem_vocabulary (List.mem_append_right _ hy)

end Universe

end TypeAtlas
