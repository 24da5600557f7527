import Mathlib.Data.List.Find
import TypeAtlas.Proofs.ComparisonDepth
import TypeAtlas.Proofs.SearchExtent
import TypeAtlas.Proofs.SelectorRule
import TypeAtlas.Universe.Satisfaction

/-!
# Every question to a universe is local

Two universes that agree on a closed set of names (`Universe.AgreesOn`) give the same answers to every question about
types with names in the set: what underlies a type, the methods of an interface, the method set of a type, whether two
types or signatures are identical, and which method a type lacks (`Universe.AnswersAlike`).

Comparing types is the difficult question, because it stops at a depth that the whole universe tells.  The universes may
differ in size, and so in this depth.  But an answer is the same at every depth at which there is one, and a comparison
among types of the set sees the same at every depth in both universes (`AgreesOn.identicalWithin_eq`).
-/

namespace TypeAtlas

/-! ## The names in what a type is made of -/

theorem Ty.namesAll_eq (ts : List Ty) : Ty.namesAll ts = ts.flatMap Ty.names := by
  induction ts with
  | nil => rw [Ty.namesAll, List.flatMap_nil]
  | cons t ts ih => rw [Ty.namesAll, List.flatMap_cons, ih]

/-- The names in a signature are those in its types. -/
theorem Signature.mem_names {s : Signature} {n : TypeName} : n ∈ s.names ↔ ∃ t ∈ s.types, n ∈ t.names := by
  obtain ⟨params, results, variadic⟩ := s
  rw [Signature.names, Ty.namesAll_eq, Ty.namesAll_eq, ← List.flatMap_append, List.mem_flatMap]
  rfl

theorem MethodSpec.names_subset_namesAll {m : MethodSpec} :
    ∀ {ms : List MethodSpec}, m ∈ ms → m.signature.names ⊆ MethodSpec.namesAll ms
  | ⟨name, s⟩ :: ms, h => by
    rw [MethodSpec.namesAll]
    rcases List.mem_cons.1 h with rfl | h
    · exact List.subset_append_left _ _
    · exact List.subset_append_of_subset_right _ (names_subset_namesAll h)

theorem Ty.names_subset_of_direct {c t : Ty} (h : c ∈ t.direct) : c.names ⊆ t.names := by
  cases t with
  | basic kind => cases h
  | named name => cases h
  | map k v =>
    rw [Ty.names]
    rcases List.mem_cons.1 h with rfl | h
    · exact List.subset_append_left _ _
    · rw [List.mem_singleton.1 h]
      exact List.subset_append_right _ _
  | func s => exact fun n hn => Signature.mem_names.2 ⟨c, h, hn⟩
  | struct fs =>
    obtain ⟨f, hf, rfl⟩ := List.mem_map.1 h
    exact Field.names_subset_namesAll hf
  | interface i =>
    rcases List.mem_append.1 h with h | h
    · obtain ⟨m, hm, hc⟩ := List.mem_flatMap.1 h
      obtain ⟨methods, embeds⟩ := i
      rw [Ty.names, InterfaceType.names]
      refine List.subset_append_of_subset_left _ fun n hn => ?_
      exact MethodSpec.names_subset_namesAll hm (Signature.mem_names.2 ⟨c, hc, hn⟩)
    · exact InterfaceType.names_embed_subset h
  | _ =>
    rw [List.mem_singleton.1 h]
    exact fun _ hn => hn

/-! ## What a name selects -/

/-- What a name selects at a depth was found there. -/
theorem Level.exists_candidate_of_settle {l : Level} {name : String} {s : Selection} (h : l.settle name = some s) :
    ∃ c ∈ l.candidates, c.selection = s := by
  unfold settle at h
  split at h
  · cases h
  · split at h
    case h_1 c hc =>
      have hmem : c ∈ l.candidates.filter fun c => c.selection.name == name := by
        rw [hc]
        exact List.mem_cons_self
      split at h
      · exact ⟨c, (List.mem_filter.1 hmem).1, Option.some.inj h⟩
      · cases h
    case h_2 => cases h

namespace Universe.AgreesOn

variable {S : TypeName → Prop} {u v : Universe} (h : u.AgreesOn S v)
include h

theorem symm : v.AgreesOn S u where
  same n hn := (h.same n hn).symm
  closed n d hn hd := h.closed n d hn (h.same n hn ▸ hd)

/-! ## Identity -/

/-- A comparison of types that mention names of the set meets no other types. -/
theorem encloses : u.Encloses fun t => ∀ n ∈ t.names, S n where
  direct _ ht _ hc n hn := ht n (Ty.names_subset_of_direct hc hn)
  defined n d hn hd m hm := h.closed n d (hn n List.mem_cons_self) hd m (List.mem_append_left _ hm)

/-- A comparison of any depth finds the same answers. -/
theorem keeps (d : Nat) : Keeps (fun t => ∀ n ∈ t.names, S n) (u.identicalWithin d) (v.identicalWithin d) := by
  induction d with
  | zero => exact fun _ _ _ _ _ hb => nomatch hb
  | succ d ih => exact h.encloses.succ (fun i hi => h.interfaceMethods_eq hi) ih

theorem identicalWithin_eq (d : Nat) {s t : Ty} (hs : ∀ n ∈ s.names, S n) (ht : ∀ n ∈ t.names, S n) :
    v.identicalWithin d s t = u.identicalWithin d s t :=
  Option.ext fun b => ⟨h.symm.keeps d s t b hs ht, h.keeps d s t b hs ht⟩

theorem identicalBy_eq (d : Nat) {s t : Signature} (hs : ∀ n ∈ s.names, S n) (ht : ∀ n ∈ t.names, S n) :
    s.identicalBy (v.identicalWithin d) t = s.identicalBy (u.identicalWithin d) t := by
  have hs : ∀ x ∈ s.types, ∀ n ∈ x.names, S n := fun x hx n hn => hs n (Signature.mem_names.2 ⟨x, hx, hn⟩)
  have ht : ∀ y ∈ t.types, ∀ n ∈ y.names, S n := fun y hy n hn => ht n (Signature.mem_names.2 ⟨y, hy, hn⟩)
  exact Option.ext fun b => ⟨(h.symm.keeps d).signature hs ht, (h.keeps d).signature hs ht⟩

theorem identical_eq {s t : Ty} (hs : ∀ n ∈ s.names, S n) (ht : ∀ n ∈ t.names, S n) :
    v.identical s t = u.identical s t := by
  rw [Bool.eq_iff_iff, identical_iff, identical_iff]
  exact exists_congr fun d => by rw [h.identicalWithin_eq d hs ht]

theorem identicalSignatures_eq {s t : Signature} (hs : ∀ n ∈ s.names, S n) (ht : ∀ n ∈ t.names, S n) :
    v.identicalSignatures s t = u.identicalSignatures s t := by
  rw [Bool.eq_iff_iff, identicalSignatures_iff, identicalSignatures_iff]
  exact exists_congr fun d => by rw [h.identicalBy_eq d hs ht]

/-! ## Method sets -/

theorem names_interfaceMethods {i : InterfaceType} (hi : ∀ n ∈ i.names, S n) {m : String × Signature}
    (hm : m ∈ (u.interfaceMethods i).entries) : ∀ n ∈ m.2.names, S n := by
  intro n hn
  obtain ⟨t, ht, hn⟩ := Signature.mem_names.1 hn
  exact h.encloses.interfaceMethods hi m hm t ht n hn

/-- The search for methods takes the same from both universes. -/
theorem resembles : u.Resembles (fun t => ∀ n ∈ t.names, S n) v where
  declaredOn n hn := h.declaredOn_eq (hn n List.mem_cons_self)
  interfaceOf? _ ht := h.interfaceOf?_eq ht
  asStruct? t ht := by rw [h.underlying_eq ht]
  embeds _ _ ht hi _ he n hn := h.names_interfaceOf? ht hi n (InterfaceType.names_embed_subset he hn)
  fields t fs ht hs f hf _ n hn := by
    have hnames := h.names_underlying ht
    rw [Ty.eq_struct_of_asStruct? hs] at hnames
    rw [Ty.names_deref] at hn
    exact hnames n (Field.names_subset_namesAll hf hn)

theorem methodSet_eq {t : Ty} (ht : ∀ n ∈ t.names, S n) : v.methodSet t = u.methodSet t := by
  rw [← t.names_deref] at ht
  exact h.resembles.methodSet_eq ht

/-- The methods that are found have signatures that mention names of the set. -/
theorem names_candidates {e : ReachedType} (he : ∀ n ∈ e.type.names, S n) (depth : Nat) :
    ∀ c ∈ e.declared u depth ++ e.required u depth, ∀ n ∈ c.selection.signature.names, S n := by
  intro c hc n hn
  rcases List.mem_append.1 hc with hc | hc
  · unfold ReachedType.declared at hc
    split at hc
    case h_1 m hm =>
      rw [Ty.eq_named_of_asNamed? hm] at he
      obtain ⟨d, hd, rfl⟩ := List.mem_map.1 hc
      unfold declaredOn at hd
      split at hd
      case h_1 x hx =>
        exact h.closed m x (he m List.mem_cons_self) hx n (List.mem_append_right _ (List.mem_flatMap.2 ⟨d, hd, hn⟩))
      case h_2 => cases hd
    case h_2 => cases hc
  · unfold ReachedType.required at hc
    split at hc
    case h_1 i hi =>
      obtain ⟨m, hm, rfl⟩ := List.mem_map.1 hc
      exact h.names_interfaceMethods (h.names_interfaceOf? he hi) hm n hn
    case h_2 => cases hc

/-- The search selects methods with signatures that mention names of the set. -/
theorem names_search {depth : Nat} {seen : List TypeName} {current : List ReachedType}
    {settled : Table String (Option Selection)} (hc : ∀ e ∈ current, ∀ n ∈ e.type.names, S n)
    (hs : ∀ name s, settled.get? name = some (some s) → ∀ n ∈ s.signature.names, S n) {name : String} {s : Selection}
    (hsel : (u.search depth seen current settled).get? name = some (some s)) : ∀ n ∈ s.signature.names, S n := by
  fun_induction u.search depth seen current settled with
  | case1 depth seen settled => exact hs name s hsel
  | case2 depth seen settled e es fresh ih =>
    have hfresh : ∀ e ∈ fresh, ∀ n ∈ e.type.names, S n := fun d hd => hc d (List.mem_filter.1 hd).1
    refine ih (fun d hd => h.resembles.mem_advance hfresh hd) (fun m r hr => ?_) hsel
    rw [Level.get?_addTo, Option.or_eq_some_iff] at hr
    rcases hr with hr | ⟨-, hr⟩
    · exact hs m r hr
    · split at hr
      case isTrue =>
        obtain ⟨c, hcand, rfl⟩ := Level.exists_candidate_of_settle (Option.some.inj hr)
        obtain ⟨d, hd, hcand⟩ := List.mem_flatMap.1 hcand
        exact h.names_candidates (hfresh d hd) depth c hcand
      case isFalse => cases hr

theorem names_methodSet {t : Ty} (ht : ∀ n ∈ t.names, S n) {name : String} {s : Selection}
    (hs : (u.methodSet t).get? name = some s) : ∀ n ∈ s.signature.names, S n := by
  rw [← t.names_deref] at ht
  unfold methodSet at hs
  split at hs
  · cases hs
  · rw [Table.get?_filterMap, Option.bind_eq_some_iff] at hs
    obtain ⟨r, hr, hs⟩ := hs
    obtain rfl : r = some s := hs
    refine h.names_search (fun e he => ?_) (fun _ _ hnone => by simp at hnone) hr
    rwa [List.mem_singleton.1 he]

/-! ## Satisfaction -/

theorem missingMethod_eq {t : Ty} (ht : ∀ n ∈ t.names, S n) {i : InterfaceType} (hi : ∀ n ∈ i.names, S n) :
    v.missingMethod t i = u.missingMethod t i := by
  unfold missingMethod
  rw [h.methodSet_eq ht, h.interfaceMethods_eq hi]
  refine congrArg (Option.map Prod.fst) (List.find?_congr fun m hm => congrArg (!·) ?_)
  unfold provides
  split
  case h_1 s hs => exact h.identicalSignatures_eq (h.names_methodSet ht hs) (h.names_interfaceMethods hi hm)
  case h_2 => rfl

end Universe.AgreesOn

namespace Universe

/-- Whether two universes answer every question alike about types, interfaces and signatures that mention only names of a
set.  Comparisons agree at every depth, so one that does not end in the one universe does not end in the other. -/
structure AnswersAlike (S : TypeName → Prop) (u v : Universe) : Prop where
  underlying : ∀ t : Ty, (∀ n ∈ t.names, S n) → v.underlying t = u.underlying t
  interfaceMethods : ∀ i : InterfaceType, (∀ n ∈ i.names, S n) → v.interfaceMethods i = u.interfaceMethods i
  methodSet : ∀ t : Ty, (∀ n ∈ t.names, S n) → v.methodSet t = u.methodSet t
  missingMethod : ∀ (t : Ty) (i : InterfaceType), (∀ n ∈ t.names, S n) → (∀ n ∈ i.names, S n) →
    v.missingMethod t i = u.missingMethod t i
  identical : ∀ s t : Ty, (∀ n ∈ s.names, S n) → (∀ n ∈ t.names, S n) →
    v.identical s t = u.identical s t ∧ ∀ depth, v.identicalWithin depth s t = u.identicalWithin depth s t
  identicalSignatures : ∀ s t : Signature, (∀ n ∈ s.names, S n) → (∀ n ∈ t.names, S n) →
    v.identicalSignatures s t = u.identicalSignatures s t ∧
      ∀ depth, s.identicalBy (v.identicalWithin depth) t = s.identicalBy (u.identicalWithin depth) t

/-- **Questions to a universe are local.**  Let two universes define the names of a set alike, and let these definitions
mention names of the set only.  Then they answer every question alike about what mentions names of the set only, whatever
else they define. -/
theorem AgreesOn.answersAlike {S : TypeName → Prop} {u v : Universe} (h : u.AgreesOn S v) : AnswersAlike S u v where
  underlying _ ht := h.underlying_eq ht
  interfaceMethods _ hi := h.interfaceMethods_eq hi
  methodSet _ ht := h.methodSet_eq ht
  missingMethod _ _ ht hi := h.missingMethod_eq ht hi
  identical _ _ hs ht := ⟨h.identical_eq hs ht, fun depth => h.identicalWithin_eq depth hs ht⟩
  identicalSignatures _ _ hs ht := ⟨h.identicalSignatures_eq hs ht, fun depth => h.identicalBy_eq depth hs ht⟩

/-- A struct with a method whose result is a type of its package. -/
def boxes : Universe :=
  ((initial.define ⟨"p", "Item"⟩ (.basic .int)).define ⟨"p", "Box"⟩ (.struct [])).addMethod ⟨"p", "Box"⟩
    ⟨"Get", ⟨[], [.named ⟨"p", "Item"⟩], false⟩, false, .unknown⟩

/-- The same, and a struct of another package that embeds the first one. -/
def boxesAndCrates : Universe := boxes.define ⟨"q", "Crate"⟩ (.struct [⟨"Box", .named ⟨"p", "Box"⟩, true⟩])

/-- An interface that asks for the method, and for one more. -/
def container : InterfaceType :=
  ⟨[⟨"Get", ⟨[], [.named ⟨"p", "Item"⟩], false⟩⟩, ⟨"Put", ⟨[.named ⟨"p", "Item"⟩], [], false⟩⟩], []⟩

/-- The other package makes no difference to what is asked about `Box`: it has `Get` and still lacks `Put`. -/
theorem boxesAndCrates_answersAlike :
    boxes.AgreesOn (fun n => n.package = "p") boxesAndCrates ∧ boxesAndCrates.size = boxes.size + 1 ∧
      boxes.missingMethod (.named ⟨"p", "Box"⟩) container = some "Put" ∧
      boxesAndCrates.missingMethod (.named ⟨"p", "Box"⟩) container = some "Put" := by
  have hagrees : boxes.AgreesOn (fun n => n.package = "p") boxesAndCrates := by
    refine ⟨fun n hn => ?_, fun n d _ hd => ?_⟩
    · rw [boxesAndCrates, lookup_define, if_neg fun hq => ?_]
      rw [hq] at hn
      revert hn
      decide
    · have hall : ∀ e ∈ boxes.defs.entries, ∀ m ∈ e.2.names, m.package = "p" := by decide +kernel
      exact hall (n, d) (Table.mem_entries_iff.2 hd)
  have hmissing : boxes.missingMethod (.named ⟨"p", "Box"⟩) container = some "Put" := by
    have hasked : boxes.interfaceMethods container = .ofList [("Get", ⟨[], [.named ⟨"p", "Item"⟩], false⟩),
        ("Put", ⟨[.named ⟨"p", "Item"⟩], [], false⟩)] := by
      rw [interfaceMethods, container, collect]
      rfl
    -- One round of the search finds the method.
    have hdone : ReachedType.advance boxes (ReachedType.fresh [] [⟨.named ⟨"p", "Box"⟩, false, false⟩]) = [] := by
      decide +kernel
    rw [missingMethod, hasked, methodSet, if_neg (by decide +kernel), search]
    dsimp only [Ty.deref, Ty.isPointer]
    rw [hdone, search]
    decide +kernel
  refine ⟨hagrees, by decide +kernel, hmissing, ?_⟩
  rw [hagrees.answersAlike.missingMethod _ _ (by decide) (by decide), hmissing]

end Universe

end TypeAtlas
