import Mathlib.Data.List.Basic
import TypeAtlas.Proofs.Extraction

/-!
# Answers depend on the names within reach

What a universe says about a type depends only on the names that the type mentions, on the names that their definitions
mention, and so on.  Two universes that define these names alike (`Universe.AgreesOn`) give the same answers: the type
behind a name (`Universe.AgreesOn.underlying_eq`), the methods of an interface
(`Universe.AgreesOn.interfaceMethods_eq`), and the package that is extracted from an outline
(`Universe.AgreesOn.extract_eq`).
-/

namespace TypeAtlas

/-! ## The names in a type -/

mutual

/-- The names that a type mentions. -/
def Ty.names : Ty → List TypeName
  | .basic _ => []
  | .named n => [n]
  | .pointer t => t.names
  | .slice t => t.names
  | .array _ t => t.names
  | .map k v => k.names ++ v.names
  | .chan _ t => t.names
  | .func s => s.names
  | .struct fs => Field.namesAll fs
  | .interface i => i.names

/-- The names that types mention. -/
def Ty.namesAll : List Ty → List TypeName
  | [] => []
  | t :: ts => t.names ++ Ty.namesAll ts

/-- The names that a signature mentions. -/
def Signature.names : Signature → List TypeName
  | ⟨params, results, _⟩ => Ty.namesAll params ++ Ty.namesAll results

/-- The names that fields mention. -/
def Field.namesAll : List Field → List TypeName
  | [] => []
  | ⟨_, t, _⟩ :: fs => t.names ++ Field.namesAll fs

/-- The names that interface methods mention. -/
def MethodSpec.namesAll : List MethodSpec → List TypeName
  | [] => []
  | ⟨_, s⟩ :: ms => s.names ++ MethodSpec.namesAll ms

/-- The names that an interface mentions. -/
def InterfaceType.names : InterfaceType → List TypeName
  | ⟨methods, embeds⟩ => MethodSpec.namesAll methods ++ Ty.namesAll embeds

end

/-- The names that a definition mentions, in the type and in the signatures of the methods. -/
def Definition.names (d : Definition) : List TypeName := d.underlying.names ++ d.methods.flatMap (·.signature.names)

theorem Ty.names_subset_namesAll {t : Ty} : ∀ {ts : List Ty}, t ∈ ts → t.names ⊆ Ty.namesAll ts
  | s :: ts, h => by
    rw [Ty.namesAll]
    rcases List.mem_cons.1 h with rfl | h
    · exact List.subset_append_left _ _
    · exact List.subset_append_of_subset_right _ (names_subset_namesAll h)

theorem Field.names_subset_namesAll {f : Field} : ∀ {fs : List Field}, f ∈ fs → f.type.names ⊆ Field.namesAll fs
  | ⟨name, t, embedded⟩ :: fs, h => by
    rw [Field.namesAll]
    rcases List.mem_cons.1 h with rfl | h
    · exact List.subset_append_left _ _
    · exact List.subset_append_of_subset_right _ (names_subset_namesAll h)

theorem Ty.names_deref (t : Ty) : t.deref.names = t.names := by
  cases t <;> rfl

/-- What an interface embeds mentions names of the interface. -/
theorem InterfaceType.names_embed_subset {i : InterfaceType} {t : Ty} (h : t ∈ i.embeds) : t.names ⊆ i.names := by
  obtain ⟨methods, embeds⟩ := i
  rw [InterfaceType.names]
  exact List.subset_append_of_subset_right _ (Ty.names_subset_namesAll h)

/-! ## Universes that agree -/

namespace Universe

/-- **The search for methods is told by the interfaces behind the types that it meets.** -/
theorem collect_congr {u v : Universe} {P : Ty → Prop} (hsame : ∀ t, P t → v.interfaceOf? t = u.interfaceOf? t)
    (hembeds : ∀ t i, P t → u.interfaceOf? t = some i → ∀ e ∈ i.embeds, P e) {pending : List Ty}
    {visited : List TypeName} {found : Table String Signature} (hp : ∀ t ∈ pending, P t) :
    v.collect pending visited found = u.collect pending visited found := by
  fun_induction u.collect pending visited found with
  | case1 visited found => rw [collect]
  | case2 visited found t rest hv ih =>
    rw [collect_of_seen hv]
    exact ih fun s hs => hp s (List.mem_cons_of_mem t hs)
  | case3 visited found t rest hv i hi ih =>
    have ht := hp t List.mem_cons_self
    rw [collect_of_interfaceOf? (Bool.eq_false_iff.2 hv) ((hsame t ht).trans hi)]
    refine ih fun s hs => ?_
    rcases List.mem_append.1 hs with hs | hs
    · exact hembeds t i ht hi s hs
    · exact hp s (List.mem_cons_of_mem t hs)
  | case4 visited found t rest hv hi ih =>
    have ht := hp t List.mem_cons_self
    rw [collect_of_interfaceOf?_eq_none (Bool.eq_false_iff.2 hv) ((hsame t ht).trans hi)]
    exact ih fun s hs => hp s (List.mem_cons_of_mem t hs)

/-- Whether two universes define the names of a set alike, and these definitions mention names of the set only. -/
structure AgreesOn (S : TypeName → Prop) (u v : Universe) : Prop where
  same : ∀ n, S n → v.lookup n = u.lookup n
  closed : ∀ n d, S n → u.lookup n = some d → ∀ m ∈ d.names, S m

namespace AgreesOn

variable {S : TypeName → Prop} {u v : Universe} (h : u.AgreesOn S v)
include h

/-- Following definitions stays within the set, and goes the same way. -/
theorem follow (links : Nat) {t : Ty} (ht : ∀ n ∈ t.names, S n) :
    v.follow links t = u.follow links t ∧ ∀ n ∈ (u.follow links t).names, S n := by
  induction links generalizing t with
  | zero => exact ⟨rfl, ht⟩
  | succ links ih =>
    cases t with
    | named n =>
      have hn : S n := ht n List.mem_cons_self
      simp only [Universe.follow, h.same n hn]
      cases hd : u.lookup n with
      | none => exact ⟨rfl, ht⟩
      | some d => exact ih fun m hm => h.closed n d hn hd m (List.mem_append_left _ hm)
    | _ => exact ⟨rfl, ht⟩

theorem underlying_eq {t : Ty} (ht : ∀ n ∈ t.names, S n) : v.underlying t = u.underlying t := (h.follow _ ht).1

theorem names_underlying {t : Ty} (ht : ∀ n ∈ t.names, S n) : ∀ n ∈ (u.underlying t).names, S n := (h.follow _ ht).2

theorem interfaceOf?_eq {t : Ty} (ht : ∀ n ∈ t.names, S n) : v.interfaceOf? t = u.interfaceOf? t := by
  rw [interfaceOf?, interfaceOf?, h.underlying_eq ht]

theorem names_interfaceOf? {t : Ty} (ht : ∀ n ∈ t.names, S n) {i : InterfaceType} (hi : u.interfaceOf? t = some i) :
    ∀ n ∈ i.names, S n := by
  have hnames := h.names_underlying ht
  rw [Ty.eq_interface_of_asInterface? hi] at hnames
  exact hnames

theorem declaredOn_eq {n : TypeName} (hn : S n) : v.declaredOn n = u.declaredOn n := by
  rw [declaredOn, declaredOn, h.same n hn]

theorem methodsOf_eq {t : Ty} (ht : ∀ n ∈ t.names, S n) : v.methodsOf t = u.methodsOf t := by
  cases t with
  | named n => exact h.declaredOn_eq (ht n List.mem_cons_self)
  | _ => rfl

/-- The search for methods meets the same types in both universes. -/
theorem collect_eq {pending : List Ty} {visited : List TypeName} {found : Table String Signature}
    (hp : ∀ t ∈ pending, ∀ n ∈ t.names, S n) : v.collect pending visited found = u.collect pending visited found :=
  collect_congr (fun _ ht => h.interfaceOf?_eq ht)
    (fun _ _ ht hi _ he n hn => h.names_interfaceOf? ht hi n (InterfaceType.names_embed_subset he hn)) hp

theorem interfaceMethods_eq {i : InterfaceType} (hi : ∀ n ∈ i.names, S n) :
    v.interfaceMethods i = u.interfaceMethods i :=
  h.collect_eq fun _ ht n hn => hi n (InterfaceType.names_embed_subset ht hn)

/-! ## Extraction -/

theorem embed_eq (name : String) {t : Ty} (ht : ∀ n ∈ t.names, S n) : Embed.ofType v name t = Embed.ofType u name t := by
  rw [Embed.ofType, Embed.ofType, h.underlying_eq (by rwa [Ty.names_deref])]

theorem aggregate_eq (package : PackageRef) {o : Object} (ho : ∀ n ∈ o.type.names, S n) :
    Aggregate.ofObject? v package o = Aggregate.ofObject? u package o := by
  unfold Aggregate.ofObject?
  rw [h.underlying_eq ho, h.methodsOf_eq ho]
  split
  case h_1 fs _ hu =>
    have hfields : ∀ n ∈ Field.namesAll fs, S n := by
      have hnames := h.names_underlying ho
      rwa [hu] at hnames
    have hembeds : (fs.filter (·.embedded)).map (fun f => Embed.ofType v f.name f.type) =
        (fs.filter (·.embedded)).map fun f => Embed.ofType u f.name f.type := by
      refine List.map_congr_left fun f hf => h.embed_eq _ fun n hn => hfields n ?_
      exact Field.names_subset_namesAll (List.mem_filter.1 hf).1 hn
    rw [hembeds]
  case h_2 => rfl

theorem interface_eq (package : PackageRef) {o : Object} (ho : ∀ n ∈ o.type.names, S n) :
    Interface.ofObject? v package o = Interface.ofObject? u package o := by
  unfold Interface.ofObject?
  rw [h.underlying_eq ho]
  split
  case h_1 i _ hu =>
    have hi : ∀ n ∈ i.names, S n := by
      have hnames := h.names_underlying ho
      rwa [hu] at hnames
    have hembeds : i.embeds.map (fun t => Embed.ofType v (Embed.nameIn t) t) =
        i.embeds.map fun t => Embed.ofType u (Embed.nameIn t) t :=
      List.map_congr_left fun t ht => h.embed_eq _ fun n hn => hi n (InterfaceType.names_embed_subset ht hn)
    rw [hembeds, h.interfaceMethods_eq hi]
  case h_2 => rfl

theorem namedType_eq (package : PackageRef) {o : Object} (ho : ∀ n ∈ o.type.names, S n) :
    NamedType.ofObject? v package o = NamedType.ofObject? u package o := by
  unfold NamedType.ofObject?
  rw [h.underlying_eq ho, h.methodsOf_eq ho]

/-- An object that is a defined type of the set is the same entity in both universes; an alias is taken as written. -/
theorem entity_eq (package : PackageRef) {o : Object} (ho : o.kind = .definedType → ∀ n ∈ o.type.names, S n) :
    Entity.ofObject? v package o = Entity.ofObject? u package o := by
  cases hk : o.kind with
  | definedType =>
    have ho := ho hk
    unfold Entity.ofObject?
    rw [h.aggregate_eq package ho, h.interface_eq package ho, h.namedType_eq package ho]
  | _ => simp [Entity.ofObject?, Aggregate.ofObject?, Interface.ofObject?, NamedType.ofObject?, hk]

/-- **A package whose defined types belong to the set is extracted alike in both universes.** -/
theorem extract_eq {outline : PackageOutline}
    (ho : ∀ o, outline.scope.binds o = true → o.kind = .definedType → ∀ n ∈ o.type.names, S n) :
    Package.extract outline v = Package.extract outline u := by
  have hentities : outline.entities v = outline.entities u :=
    List.filterMap_congr fun o hmem => h.entity_eq _ (ho o (PackageOutline.mem_topLevel.1 hmem).2)
  exact Package.extract_congr rfl rfl hentities

end AgreesOn

end Universe

end TypeAtlas
