import TypeAtlas.Proofs.CatalogAgreement
import TypeAtlas.Proofs.PackageLists

/-!
# What an extracted package holds

The entities of an extracted package are the types that the outline declares at the top level
(`PackageOutline.DeclaresType`): the objects that the scope binds, that occur among the definitions and that are types.
Each has exactly one entity, which is of the kind that the object asks for (`Entity.Represents`), and there are no others
(`Package.ExtractedFrom`).

The package says nothing of the order in which the definitions came, nor of how often.
-/

namespace TypeAtlas

/-! ## The kind of an entity -/

namespace Entity

/-- Whether an entity is what an object is in a universe.  An alias is an alias whatever it stands for, and the kind of a
defined type is told by the type behind it. -/
def Represents (u : Universe) (o : Object) : Entity → Prop
  | aggregate a => o.isAlias = false ∧ a.type = o.type ∧ ∃ fs, u.underlying o.type = .struct fs
  | interface i => o.isAlias = false ∧ i.type = o.type ∧ u.underlying o.type = .interface i.underlying
  | namedType n => o.isAlias = false ∧ n.type = o.type ∧ u.underlying o.type = n.underlying ∧
      (∀ fs, n.underlying ≠ .struct fs) ∧ ∀ i, n.underlying ≠ .interface i
  | typeAlias a => o.isAlias = true ∧ a.target = o.type

/-- **An object becomes an entity of its kind.** -/
theorem represents_of_ofObject? {u : Universe} {package : PackageRef} {o : Object} {e : Entity}
    (h : ofObject? u package o = some e) : e.Represents u o := by
  have hdefined : o.kind = .definedType → o.isAlias = false := fun hk => by rw [Object.isAlias, hk]; rfl
  rcases ofObject?_eq_some h with ⟨a, ha, rfl⟩ | ⟨a, ha, rfl⟩ | ⟨i, hi, rfl⟩ | ⟨n, hn, rfl⟩
  · exact (TypeAlias.ofObject?_eq_some ha).2
  · obtain ⟨hk, htype, -, -, fs, hu, -⟩ := Aggregate.ofObject?_eq_some ha
    exact ⟨hdefined hk, htype, fs, htype ▸ hu⟩
  · obtain ⟨hu, -, -, hk, htype⟩ := Interface.ofObject?_eq_some hi
    exact ⟨hdefined hk, htype, htype ▸ hu⟩
  · obtain ⟨-, hk, htype, hu, hother⟩ := NamedType.ofObject?_eq_some hn
    exact ⟨hdefined hk, htype, htype ▸ hu, hother⟩

end Entity

/-! ## The entities of a package -/

/-- The types that a package declares at the top level. -/
structure PackageOutline.DeclaresType (outline : PackageOutline) (o : Object) : Prop where
  mem : o ∈ outline.defs
  bound : outline.scope.lookup o.name = some o
  isTypeName : o.isTypeName = true

namespace Package

variable {outline : PackageOutline} {u : Universe}

/-- The entities of all kinds. -/
def entities (p : Package) : List Entity :=
  p.aggregates.map .aggregate ++ p.interfaces.map .interface ++ p.namedTypes.map .namedType ++
    p.typeAliases.map .typeAlias

/-- **Sorting the entities by kind loses nothing and repeats nothing.** -/
theorem entities_perm (outline : PackageOutline) (u : Universe) :
    (extract outline u).entities.Perm (outline.entities u) := by
  show (((outline.entities u).filterMap Entity.asAggregate?).map Entity.aggregate ++
    ((outline.entities u).filterMap Entity.asInterface?).map Entity.interface ++
    ((outline.entities u).filterMap Entity.asNamedType?).map Entity.namedType ++
    ((outline.entities u).filterMap Entity.asTypeAlias?).map Entity.typeAlias).Perm (outline.entities u)
  induction outline.entities u with
  | nil => exact .nil
  | cons e es ih =>
    -- The entity moves to the front from the place that its kind has.
    refine .trans ?_ (ih.cons e)
    cases e with
    | aggregate a => exact .refl _
    | interface i => exact (List.perm_middle.append_right _).append_right _
    | namedType n => exact List.perm_middle.append_right _
    | typeAlias a => exact List.perm_middle

theorem mem_entities_extract_iff {e : Entity} :
    e ∈ (extract outline u).entities ↔
      ∃ o, o ∈ outline.defs ∧ outline.scope.binds o = true ∧ Entity.ofObject? u outline.ref o = some e := by
  rw [(entities_perm outline u).mem_iff, PackageOutline.entities, List.mem_filterMap]
  simp only [PackageOutline.mem_topLevel, and_assoc]

/-- Whether a package holds what an outline describes, its types seen in a universe. -/
structure ExtractedFrom (p : Package) (outline : PackageOutline) (u : Universe) : Prop where
  ref : p.ref = outline.ref
  /-- The imports are in strictly increasing order of their paths. -/
  increasing_imports : p.imports.Pairwise fun q r => q.path < r.path
  /-- Of the imports of one path, the first one counts. -/
  mem_imports_iff : ∀ q, q ∈ p.imports ↔ outline.imports.find? (fun r => decide (r.path = q.path)) = some q
  increasing_aggregates : p.aggregates.Pairwise fun a b => a.name < b.name
  increasing_interfaces : p.interfaces.Pairwise fun i j => i.name < j.name
  increasing_namedTypes : p.namedTypes.Pairwise fun n m => n.name < m.name
  increasing_typeAliases : p.typeAliases.Pairwise fun a b => a.name < b.name
  /-- No two entities have one name, of whatever kinds they are. -/
  nodup_names : (p.entities.map fun e => e.key.name).Nodup
  /-- Each type that the outline declares has an entity, of the kind that the type asks for. -/
  exists_entity : ∀ o, outline.DeclaresType o →
    ∃ e ∈ p.entities, e.key = ⟨outline.ref.path, o.name⟩ ∧ e.Represents u o
  /-- There are no other entities. -/
  exists_object : ∀ e ∈ p.entities, ∃ o, outline.DeclaresType o ∧ e.key = ⟨outline.ref.path, o.name⟩ ∧ e.Represents u o

theorem extractedFrom (outline : PackageOutline) (u : Universe) : (extract outline u).ExtractedFrom outline u where
  ref := rfl
  increasing_imports := PackageRef.pairwise_sortUnique outline.imports
  mem_imports_iff q := PackageRef.mem_sortUnique_iff
  increasing_aggregates := PackageOutline.increasing_filterMap_entities Entity.key_of_asAggregate? outline u
  increasing_interfaces := PackageOutline.increasing_filterMap_entities Entity.key_of_asInterface? outline u
  increasing_namedTypes := PackageOutline.increasing_filterMap_entities Entity.key_of_asNamedType? outline u
  increasing_typeAliases := PackageOutline.increasing_filterMap_entities Entity.key_of_asTypeAlias? outline u
  nodup_names := by
    rw [((entities_perm outline u).map _).nodup_iff]
    exact List.pairwise_map.2 ((outline.increasing_entities u).imp Std.ne_of_lt)
  exists_entity := by
    intro o ho
    have hbinds : outline.scope.binds o = true := by rw [Scope.binds, ho.bound, beq_self_eq_true]
    obtain ⟨e, he⟩ : ∃ e, Entity.ofObject? u outline.ref o = some e :=
      Option.isSome_iff_exists.1 (by rw [Entity.isSome_ofObject?, ho.isTypeName])
    exact ⟨e, mem_entities_extract_iff.2 ⟨o, ho.mem, hbinds, he⟩, Entity.key_of_ofObject? he,
      Entity.represents_of_ofObject? he⟩
  exists_object := by
    intro e he
    obtain ⟨o, hmem, hbinds, he⟩ := mem_entities_extract_iff.1 he
    have hdeclares : outline.DeclaresType o :=
      ⟨hmem, eq_of_beq hbinds, by rw [← Entity.isSome_ofObject? u outline.ref, he]; rfl⟩
    exact ⟨o, hdeclares, Entity.key_of_ofObject? he, Entity.represents_of_ofObject? he⟩

/-- **An extracted package holds one entity for each type that its outline declares**, of the kind that the type asks
for, and no others.  It is the same package if the definitions come in another order, or more than once. -/
theorem extract_declaredTypes (outline : PackageOutline) (u : Universe) :
    (extract outline u).ExtractedFrom outline u ∧
      ∀ defs, (∀ o, o ∈ defs ↔ o ∈ outline.defs) → extract { outline with defs } u = extract outline u := by
  refine ⟨extractedFrom outline u, fun defs hdefs => ?_⟩
  refine extract_congr rfl rfl (PackageOutline.entities_congr rfl fun o _ => ?_)
  exact and_congr_left fun _ => hdefs o

/-- Animals: a struct, an interface, a number, another name for the struct, and a function.  In its body the function
declares a number `Dog` and a type `Cage` of its own.  Definitions come repeatedly, and so do imports. -/
def zoo : PackageOutline :=
  let ref : PackageRef := ⟨"zoo", "zoo"⟩
  let dog := Object.defined "Dog" .unknown ref
  let speaker := Object.defined "Speaker" .unknown ref
  let age := Object.defined "Age" .unknown ref
  let pet : Object := ⟨"Pet", .unknown, ref, .aliasType, .named ⟨"zoo", "Dog"⟩⟩
  let feed : Object := ⟨"Feed", .unknown, ref, .func, .func ⟨[], [], false⟩⟩
  { ref
    imports := [⟨"time", "time"⟩, ⟨"fmt", "fmt"⟩, ⟨"time", "clock"⟩]
    defs := [speaker, dog, ⟨"Dog", .unknown, ref, .definedType, .basic .int⟩, pet, Object.defined "Cage" .unknown ref,
      feed, age, dog]
    scope := [dog, speaker, age, pet, feed].foldl Scope.insert .empty }

/-- The types of the animals. -/
def animals : Universe :=
  ((Universe.initial.define ⟨"zoo", "Dog"⟩ (.struct [])).define ⟨"zoo", "Speaker"⟩
    (.interface ⟨[⟨"Speak", ⟨[], [], false⟩⟩], []⟩)).define ⟨"zoo", "Age"⟩ (.basic .int)

/-- `Dog` is an aggregate, and `Cage` is nothing.  Of the imports of one path the first one counts, and the package is
the same if its definitions are turned around and repeated. -/
theorem zoo_declaredTypes :
    (∃ a, .aggregate a ∈ (extract zoo animals).entities ∧ a.type = .named ⟨"zoo", "Dog"⟩) ∧
      (∀ e ∈ (extract zoo animals).entities, e.key.name ≠ "Cage") ∧
      ⟨"time", "time"⟩ ∈ (extract zoo animals).imports ∧ ⟨"time", "clock"⟩ ∉ (extract zoo animals).imports ∧
      extract { zoo with defs := zoo.defs ++ zoo.defs.reverse } animals = extract zoo animals := by
  obtain ⟨hfrom, hdefs⟩ := extract_declaredTypes zoo animals
  refine ⟨?_, ?_, (hfrom.mem_imports_iff _).2 rfl, mt (hfrom.mem_imports_iff _).1 (by decide), hdefs _ fun o => ?_⟩
  · obtain ⟨e, he, -, hrep⟩ := hfrom.exists_entity (.defined "Dog" .unknown ⟨"zoo", "zoo"⟩)
      ⟨List.mem_cons_of_mem _ List.mem_cons_self, rfl, rfl⟩
    cases e with
    | aggregate a => exact ⟨a, he, hrep.2.1⟩
    | interface i => cases hrep.2.2
    | namedType n => exact absurd hrep.2.2.1.symm (hrep.2.2.2.1 [])
    | typeAlias a => cases hrep.1
  · intro e he hname
    obtain ⟨o, ho, hkey, -⟩ := hfrom.exists_object e he
    have hbound := ho.bound
    rw [hkey] at hname
    rw [show o.name = "Cage" from hname] at hbound
    cases hbound
  · rw [List.mem_append, List.mem_reverse, or_self]

end Package

end TypeAtlas
