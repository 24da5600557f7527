import Mathlib.Data.List.Nodup
import TypeAtlas.Proofs.Lifecycle

/-!
# Packages and catalogs agree

A registry knows its entities twice: its packages list them, and its catalogs hold them by key.  Whatever is done with a
registry, and whether it succeeds or not, the two agree (`Registry.Mirrored`): a catalog holds under a key what the
package of the key lists under its name, and it holds as many entities as the packages list together; a key is in one
catalog at most; and no entity ever takes the place of another.

Extraction is the reason.  The entities of a package go by different names, and each is of one kind, so that a name leads
to one entity or none (`PackageOutline.entity?`).  The rest is that a path is registered once, and that what is no package
is never registered (`Registry.Stocked`).
-/

namespace TypeAtlas

/-! ## The entities of a package go by different names -/

namespace PackageOutline

variable {outline : PackageOutline} {u : Universe}

/-- The entity of a name. -/
def entity? (outline : PackageOutline) (u : Universe) (name : String) : Option Entity :=
  (outline.topLevel.get? name).bind (Entity.ofObject? u outline.ref)

/-- An entity has the path of the package and the name that leads to it. -/
theorem key_of_entity? {name : String} {e : Entity} (h : outline.entity? u name = some e) :
    e.key = ⟨outline.ref.path, name⟩ := by
  obtain ⟨o, ho, he⟩ := Option.bind_eq_some_iff.1 h
  rw [Entity.key_of_ofObject? he, (get?_topLevel.1 ho).2.2]

/-- **The entities are what the names lead to.** -/
theorem mem_entities_iff {e : Entity} : e ∈ outline.entities u ↔ ∃ name, outline.entity? u name = some e := by
  rw [entities_eq, Table.mem_values_iff]
  simp only [Table.get?_filterMap]
  rfl

/-- **The entities are in strictly increasing order of their names.** -/
theorem increasing_entities (outline : PackageOutline) (u : Universe) :
    (outline.entities u).Pairwise fun e f => e.key.name < f.key.name := by
  rw [entities_eq]
  refine List.pairwise_map.2 ((Table.sorted _).imp_of_mem fun {b c} hb hc hlt => ?_)
  have hname : ∀ b ∈ (outline.topLevel.filterMap (Entity.ofObject? u outline.ref)).entries, b.2.key.name = b.1 := by
    intro b hb
    have hget := Table.mem_entries_iff.1 hb
    rw [Table.get?_filterMap] at hget
    rw [key_of_entity? hget]
  rw [hname b hb, hname c hc]
  exact compareOfLessAndEq_eq_lt.1 hlt

variable {α : Type} [Keyed α] {kind : Entity → Option α} {a : α}

/-- So are those of one kind. -/
theorem increasing_filterMap_entities (hkind : ∀ e a, kind e = some a → Keyed.key a = e.key)
    (outline : PackageOutline) (u : Universe) :
    ((outline.entities u).filterMap kind).Pairwise fun a b => (Keyed.key a).name < (Keyed.key b).name :=
  (increasing_entities outline u).filterMap kind fun e f hlt a ha b hb => by
    rwa [hkind e a ha, hkind f b hb]

/-- The entities of one kind have different keys. -/
theorem pairwise_filterMap_entities (hkind : ∀ e a, kind e = some a → Keyed.key a = e.key) :
    ((outline.entities u).filterMap kind).Pairwise fun a b => Keyed.key a ≠ Keyed.key b :=
  (increasing_filterMap_entities hkind outline u).imp fun hlt hkey =>
    Std.ne_of_lt hlt (congrArg EntityKey.name hkey)

/-- An entity of a kind is what its name leads to, if that is of the kind. -/
theorem mem_filterMap_entities_iff (hkind : ∀ e a, kind e = some a → Keyed.key a = e.key) {name : String} :
    a ∈ (outline.entities u).filterMap kind ∧ (Keyed.key a).name = name ↔
      (outline.entity? u name).bind kind = some a := by
  rw [List.mem_filterMap, Option.bind_eq_some_iff]
  constructor
  · rintro ⟨⟨e, he, ha⟩, rfl⟩
    obtain ⟨name, he⟩ := mem_entities_iff.1 he
    rw [hkind e a ha, key_of_entity? he]
    exact ⟨e, he, ha⟩
  · rintro ⟨e, he, ha⟩
    exact ⟨⟨e, mem_entities_iff.2 ⟨name, he⟩, ha⟩, by rw [hkind e a ha, key_of_entity? he]⟩

end PackageOutline

/-! ## Catalogs that mirror packages -/

namespace Catalog

variable {α : Type} [Keyed α] {c : Catalog α} {packages : Table String Package} {part : Package → List α}

/-- Whether each package lists entities of its own path, with different keys. -/
structure Orderly (packages : Table String Package) (part : Package → List α) : Prop where
  path : ∀ path p, packages.get? path = some p → ∀ e ∈ part p, (Keyed.key e).package = path
  distinct : ∀ path p, packages.get? path = some p → (part p).Pairwise fun e f => Keyed.key e ≠ Keyed.key f

/-- Whether a catalog holds exactly what the packages list. -/
structure Mirrors (c : Catalog α) (packages : Table String Package) (part : Package → List α) : Prop where
  /-- A key is in the catalog if its package is registered and lists an entity of its name. -/
  contains_iff : ∀ k, c.contains k = true ↔
    ∃ p, packages.get? k.package = some p ∧ ∃ e ∈ part p, (Keyed.key e).name = k.name
  /-- What stands under a key is that entity. -/
  get?_iff : ∀ k e, c.get? k = some e ↔
    ∃ p, packages.get? k.package = some p ∧ e ∈ part p ∧ (Keyed.key e).name = k.name
  /-- The catalog holds as many entities as the packages list together. -/
  size_eq : c.size = (packages.values.flatMap part).length

/-- Among entities with different keys, one is found under its key. -/
theorem find?_reverse_eq_some_iff {es : List α} (hdistinct : es.Pairwise fun e f => Keyed.key e ≠ Keyed.key f)
    {k : EntityKey} {e : α} :
    es.reverse.find? (fun e => decide (Keyed.key e = k)) = some e ↔ e ∈ es ∧ Keyed.key e = k := by
  have hnodup : (es.reverse.map Keyed.key).Nodup := by
    rw [List.map_reverse]
    exact List.nodup_reverse.2 (List.pairwise_map.2 hdistinct)
  rw [find?_eq_some_iff_of_nodup hnodup, List.mem_reverse]

/-- What stands under a key, if the packages are orderly. -/
theorem Indexes.get?_eq_some_iff (h : c.Indexes packages part) (ho : Orderly packages part) (k : EntityKey) (e : α) :
    c.get? k = some e ↔ ∃ p, packages.get? k.package = some p ∧ e ∈ part p ∧ (Keyed.key e).name = k.name := by
  rw [h.get?_eq k, Option.bind_eq_some_iff]
  refine exists_congr fun p => and_congr_right fun hp => ?_
  rw [find?_reverse_eq_some_iff (ho.distinct _ p hp)]
  refine and_congr_right fun he => ⟨fun hkey => by rw [hkey], fun hname => ?_⟩
  exact EntityKey.mk.injEq .. |>.mpr ⟨ho.path _ p hp e he, hname⟩

/-- **The catalog lists, in another order, what the packages list.** -/
theorem Indexes.all_perm (h : c.Indexes packages part) (ho : Orderly packages part) :
    c.all.Perm (packages.values.flatMap part) := by
  have hne : ∀ {e f : α}, compare (Keyed.key e) (Keyed.key f) = .lt → e ≠ f := fun hlt heq =>
    ne_of_compare_eq_lt hlt (congrArg Keyed.key heq)
  have hvalues : ∀ p ∈ packages.values, ∃ path, packages.get? path = some p := fun p hp => Table.mem_values_iff.1 hp
  refine (List.perm_ext_iff_of_nodup (h.pairwise_key.imp hne) (List.nodup_flatMap.2 ⟨?_, ?_⟩)).2 fun e => ?_
  · intro p hp
    obtain ⟨path, hpath⟩ := hvalues p hp
    exact (ho.distinct path p hpath).imp fun hne heq => hne (congrArg Keyed.key heq)
  · -- An entity of two packages would have two paths.
    refine List.pairwise_map.2 (packages.sorted.imp_of_mem fun {b b'} hb hb' hlt e he he' => ?_)
    have hpath := ho.path b.1 b.2 (Table.mem_entries_iff.1 hb) e he
    have hpath' := ho.path b'.1 b'.2 (Table.mem_entries_iff.1 hb') e he'
    exact ne_of_compare_eq_lt hlt (hpath.symm.trans hpath')
  · rw [List.mem_flatMap]
    constructor
    · intro he
      obtain ⟨-, p, hp, hmem⟩ := h.of_mem he
      exact ⟨p, Table.mem_values_iff.2 ⟨_, hp⟩, hmem⟩
    · rintro ⟨p, hp, he⟩
      obtain ⟨path, hpath⟩ := hvalues p hp
      have hget := (h.get?_eq_some_iff ho ⟨path, (Keyed.key e).name⟩ e).2 ⟨p, hpath, he, rfl⟩
      exact mem_all_iff.2 ⟨_, hget⟩

/-- **A catalog of orderly packages mirrors them.** -/
theorem Indexes.mirrors (h : c.Indexes packages part) (ho : Orderly packages part) : c.Mirrors packages part where
  contains_iff k := by
    rw [contains, Option.isSome_iff_exists]
    constructor
    · rintro ⟨e, he⟩
      obtain ⟨p, hp, hmem, hname⟩ := (h.get?_eq_some_iff ho k e).1 he
      exact ⟨p, hp, e, hmem, hname⟩
    · rintro ⟨p, hp, e, hmem, hname⟩
      exact ⟨e, (h.get?_eq_some_iff ho k e).2 ⟨p, hp, hmem, hname⟩⟩
  get?_iff := h.get?_eq_some_iff ho
  size_eq := by
    obtain ⟨t, ht⟩ := h.refines
    rw [ht.size_eq_length, (h.all_perm ho).length_eq]

/-! ## What is displaced -/

/-- The entities that lose their place when others are put in turn. -/
def displaced (c : Catalog α) : List α → List α
  | [] => []
  | e :: es => (c.exchange e).1.toList ++ (c.exchange e).2.displaced es

/-- Entities with different new keys displace nothing. -/
theorem displaced_eq_nil {es : List α} (hnew : ∀ e ∈ es, c.get? (Keyed.key e) = none)
    (hdistinct : es.Pairwise fun e f => Keyed.key e ≠ Keyed.key f) : c.displaced es = [] := by
  induction es generalizing c with
  | nil => rfl
  | cons e es ih =>
    obtain ⟨hne, hdistinct⟩ := List.pairwise_cons.1 hdistinct
    have hfirst : (c.exchange e).1 = none := hnew e List.mem_cons_self
    have hrest : (c.exchange e).2.displaced es = [] := by
      refine ih (fun f hf => ?_) hdistinct
      rw [get?_exchange, if_neg (hne f hf).symm, hnew f (List.mem_cons_of_mem e hf)]
    rw [displaced, hfirst, hrest]
    rfl

end Catalog

/-! ## Registries -/

namespace Registry

/-- The entities that lose their place in the catalogs to those of a package. -/
def displaced (r : Registry) (p : Package) : List Entity :=
  (r.aggregates.displaced p.aggregates).map .aggregate ++ (r.interfaces.displaced p.interfaces).map .interface ++
    (r.namedTypes.displaced p.namedTypes).map .namedType ++ (r.typeAliases.displaced p.typeAliases).map .typeAlias

/-- Whether packages and catalogs agree. -/
structure Mirrored (r : Registry) : Prop where
  aggregates : r.aggregates.Mirrors r.packages Package.aggregates
  interfaces : r.interfaces.Mirrors r.packages Package.interfaces
  namedTypes : r.namedTypes.Mirrors r.packages Package.namedTypes
  typeAliases : r.typeAliases.Mirrors r.packages Package.typeAliases
  /-- A key is in one catalog at most. -/
  exclusive : ∀ k, [r.aggregates.contains k, r.interfaces.contains k, r.namedTypes.contains k,
    r.typeAliases.contains k].count true ≤ 1
  /-- Adding one more package displaces nothing. -/
  keeps : ∀ edition outline u r', r.add edition (Package.extract outline u) = .ok r' →
    r.displaced (Package.extract outline u) = []

/-- The registries that operations lead to, whether they succeed or not.  The ledger is any at every step, because it may
be shared.  The registries on the way of a load count too: of the packages that wait, only the first are registered. -/
inductive Reached : Registry → Prop where
  | start (u : Universe) : Reached (.ofUniverse u)
  | step {w : Workspace} (h : Reached w.registry) (op : Operation) : Reached (w.perform op).2.registry
  | underway {w : Workspace} (h : Reached w.registry) (hopen : w.registry.finalized = false) {tree : FileTree}
      {o : LoadRequest} {l : Loading} (hfound : visitEach (Loading.visitRoot tree o) o.roots ⟨w, []⟩ = (.ok (), l))
      {first rest : List CheckedPackage} (hpending : l.pending = first ++ rest) :
      Reached (l.workspace.registerAll first).2.registry

/-- What is kept: the catalogs hold what the packages list, and every package was extracted from something that has its
path and is a package. -/
structure Stocked (r : Registry) : Prop where
  catalogued : r.Catalogued
  extracted : ∀ path p, r.packages.get? path = some p →
    path ≠ placeholderPath ∧ ∃ outline u, outline.ref.path = path ∧ p = Package.extract outline u

variable {r r' : Registry} {edition : Nat}

/-- **Adding an extracted package keeps a registry stocked.** -/
theorem Stocked.add {outline : PackageOutline} {u : Universe} (hr : r.Stocked)
    (h : r.add edition (Package.extract outline u) = .ok r') : r'.Stocked := by
  refine ⟨hr.catalogued.add h, fun path p hp => ?_⟩
  rw [get?_packages_add h, Option.or_eq_some_iff] at hp
  rcases hp with hp | ⟨-, hp⟩
  · exact hr.extracted path p hp
  · split at hp
    case isTrue hpath => exact ⟨hpath.2, outline, u, hpath.1, (Option.some.inj hp).symm⟩
    case isFalse => cases hp

/-- The universe is no matter, nor whether the registry is closed. -/
theorem Stocked.retype (hr : r.Stocked) (u : Universe) (finalized : Bool) :
    Stocked { r with types := u, finalized := finalized } :=
  ⟨hr.catalogued.retype u finalized, hr.extracted⟩

/-- A package that can be added is not registered, even if it is no package. -/
theorem Stocked.get?_eq_none_of_add {p : Package} (hr : r.Stocked) (h : r.add edition p = .ok r') :
    r.packages.get? p.ref.path = none := by
  rcases add_eq_ok h with ⟨hplaceholder, -⟩ | ⟨-, hnew, -⟩
  · refine Option.eq_none_iff_forall_ne_some.2 fun q hq => ?_
    exact (hr.extracted _ q hq).1 hplaceholder
  · exact hnew

section

variable {α : Type} [Keyed α] {kind : Entity → Option α} {part : Package → List α}

/-- The packages list the entities of a kind in order. -/
theorem Stocked.orderly (hr : r.Stocked) (hkind : ∀ e a, kind e = some a → Keyed.key a = e.key)
    (hpart : ∀ outline u, part (Package.extract outline u) = (outline.entities u).filterMap kind) :
    Catalog.Orderly r.packages part where
  path path p hp e he := by
    obtain ⟨-, outline, u, rfl, rfl⟩ := hr.extracted path p hp
    exact Package.package_key_of_mem hkind (hpart outline u ▸ he)
  distinct path p hp := by
    obtain ⟨-, outline, u, rfl, rfl⟩ := hr.extracted path p hp
    rw [hpart]
    exact PackageOutline.pairwise_filterMap_entities hkind

/-- What a catalog holds under a key of a package is what the name leads to, if that is of the kind. -/
theorem Stocked.get?_eq (hr : r.Stocked) (hkind : ∀ e a, kind e = some a → Keyed.key a = e.key)
    (hpart : ∀ outline u, part (Package.extract outline u) = (outline.entities u).filterMap kind) {c : Catalog α}
    (hc : c.Indexes r.packages part) {k : EntityKey} {outline : PackageOutline} {u : Universe}
    (hp : r.packages.get? k.package = some (Package.extract outline u)) :
    c.get? k = (outline.entity? u k.name).bind kind := by
  refine Option.ext fun a => ?_
  rw [hc.get?_eq_some_iff (hr.orderly hkind hpart), hp, ← PackageOutline.mem_filterMap_entities_iff hkind, ← hpart]
  simp

/-- The entities of an added package displace nothing of their kind. -/
theorem Stocked.displaced_eq_nil (hr : r.Stocked) (hkind : ∀ e a, kind e = some a → Keyed.key a = e.key)
    {c : Catalog α} (hc : c.Indexes r.packages part) {outline : PackageOutline} {u : Universe}
    (h : r.add edition (Package.extract outline u) = .ok r') :
    c.displaced ((outline.entities u).filterMap kind) = [] := by
  refine Catalog.displaced_eq_nil (fun e he => ?_) (PackageOutline.pairwise_filterMap_entities hkind)
  have hnew : r.packages.get? outline.ref.path = none := hr.get?_eq_none_of_add h
  rw [hc.get?_eq, Package.package_key_of_mem hkind he, hnew]
  rfl

end

/-- **The key of a registered package leads to what its name leads to,** and each catalog tells whether that is of its
kind. -/
theorem Stocked.get?_catalogs (hr : r.Stocked) {k : EntityKey} {outline : PackageOutline} {u : Universe}
    (hp : r.packages.get? k.package = some (Package.extract outline u)) :
    r.aggregates.get? k = (outline.entity? u k.name).bind Entity.asAggregate? ∧
      r.interfaces.get? k = (outline.entity? u k.name).bind Entity.asInterface? ∧
      r.namedTypes.get? k = (outline.entity? u k.name).bind Entity.asNamedType? ∧
      r.typeAliases.get? k = (outline.entity? u k.name).bind Entity.asTypeAlias? :=
  have hc := hr.catalogued
  ⟨hr.get?_eq Entity.key_of_asAggregate? (fun _ _ => rfl) hc.aggregates hp,
    hr.get?_eq Entity.key_of_asInterface? (fun _ _ => rfl) hc.interfaces hp,
    hr.get?_eq Entity.key_of_asNamedType? (fun _ _ => rfl) hc.namedTypes hp,
    hr.get?_eq Entity.key_of_asTypeAlias? (fun _ _ => rfl) hc.typeAliases hp⟩

/-- A key leads to one entity or none, whether its package is registered or not. -/
theorem Stocked.exists_entity (hr : r.Stocked) (k : EntityKey) :
    ∃ x : Option Entity, r.aggregates.get? k = x.bind Entity.asAggregate? ∧
      r.interfaces.get? k = x.bind Entity.asInterface? ∧ r.namedTypes.get? k = x.bind Entity.asNamedType? ∧
      r.typeAliases.get? k = x.bind Entity.asTypeAlias? := by
  have hc := hr.catalogued
  cases hp : r.packages.get? k.package with
  | none =>
    refine ⟨none, ?_, ?_, ?_, ?_⟩
    · rw [hc.aggregates.get?_eq, hp]; rfl
    · rw [hc.interfaces.get?_eq, hp]; rfl
    · rw [hc.namedTypes.get?_eq, hp]; rfl
    · rw [hc.typeAliases.get?_eq, hp]; rfl
  | some p =>
    obtain ⟨-, outline, u, -, rfl⟩ := hr.extracted _ p hp
    exact ⟨_, hr.get?_catalogs hp⟩

/-- **In a stocked registry packages and catalogs agree.** -/
theorem Stocked.mirrored (hr : r.Stocked) : r.Mirrored where
  aggregates := hr.catalogued.aggregates.mirrors (hr.orderly Entity.key_of_asAggregate? fun _ _ => rfl)
  interfaces := hr.catalogued.interfaces.mirrors (hr.orderly Entity.key_of_asInterface? fun _ _ => rfl)
  namedTypes := hr.catalogued.namedTypes.mirrors (hr.orderly Entity.key_of_asNamedType? fun _ _ => rfl)
  typeAliases := hr.catalogued.typeAliases.mirrors (hr.orderly Entity.key_of_asTypeAlias? fun _ _ => rfl)
  exclusive k := by
    obtain ⟨x, ha, hi, hn, ht⟩ := hr.exists_entity k
    simp only [Catalog.contains]
    rw [ha, hi, hn, ht]
    rcases x with - | ⟨_ | _ | _ | _⟩ <;> exact Nat.le_of_ble_eq_true rfl
  keeps edition outline u r' h := by
    have hc := hr.catalogued
    unfold displaced
    rw [Package.extract]
    rw [hr.displaced_eq_nil Entity.key_of_asAggregate? hc.aggregates h,
      hr.displaced_eq_nil Entity.key_of_asInterface? hc.interfaces h,
      hr.displaced_eq_nil Entity.key_of_asNamedType? hc.namedTypes h,
      hr.displaced_eq_nil Entity.key_of_asTypeAlias? hc.typeAliases h]
    rfl

end Registry

/-! ## Whatever is done with a registry -/

namespace Workspace

variable {w v : Workspace}

/-- **A small step keeps a registry stocked.** -/
theorem Grows.stocked (h : Grows w v) (hw : w.registry.Stocked) : v.registry.Stocked := by
  cases h with
  | retype hopen u files => exact hw.retype u _
  | add outline u =>
    unfold addPackage
    split
    · exact hw
    case h_2 r hr => exact hw.add hr

theorem stocked_finalize (hw : w.registry.Stocked) (hopen : w.registry.finalized = false) :
    w.finalize.2.registry.Stocked := by
  rw [finalize_of_open hopen]
  exact hw.retype _ true

/-- Whether they succeed or not, operations keep a registry stocked. -/
theorem stocked_run (hw : w.registry.Stocked) (ops : List Operation) : (w.run ops).registry.Stocked :=
  run_induction (P := fun v => v.registry.Stocked) Grows.stocked (fun hopen hv => stocked_finalize hv hopen) ops hw

end Workspace

namespace Registry

theorem stocked_ofUniverse (u : Universe) : (ofUniverse u).Stocked :=
  ⟨(Workspace.consistent_of_registry_eq (w := ⟨ofUniverse u, .empty, 0⟩) rfl).catalogued, fun _ _ hp => nomatch hp⟩

/-- **Every registry that is reached is stocked.** -/
theorem Reached.stocked {r : Registry} (h : r.Reached) : r.Stocked := by
  induction h with
  | start u => exact stocked_ofUniverse u
  | step _ op ih => exact Workspace.stocked_run ih [op]
  | @underway w _ hopen tree o l hfound first rest _ ih =>
    obtain ⟨rs, htook⟩ := Loading.exists_took tree o ⟨w, []⟩
    rw [hfound] at htook
    have hstep : Workspace.Grows w l.workspace := by
      rw [htook.workspace]
      exact .retype hopen _ _
    exact Workspace.grows_induction (P := fun v => v.registry.Stocked) Workspace.Grows.stocked
      (.head hstep (Workspace.grows_registerAll first l.workspace)) ih

/-- **Packages and catalogs agree at all times.**  Whatever was loaded into a registry, added to it or asked of it, with
success or not, each catalog holds under a key what the package of the key lists under its name, and holds as many
entities as the packages list together; a key is in one catalog at most; and adding a package displaces no entity. -/
theorem mirrored_of_reached {r : Registry} (h : r.Reached) : r.Mirrored :=
  h.stocked.mirrored

end Registry

/-- `Square` and the interface that it implements are loaded and settled, and stand where their packages list them. -/
theorem Workspace.shapeWorkspace_mirrored :
    shapeWorkspace.registry.Reached ∧ square ∈ shapeWorkspace.registry.aggregates.all ∧
      shapeWorkspace.registry.Mirrored := by
  have hload := load_eq (w := ⟨.empty, .empty, 0⟩) rfl fun root hroot => shapeTree_admits hroot
  rw [shapeTree_readings] at hload
  have hreached : shapeWorkspace.registry.Reached := by
    have hsteps := Registry.Reached.step (.step (w := ⟨.empty, .empty, 0⟩) (.start .initial)
      (.load shapeTree ⟨["a", "b"], [], false⟩)) .finalize
    rw [perform, perform, hload] at hsteps
    exact hsteps
  exact ⟨hreached, by decide +kernel, Registry.mirrored_of_reached hreached⟩

end TypeAtlas
