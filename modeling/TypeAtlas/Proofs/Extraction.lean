import TypeAtlas.Proofs.CatalogTables
import TypeAtlas.Proofs.CheckedExports
import TypeAtlas.Entity.Extraction

/-!
# What extraction and catalogs tell of entities

The top-level objects of a package are what the scope binds, the first one of each name, sorted by name
(`PackageOutline.values_topLevel`).  Every entity of the package is one of them and belongs to the package
(`Package.exists_aggregate`, `Package.exists_interface`).  A catalog into which packages were put one after the other
holds, under a key, what the package of that key lists under it (`Catalog.Indexes`): it is told by the packages alone,
not by the order in which they came.
-/

namespace TypeAtlas

/-! ## Entities of a package -/

theorem Aggregate.ofObject?_eq_some {u : Universe} {package : PackageRef} {o : Object} {a : Aggregate}
    (h : Aggregate.ofObject? u package o = some a) :
    o.kind = .definedType ∧ a.type = o.type ∧ a.key = ⟨package.path, o.name⟩ ∧ a.methods = u.methodsOf a.type ∧
      ∃ fs, u.underlying a.type = .struct fs ∧ a.fields = fs.filter (!·.embedded) ∧
        a.embeds = (fs.filter (·.embedded)).map fun f => Embed.ofType u f.name f.type := by
  unfold Aggregate.ofObject? at h
  split at h
  case h_1 fs hk hu =>
    cases h
    exact ⟨hk, rfl, rfl, rfl, fs, hu, rfl, rfl⟩
  case h_2 => cases h

theorem Interface.ofObject?_eq_some {u : Universe} {package : PackageRef} {o : Object} {i : Interface}
    (h : Interface.ofObject? u package o = some i) :
    u.underlying i.type = .interface i.underlying ∧ i.methodSet = u.interfaceMethods i.underlying ∧
      i.key = ⟨package.path, o.name⟩ ∧ o.kind = .definedType ∧ i.type = o.type := by
  unfold Interface.ofObject? at h
  split at h
  case h_1 hk hu =>
    cases h
    exact ⟨hu, rfl, rfl, hk, rfl⟩
  case h_2 => cases h

theorem NamedType.ofObject?_eq_some {u : Universe} {package : PackageRef} {o : Object} {n : NamedType}
    (h : NamedType.ofObject? u package o = some n) :
    n.key = ⟨package.path, o.name⟩ ∧ o.kind = .definedType ∧ n.type = o.type ∧ u.underlying n.type = n.underlying ∧
      (∀ fs, n.underlying ≠ .struct fs) ∧ ∀ i, n.underlying ≠ .interface i := by
  unfold NamedType.ofObject? at h
  split at h
  case h_1 => cases h
  case h_2 => cases h
  case h_3 hk hstruct hinterface =>
    cases h
    exact ⟨rfl, hk, rfl, rfl, hstruct, hinterface⟩
  case h_4 => cases h

theorem TypeAlias.ofObject?_eq_some {package : PackageRef} {o : Object} {a : TypeAlias}
    (h : TypeAlias.ofObject? package o = some a) :
    a.key = ⟨package.path, o.name⟩ ∧ o.isAlias = true ∧ a.target = o.type := by
  unfold TypeAlias.ofObject? at h
  split at h
  case isTrue halias =>
    cases h
    exact ⟨rfl, halias, rfl⟩
  case isFalse => cases h

/-- An object is an entity of one kind. -/
theorem Entity.ofObject?_eq_some {u : Universe} {package : PackageRef} {o : Object} {e : Entity}
    (h : Entity.ofObject? u package o = some e) :
    (∃ a, TypeAlias.ofObject? package o = some a ∧ e = .typeAlias a) ∨
      (∃ a, Aggregate.ofObject? u package o = some a ∧ e = .aggregate a) ∨
      (∃ i, Interface.ofObject? u package o = some i ∧ e = .interface i) ∨
      ∃ n, NamedType.ofObject? u package o = some n ∧ e = .namedType n := by
  unfold Entity.ofObject? at h
  simp only [Option.or_eq_some_iff, Option.map_eq_some_iff] at h
  rcases h with ⟨a, ha, rfl⟩ | ⟨-, ⟨a, ha, rfl⟩ | ⟨-, ⟨i, hi, rfl⟩ | ⟨-, n, hn, rfl⟩⟩⟩
  · exact .inl ⟨a, ha, rfl⟩
  · exact .inr (.inl ⟨a, ha, rfl⟩)
  · exact .inr (.inr (.inl ⟨i, hi, rfl⟩))
  · exact .inr (.inr (.inr ⟨n, hn, rfl⟩))

/-- What identifies an entity. -/
def Entity.key : Entity → EntityKey
  | aggregate a => a.key
  | interface i => i.key
  | namedType n => n.key
  | typeAlias a => a.key

theorem Entity.key_of_ofObject? {u : Universe} {package : PackageRef} {o : Object} {e : Entity}
    (h : Entity.ofObject? u package o = some e) : e.key = ⟨package.path, o.name⟩ := by
  rcases Entity.ofObject?_eq_some h with ⟨a, ha, rfl⟩ | ⟨a, ha, rfl⟩ | ⟨i, hi, rfl⟩ | ⟨n, hn, rfl⟩
  · exact (TypeAlias.ofObject?_eq_some ha).1
  · exact (Aggregate.ofObject?_eq_some ha).2.2.1
  · exact (Interface.ofObject?_eq_some hi).2.2.1
  · exact (NamedType.ofObject?_eq_some hn).1

theorem Entity.key_of_asAggregate? (e : Entity) (a : Aggregate) (h : e.asAggregate? = some a) :
    Keyed.key a = e.key := by
  cases e <;> cases h
  rfl

theorem Entity.key_of_asInterface? (e : Entity) (i : Interface) (h : e.asInterface? = some i) :
    Keyed.key i = e.key := by
  cases e <;> cases h
  rfl

theorem Entity.key_of_asNamedType? (e : Entity) (n : NamedType) (h : e.asNamedType? = some n) :
    Keyed.key n = e.key := by
  cases e <;> cases h
  rfl

theorem Entity.key_of_asTypeAlias? (e : Entity) (a : TypeAlias) (h : e.asTypeAlias? = some a) :
    Keyed.key a = e.key := by
  cases e <;> cases h
  rfl

/-- The entities are the types, defined or alias. -/
theorem Entity.isSome_ofObject? (u : Universe) (package : PackageRef) (o : Object) :
    (Entity.ofObject? u package o).isSome = o.isTypeName := by
  cases hk : o.kind with
  | definedType =>
    cases hu : u.underlying o.type <;>
      simp [Entity.ofObject?, TypeAlias.ofObject?, Aggregate.ofObject?, Interface.ofObject?, NamedType.ofObject?,
        Object.isAlias, Object.isTypeName, hk, hu]
  | _ =>
    simp [Entity.ofObject?, TypeAlias.ofObject?, Aggregate.ofObject?, Interface.ofObject?, NamedType.ofObject?,
      Object.isAlias, Object.isTypeName, hk]

/-! ## Top-level objects -/

/-- A scope binds one object of a name. -/
theorem Scope.eq_of_binds {s : Scope} {o p : Object} (ho : s.binds o = true) (hp : s.binds p = true)
    (h : o.name = p.name) : o = p := by
  simp only [binds, beq_iff_eq] at ho hp
  rw [h, hp] at ho
  exact (Option.some.inj ho).symm

namespace PackageOutline

variable {outline : PackageOutline}

/-- The first object of a name counts. -/
theorem get?_topLevel_eq_find? (name : String) :
    outline.topLevel.get? name = (outline.defs.filter outline.scope.binds).find? fun o => decide (o.name = name) := by
  rw [topLevel, Table.get?_foldl_insertIfNew, Table.get?_empty, Option.none_or, Option.map_id']

/-- **The top-level objects are those that the scope binds.** -/
theorem get?_topLevel {name : String} {o : Object} :
    outline.topLevel.get? name = some o ↔ o ∈ outline.defs ∧ outline.scope.binds o = true ∧ o.name = name := by
  rw [get?_topLevel_eq_find?]
  constructor
  · intro h
    obtain ⟨hmem, hbinds⟩ := List.mem_filter.1 (List.mem_of_find?_eq_some h)
    exact ⟨hmem, hbinds, by simpa using List.find?_some h⟩
  · rintro ⟨hmem, hbinds, rfl⟩
    obtain ⟨p, hp⟩ : ∃ p, (outline.defs.filter outline.scope.binds).find? (fun b => decide (b.name = o.name)) = some p :=
      Option.isSome_iff_exists.1 (List.find?_isSome.2 ⟨o, List.mem_filter.2 ⟨hmem, hbinds⟩, by simp⟩)
    have hname : p.name = o.name := by simpa using List.find?_some hp
    rw [hp, Scope.eq_of_binds (List.mem_filter.1 (List.mem_of_find?_eq_some hp)).2 hbinds hname]

theorem mem_topLevel {o : Object} :
    o ∈ outline.topLevel.values ↔ o ∈ outline.defs ∧ outline.scope.binds o = true := by
  rw [Table.mem_values_iff]
  constructor
  · rintro ⟨name, h⟩
    obtain ⟨hmem, hbinds, -⟩ := get?_topLevel.1 h
    exact ⟨hmem, hbinds⟩
  · rintro ⟨hmem, hbinds⟩
    exact ⟨o.name, get?_topLevel.2 ⟨hmem, hbinds, rfl⟩⟩

/-- The objects whose names are not among those seen so far, nor among the names of objects before them. -/
def firstPerName (seen : List String) : List Object → List Object
  | [] => []
  | o :: os => if o.name ∈ seen then firstPerName seen os else o :: firstPerName (o.name :: seen) os

theorem mem_firstPerName_iff {seen : List String} {os : List Object} {o : Object} :
    o ∈ firstPerName seen os ↔ o.name ∉ seen ∧ os.find? (fun p => decide (p.name = o.name)) = some o := by
  fun_induction firstPerName seen os with
  | case1 seen => simp
  | case2 seen p os hseen ih =>
    rw [ih]
    refine and_congr_right fun ho => ?_
    rw [List.find?_cons_of_neg (by simpa using fun h : p.name = o.name => ho (h ▸ hseen))]
  | case3 seen p os hseen ih =>
    rw [List.mem_cons, ih]
    by_cases hname : p.name = o.name
    · rw [List.find?_cons_of_pos (by simpa using hname), hname]
      have hfirst : o = p ↔ o.name ∉ seen ∧ some p = some o :=
        ⟨fun h => ⟨hname ▸ hseen, congrArg some h.symm⟩, fun h => (Option.some.inj h.2).symm⟩
      simpa using hfirst
    · rw [List.find?_cons_of_neg (by simpa using hname)]
      have hne : o ≠ p := fun h => hname (congrArg Object.name h.symm)
      simp [hne, Ne.symm hname]

theorem pairwise_firstPerName (seen : List String) (os : List Object) :
    (firstPerName seen os).Pairwise fun o p => o.name ≠ p.name := by
  fun_induction firstPerName seen os with
  | case1 seen => exact .nil
  | case2 seen o os hseen ih => exact ih
  | case3 seen o os hseen ih =>
    refine List.pairwise_cons.2 ⟨fun p hp hname => ?_, ih⟩
    exact (mem_firstPerName_iff.1 hp).1 (hname ▸ List.mem_cons_self)

/-- **The top-level objects are the first ones of each name that the scope binds, sorted by name.** -/
theorem values_topLevel (outline : PackageOutline) :
    outline.topLevel.values =
      Catalog.sortBy Object.name (firstPerName [] (outline.defs.filter outline.scope.binds)) := by
  have hname : ∀ b ∈ outline.topLevel.entries, b.2.name = b.1 := fun b hb =>
    (get?_topLevel.1 (Table.mem_entries_iff.1 hb)).2.2
  have hincreasing : outline.topLevel.values.Pairwise fun o p => compare o.name p.name = .lt := by
    refine List.pairwise_map.2 (outline.topLevel.sorted.imp_of_mem fun {b b'} hb hb' hlt => ?_)
    rwa [hname b hb, hname b' hb']
  refine (Catalog.sortBy_eq_of_perm (Catalog.perm_of_mem_iff (pairwise_firstPerName _ _) hincreasing fun o => ?_)
    hincreasing).symm
  rw [mem_firstPerName_iff, Table.mem_values_iff]
  constructor
  · rintro ⟨-, ho⟩
    exact ⟨o.name, (get?_topLevel_eq_find? o.name).trans ho⟩
  · rintro ⟨name, ho⟩
    obtain rfl : o.name = name := (get?_topLevel.1 ho).2.2
    exact ⟨List.not_mem_nil, (get?_topLevel_eq_find? o.name).symm.trans ho⟩

/-- The entities by name. -/
theorem entities_eq (u : Universe) :
    outline.entities u = (outline.topLevel.filterMap (Entity.ofObject? u outline.ref)).values :=
  (Table.values_filterMap _ _).symm

/-- Only the top-level objects that are entities count. -/
theorem entities_congr {a b : PackageOutline} {u : Universe} (href : a.ref = b.ref)
    (h : ∀ o, (Entity.ofObject? u b.ref o).isSome = true →
      (o ∈ a.defs ∧ a.scope.binds o = true ↔ o ∈ b.defs ∧ b.scope.binds o = true)) : a.entities u = b.entities u := by
  rw [entities_eq, entities_eq, href]
  refine congrArg Table.values (Table.ext_get? fun name => Option.ext fun x => ?_)
  simp only [Table.get?_filterMap, Option.bind_eq_some_iff, get?_topLevel, ← and_assoc]
  refine exists_congr fun o => and_congr_left fun hx => and_congr_left fun _ => h o ?_
  exact Option.isSome_iff_exists.2 ⟨x, hx⟩

end PackageOutline

namespace Package

variable {outline : PackageOutline} {u : Universe}

/-- A package is told by its description, its imports and its entities. -/
theorem extract_congr {a b : PackageOutline} {u v : Universe} (href : a.ref = b.ref) (himports : a.imports = b.imports)
    (h : a.entities u = b.entities v) : extract a u = extract b v := by
  unfold extract
  rw [href, himports, h]

theorem exists_entity {α : Type} {part : Entity → Option α} {a : α} (h : a ∈ (outline.entities u).filterMap part) :
    ∃ o e, outline.scope.binds o = true ∧ Entity.ofObject? u outline.ref o = some e ∧ part e = some a := by
  obtain ⟨e, he, hpart⟩ := List.mem_filterMap.1 h
  obtain ⟨o, ho, hoe⟩ := List.mem_filterMap.1 he
  exact ⟨o, e, (PackageOutline.mem_topLevel.1 ho).2, hoe, hpart⟩

theorem exists_aggregate {a : Aggregate} (h : a ∈ (extract outline u).aggregates) :
    ∃ o, outline.scope.binds o = true ∧ Aggregate.ofObject? u outline.ref o = some a := by
  obtain ⟨o, e, hb, he, ha⟩ := exists_entity h
  rcases Entity.ofObject?_eq_some he with ⟨b, hb', rfl⟩ | ⟨b, hb', rfl⟩ | ⟨b, hb', rfl⟩ | ⟨b, hb', rfl⟩ <;> cases ha
  exact ⟨o, hb, hb'⟩

theorem exists_interface {i : Interface} (h : i ∈ (extract outline u).interfaces) :
    ∃ o, outline.scope.binds o = true ∧ Interface.ofObject? u outline.ref o = some i := by
  obtain ⟨o, e, hb, he, hi⟩ := exists_entity h
  rcases Entity.ofObject?_eq_some he with ⟨b, hb', rfl⟩ | ⟨b, hb', rfl⟩ | ⟨b, hb', rfl⟩ | ⟨b, hb', rfl⟩ <;> cases hi
  exact ⟨o, hb, hb'⟩

/-- The entities of a package have keys of the package. -/
theorem package_key_of_mem {α : Type} [Keyed α] {part : Entity → Option α}
    (hpart : ∀ e a, part e = some a → Keyed.key a = e.key) {a : α} (h : a ∈ (outline.entities u).filterMap part) :
    (Keyed.key a).package = outline.ref.path := by
  obtain ⟨o, e, -, he, ha⟩ := exists_entity h
  rw [hpart e a ha, Entity.key_of_ofObject? he]

end Package

/-! ## Catalogs -/

namespace Catalog

variable {α : Type} [Keyed α] {c d : Catalog α} {packages : Table String Package} {part : Package → List α}

/-- Of the entities that are put under a key, the last one counts. -/
theorem get?_putAll (k : EntityKey) (es : List α) (c : Catalog α) :
    (c.putAll es).get? k = (es.reverse.find? fun e => decide (Keyed.key e = k)).or (c.get? k) := by
  induction es generalizing c with
  | nil => rfl
  | cons e es ih =>
    have hput : (c.put e).get? k = ([e].find? fun e => decide (Keyed.key e = k)).or (c.get? k) := by
      rw [put, get?_exchange]
      by_cases hk : k = Keyed.key e
      · simp [hk]
      · simp [hk, Ne.symm hk]
    rw [List.reverse_cons, List.find?_append, Option.or_assoc, ← hput]
    exact ih (c.put e)

/-- Whether a catalog holds under a key what the package of the key lists under it. -/
structure Indexes (c : Catalog α) (packages : Table String Package) (part : Package → List α) : Prop where
  get?_eq : ∀ k, c.get? k =
    (packages.get? k.package).bind fun p => (part p).reverse.find? fun e => decide (Keyed.key e = k)
  refines : ∃ t, c.Refines t

theorem indexes_empty (part : Package → List α) : (empty : Catalog α).Indexes .empty part :=
  ⟨fun _ => rfl, .empty, refines_empty⟩

/-- **One more package is put into the catalog.** -/
theorem Indexes.putAll (h : c.Indexes packages part) {p : Package} (hnew : packages.get? p.ref.path = none)
    (hpart : ∀ e ∈ part p, (Keyed.key e).package = p.ref.path) :
    (c.putAll (part p)).Indexes (packages.insert p.ref.path p) part := by
  obtain ⟨t, ht⟩ := h.refines
  refine ⟨fun k => ?_, _, ht.putAll (part p)⟩
  rw [get?_putAll, Table.get?_insert, h.get?_eq k]
  by_cases hk : k.package = p.ref.path
  · rw [if_pos hk, hk, hnew]
    simp
  · have hnone : ((part p).reverse.find? fun e => decide (Keyed.key e = k)) = none := by
      refine List.find?_eq_none.2 fun e he hek => hk ?_
      rw [← of_decide_eq_true hek, hpart e (List.mem_reverse.1 he)]
    rw [if_neg hk, hnone, Option.none_or]

/-- **The packages tell the catalog.** -/
theorem Indexes.eq (hc : c.Indexes packages part) (hd : d.Indexes packages part) : c = d := by
  obtain ⟨s, hs⟩ := hc.refines
  obtain ⟨t, ht⟩ := hd.refines
  have hsame : s = t := Table.ext_get? fun k => by
    rw [← hs.get?_eq, ← ht.get?_eq, hc.get?_eq, hd.get?_eq]
  exact hs.eq (hsame ▸ ht)

/-- What stands under a key has this key, and its package lists it. -/
theorem Indexes.of_get? (h : c.Indexes packages part) {k : EntityKey} {e : α} (hk : c.get? k = some e) :
    Keyed.key e = k ∧ ∃ p, packages.get? k.package = some p ∧ e ∈ part p := by
  obtain ⟨p, hp, hfind⟩ := Option.bind_eq_some_iff.1 ((h.get?_eq k).symm.trans hk)
  exact ⟨by simpa using List.find?_some hfind, p, hp, List.mem_reverse.1 (List.mem_of_find?_eq_some hfind)⟩

/-- An entity of the catalog stands under its key, and its package lists it. -/
theorem Indexes.of_mem (h : c.Indexes packages part) {e : α} (he : e ∈ c.all) :
    c.get? (Keyed.key e) = some e ∧ ∃ p, packages.get? (Keyed.key e).package = some p ∧ e ∈ part p := by
  obtain ⟨k, hk⟩ := mem_all_iff.1 he
  obtain ⟨rfl, hp⟩ := h.of_get? hk
  exact ⟨hk, hp⟩

/-- An entity is the only one of the catalog with its key. -/
theorem Indexes.eq_of_key_eq (h : c.Indexes packages part) {e f : α} (he : e ∈ c.all) (hf : f ∈ c.all)
    (hkey : Keyed.key e = Keyed.key f) : e = f := by
  have hget := (h.of_mem he).1
  rw [hkey, (h.of_mem hf).1] at hget
  exact (Option.some.inj hget).symm

theorem Indexes.pairwise_key (h : c.Indexes packages part) :
    c.all.Pairwise fun e f => compare (Keyed.key e) (Keyed.key f) = .lt :=
  pairwise_key_all fun _ _ hk => (h.of_get? hk).1

end Catalog

end TypeAtlas
