import TypeAtlas.Proofs.Extraction
import TypeAtlas.Proofs.InterfaceSatisfaction
import TypeAtlas.Proofs.Loading
import TypeAtlas.Registry.ImportGraph

/-!
# What registering packages leaves behind

While packages are registered one after the other, three things hold of the workspace (`Workspace.Ready`).

* The registry is open.
* Every package was extracted in the universe of the registry, and the catalogs hold the entities of the packages
  (`Registry.Coherent`).
* The packages come from different extractions, of which nothing is recorded yet (`Registry.Numbered`).

Packages with new paths are registered with success (`Workspace.registerAll_eq_ok`), and this is kept
(`Workspace.Ready.of_registerAll`), so a load into a registry without packages gives a workspace that is ready and is told
by the exports alone (`Workspace.Loaded`).  Finalizing a workspace that is ready records for every aggregate what it
implements in the registry as it is (`Workspace.Ready.finalize`).

Two such loads into the same universe agree in all answers once they agree in the universe and in which exports come
first (`Workspace.Loaded.sameAnswers`).

To find out what an aggregate implements, types are compared, and comparisons need not end.  One that does not end counts as
failed wherever answers are computed.  So that a registry can be finalized is claimed only for registries whose comparisons
end (`Registry.ComparisonsEnd`), while what is recorded if it is finalized is told in any case.
-/

namespace TypeAtlas

namespace Registry

/-- Whether the catalogs hold the entities of the packages. -/
structure Catalogued (r : Registry) : Prop where
  aggregates : r.aggregates.Indexes r.packages Package.aggregates
  interfaces : r.interfaces.Indexes r.packages Package.interfaces
  namedTypes : r.namedTypes.Indexes r.packages Package.namedTypes
  typeAliases : r.typeAliases.Indexes r.packages Package.typeAliases

/-- Whether the packages were extracted in the universe of the registry, and the catalogs hold their entities. -/
structure Coherent (r : Registry) : Prop extends Catalogued r where
  extracted : ∀ path p, r.packages.get? path = some p →
    ∃ e : PackageExport, e.ref.path = path ∧ p = Package.extract e.package.outline r.types

/-- Whether the packages come from different extractions, of which the ledger has nothing recorded. -/
structure Numbered (r : Registry) (l : Ledger) : Prop where
  numbered : ∀ path p, r.packages.get? path = some p → ∃ edition, r.editions.get? path = some edition
  different : ∀ path path' edition, r.editions.get? path = some edition → r.editions.get? path' = some edition →
    path = path'
  issued : ∀ path edition, r.editions.get? path = some edition → edition < l.next
  unresolved : ∀ path edition name, r.editions.get? path = some edition → l.resolved.get? ⟨edition, name⟩ = none

variable {r r' : Registry} {edition : Nat} {p : Package}

/-- A package is ignored, or it is new and its entities are put into the catalogs. -/
theorem add_eq_ok (h : r.add edition p = .ok r') :
    (p.ref.path = placeholderPath ∧ r' = r) ∨
      (p.ref.path ≠ placeholderPath ∧ r.packages.get? p.ref.path = none ∧ r' = { r with
        packages := r.packages.insert p.ref.path p
        editions := r.editions.insert p.ref.path edition
        aggregates := r.aggregates.putAll p.aggregates
        interfaces := r.interfaces.putAll p.interfaces
        namedTypes := r.namedTypes.putAll p.namedTypes
        typeAliases := r.typeAliases.putAll p.typeAliases }) := by
  unfold add at h
  split at h
  case isTrue hp =>
    cases h
    exact .inl ⟨hp, rfl⟩
  case isFalse hp =>
    split at h
    · cases h
    · split at h
      · cases h
      case isFalse hnew =>
        cases h
        exact .inr ⟨hp, by simpa [Table.contains] using hnew, rfl⟩

/-- A package with a new path can be added to an open registry. -/
theorem add_isOk (edition : Nat) (hopen : r.finalized = false) (hnew : r.packages.get? p.ref.path = none) :
    ∃ r', r.add edition p = .ok r' := by
  unfold add
  rw [hopen, Table.contains, hnew]
  split
  · exact ⟨r, rfl⟩
  · exact ⟨_, rfl⟩

/-- What adding a package makes of the packages. -/
theorem get?_packages_add (h : r.add edition p = .ok r') (path : String) :
    r'.packages.get? path =
      (r.packages.get? path).or (if p.ref.path = path ∧ path ≠ placeholderPath then some p else none) := by
  rcases add_eq_ok h with ⟨hp, rfl⟩ | ⟨hp, hnew, rfl⟩
  · rw [if_neg fun hpath => hpath.2 (hpath.1 ▸ hp), Option.or_none]
  · change (r.packages.insert p.ref.path p).get? path = _
    rw [Table.get?_insert]
    by_cases hpath : path = p.ref.path
    · rw [if_pos hpath, hpath, hnew, if_pos ⟨rfl, hp⟩, Option.none_or]
    · rw [if_neg hpath, if_neg fun hpath' => hpath hpath'.1.symm, Option.or_none]

theorem types_add (h : r.add edition p = .ok r') : r'.types = r.types ∧ r'.finalized = r.finalized := by
  rcases add_eq_ok h with ⟨-, rfl⟩ | ⟨-, -, rfl⟩
  · exact ⟨rfl, rfl⟩
  · exact ⟨rfl, rfl⟩

/-- The catalogs do not depend on the universe, nor on whether the registry is closed. -/
theorem Catalogued.retype (hr : r.Catalogued) (u : Universe) (finalized : Bool) :
    Catalogued { r with types := u, finalized } :=
  ⟨hr.aggregates, hr.interfaces, hr.namedTypes, hr.typeAliases⟩

/-- **Adding an extracted package keeps the catalogs in step,** whatever it was extracted from. -/
theorem Catalogued.add {outline : PackageOutline} {u : Universe} (hr : r.Catalogued)
    (h : r.add edition (Package.extract outline u) = .ok r') : r'.Catalogued := by
  rcases add_eq_ok h with ⟨-, rfl⟩ | ⟨-, hnew, rfl⟩
  · exact hr
  · refine ⟨?_, ?_, ?_, ?_⟩
    · exact hr.aggregates.putAll hnew fun a ha => Package.package_key_of_mem Entity.key_of_asAggregate? ha
    · exact hr.interfaces.putAll hnew fun i hi => Package.package_key_of_mem Entity.key_of_asInterface? hi
    · exact hr.namedTypes.putAll hnew fun n hn => Package.package_key_of_mem Entity.key_of_asNamedType? hn
    · exact hr.typeAliases.putAll hnew fun a ha => Package.package_key_of_mem Entity.key_of_asTypeAlias? ha

/-- The key of an interface is among those that an aggregate implements if this very interface counts. -/
theorem Catalogued.key_mem_implementedBy_iff (hr : r.Catalogued) (a : Aggregate) {i : Interface}
    (hi : i ∈ r.interfaces.all) : i.key ∈ r.implementedBy a ↔ i.implementedBy r.types a.type = true := by
  unfold Registry.implementedBy
  rw [List.mem_map]
  constructor
  · rintro ⟨j, hj, hkey⟩
    obtain ⟨hj, himpl⟩ := List.mem_filter.1 hj
    exact hr.interfaces.eq_of_key_eq hj hi hkey ▸ himpl
  · intro h
    exact ⟨i, List.mem_filter.2 ⟨hi, h⟩, rfl⟩

/-- **Adding the package of an export keeps the registry coherent.** -/
theorem Coherent.add (hr : r.Coherent) (e : PackageExport)
    (h : r.add edition (Package.extract e.package.outline r.types) = .ok r') : r'.Coherent := by
  refine ⟨hr.toCatalogued.add h, fun path p hp => ?_⟩
  rw [(types_add h).1]
  rw [get?_packages_add h, Option.or_eq_some_iff] at hp
  rcases hp with hp | ⟨-, hp⟩
  · exact hr.extracted path p hp
  · split at hp
    case isTrue hpath => exact ⟨e, hpath.1, (Option.some.inj hp).symm⟩
    case isFalse => cases hp

/-- An extraction that is not added keeps the packages apart. -/
theorem Numbered.advance {l : Ledger} (hr : r.Numbered l) : r.Numbered l.advance where
  numbered := hr.numbered
  different := hr.different
  issued path edition he := Nat.lt_succ_of_lt (hr.issued path edition he)
  unresolved := hr.unresolved

/-- **Adding a package of the next extraction keeps the packages apart.**  Nothing is recorded of an extraction that was
not made before. -/
theorem Numbered.add {l : Ledger} (hr : r.Numbered l) (h : r.add l.next p = .ok r') : r'.Numbered l.advance := by
  rcases add_eq_ok h with ⟨-, rfl⟩ | ⟨-, -, rfl⟩
  · exact hr.advance
  · have hcases : ∀ path edition, (r.editions.insert p.ref.path l.next).get? path = some edition →
        (path = p.ref.path ∧ edition = l.next) ∨ r.editions.get? path = some edition := by
      intro path edition he
      rw [Table.get?_insert] at he
      split at he
      case isTrue hpath => exact .inl ⟨hpath, (Option.some.inj he).symm⟩
      case isFalse => exact .inr he
    refine ⟨fun path q hq => ?_, fun path path' edition he he' => ?_, fun path edition he => ?_,
      fun path edition name he => ?_⟩
    · rw [Table.get?_insert] at hq
      change ∃ edition, (r.editions.insert p.ref.path l.next).get? path = some edition
      rw [Table.get?_insert]
      split
      case isTrue => exact ⟨l.next, rfl⟩
      case isFalse hpath => exact hr.numbered path q (by rwa [if_neg hpath] at hq)
    · rcases hcases path edition he with ⟨rfl, rfl⟩ | he <;> rcases hcases path' _ he' with ⟨rfl, heq⟩ | he'
      · rfl
      · exact absurd (hr.issued path' _ he') (Nat.lt_irrefl _)
      · exact absurd (heq ▸ hr.issued path _ he) (Nat.lt_irrefl _)
      · exact hr.different path path' edition he he'
    · rcases hcases path edition he with ⟨-, rfl⟩ | he
      · exact Nat.lt_succ_self l.next
      · exact Nat.lt_succ_of_lt (hr.issued path edition he)
    · rcases hcases path edition he with ⟨-, rfl⟩ | he
      · refine Option.eq_none_iff_forall_ne_some.2 fun keys hkeys => ?_
        exact absurd (l.issued _ keys hkeys) (Nat.lt_irrefl _)
      · exact hr.unresolved path edition name he

/-- What the ledger knows once aggregates are resolved: what it knew before, and then what the first of them with the
id implements. -/
theorem get?_resolved_foldl_resolve {id : AggregateId} :
    ∀ (as : List Aggregate) (l : Ledger), id.edition < l.next →
      (as.foldl r.resolve l).resolved.get? id =
        (l.resolved.get? id).or ((as.find? fun a => decide (r.idOf? a = some id)).map r.implementedBy)
  | [], l, _ => by simp
  | a :: as, l, hid => by
    have hnext : (r.resolve l a).next = l.next := by
      unfold resolve Ledger.record
      split
      · split <;> rfl
      · rfl
    have hresolve : (r.resolve l a).resolved.get? id =
        (l.resolved.get? id).or (if r.idOf? a = some id then some (r.implementedBy a) else none) := by
      unfold resolve
      cases hida : r.idOf? a with
      | none => simp
      | some b =>
        unfold Ledger.record
        dsimp only
        split
        case isTrue => simp [Table.get?_insertIfNew, eq_comm]
        case isFalse hb => rw [if_neg fun hb' => hb (by rwa [Option.some.inj hb']), Option.or_none]
    rw [List.foldl_cons, get?_resolved_foldl_resolve as _ (by rwa [hnext]), hresolve, Option.or_assoc]
    by_cases ha : r.idOf? a = some id
    · rw [if_pos ha, List.find?_cons_of_pos (by simpa using ha)]
      rfl
    · rw [if_neg ha, List.find?_cons_of_neg (by simpa using ha), Option.none_or]

/-- An aggregate is the only one of a registry with its id. -/
theorem eq_of_idOf?_eq {l : Ledger} (hr : r.Catalogued) (hn : r.Numbered l) {a b : Aggregate}
    (ha : a ∈ r.aggregates.all) (hb : b ∈ r.aggregates.all) {id : AggregateId} (hida : r.idOf? a = some id)
    (hidb : r.idOf? b = some id) : a = b := by
  obtain ⟨edition, hea, rfl⟩ := Option.map_eq_some_iff.1 hida
  obtain ⟨edition', heb, hid⟩ := Option.map_eq_some_iff.1 hidb
  obtain ⟨rfl, hname⟩ : edition' = edition ∧ b.name = a.name := by simpa using hid
  refine hr.aggregates.eq_of_key_eq ha hb ?_
  show EntityKey.mk a.package.path a.name = ⟨b.package.path, b.name⟩
  rw [hn.different _ _ _ hea heb, hname]

/-- **Finalizing records what every aggregate implements.** -/
theorem interfacesOf_foldl_resolve {l : Ledger} (hr : r.Catalogued) (hn : r.Numbered l) {a : Aggregate}
    (ha : a ∈ r.aggregates.all) : r.interfacesOf (r.aggregates.all.foldl r.resolve l) a = .ok (r.implementedBy a) := by
  obtain ⟨-, p, hp, -⟩ := hr.aggregates.of_mem ha
  obtain ⟨edition, he⟩ := hn.numbered _ p hp
  have hid : r.idOf? a = some ⟨edition, a.name⟩ := Option.map_eq_some_iff.2 ⟨edition, he, rfl⟩
  have hfind : r.aggregates.all.find? (fun b => decide (r.idOf? b = some ⟨edition, a.name⟩)) = some a := by
    obtain ⟨b, hb⟩ := Option.isSome_iff_exists.1
      (List.find?_isSome (p := fun b => decide (r.idOf? b = some ⟨edition, a.name⟩)) |>.2 ⟨a, ha, decide_eq_true hid⟩)
    have hidb : r.idOf? b = some ⟨edition, a.name⟩ := by simpa using List.find?_some hb
    rw [hb, eq_of_idOf?_eq hr hn ha (List.mem_of_find?_eq_some hb) hid hidb]
  unfold interfacesOf implemented? Ledger.implemented?
  rw [hid, Option.bind_some, get?_resolved_foldl_resolve _ l (hn.issued _ _ he), hn.unresolved _ _ _ he, hfind]
  rfl

end Registry

namespace Workspace

/-- What holds of a workspace while packages are registered. -/
structure Ready (w : Workspace) : Prop where
  isOpen : w.registry.finalized = false
  coherent : w.registry.Coherent
  numbered : w.registry.Numbered w.ledger

variable {w w' : Workspace}

/-- A workspace without packages is ready. -/
theorem ready_of_registry_eq {u : Universe} (h : w.registry = .ofUniverse u) : w.Ready := by
  obtain ⟨registry, ledger, filesRead⟩ := w
  obtain rfl : registry = .ofUniverse u := h
  refine ⟨rfl, ⟨⟨Catalog.indexes_empty _, Catalog.indexes_empty _, Catalog.indexes_empty _, Catalog.indexes_empty _⟩, ?_⟩,
    ⟨?_, ?_, ?_, ?_⟩⟩
  · exact fun path p hp => nomatch hp
  · exact fun path p hp => nomatch hp
  · exact fun path path' edition he => nomatch he
  · exact fun path edition he => nomatch he
  · exact fun path edition name he => nomatch he

/-- One package is registered, and then the others. -/
theorem registerAll_cons {pkg : CheckedPackage} {pkgs : List CheckedPackage} {r : Registry}
    (hr : w.registry.add w.ledger.next (Package.extract pkg.outline w.registry.types) = .ok r) :
    w.registerAll (pkg :: pkgs) = registerAll { w with registry := r, ledger := w.ledger.advance } pkgs := by
  simp only [registerAll, hr]

/-- **Packages with different new paths are registered with success.**  A path then leads to the package of its export,
extracted in the universe of the registry. -/
theorem registerAll_eq_ok {es : List PackageExport} (hopen : w.registry.finalized = false)
    (hdiff : es.Pairwise fun e f => e.ref.path ≠ f.ref.path)
    (hnew : ∀ e ∈ es, w.registry.packages.get? e.ref.path = none) :
    ∃ w', w.registerAll (es.map PackageExport.package) = (.ok (), w') ∧ w'.registry.types = w.registry.types ∧
      ∀ path, w'.registry.packages.get? path = (w.registry.packages.get? path).or
        (if path = placeholderPath then none
          else (es.find? fun e => e.ref.path == path).map fun e => Package.extract e.package.outline w.registry.types) := by
  induction es generalizing w with
  | nil => exact ⟨w, rfl, rfl, fun path => by simp⟩
  | cons e es ih =>
    obtain ⟨hdiffe, hdiff⟩ := List.pairwise_cons.1 hdiff
    -- The path of the package is that of the export.
    have hnewe : w.registry.packages.get? (Package.extract e.package.outline w.registry.types).ref.path = none :=
      hnew e List.mem_cons_self
    obtain ⟨r, hr⟩ := Registry.add_isOk w.ledger.next hopen hnewe
    have hpackages : ∀ path, r.packages.get? path = (w.registry.packages.get? path).or
        (if e.ref.path = path ∧ path ≠ placeholderPath then some (Package.extract e.package.outline w.registry.types)
          else none) := Registry.get?_packages_add hr
    obtain ⟨htypes, hfinal⟩ := Registry.types_add hr
    obtain ⟨w', hw', htypes', hpackages'⟩ := ih (w := { w with registry := r, ledger := w.ledger.advance })
      (hfinal.trans hopen) hdiff fun f hf => by
        rw [hpackages, hnew f (List.mem_cons_of_mem e hf), if_neg fun hp => hdiffe f hf hp.1, Option.none_or]
    refine ⟨w', ?_, htypes'.trans htypes, fun path => ?_⟩
    · rw [List.map_cons, registerAll_cons hr]
      exact hw'
    · rw [hpackages', hpackages, Option.or_assoc]
      congr 1
      by_cases hdot : path = placeholderPath
      · rw [if_pos hdot, if_pos hdot, if_neg fun hp => hp.2 hdot, Option.none_or]
      · rw [if_neg hdot, if_neg hdot]
        by_cases hp : e.ref.path = path
        · rw [List.find?_cons_of_pos (by simpa using hp)]
          rw [if_pos ⟨hp, hdot⟩]
          rfl
        · rw [List.find?_cons_of_neg (by simpa using hp)]
          rw [if_neg fun hp' => hp hp'.1, Option.none_or]
          dsimp only
          rw [htypes]

/-- A workspace that is ready stays so when packages are registered. -/
theorem Ready.of_registerAll {es : List PackageExport} (hw : w.Ready)
    (h : w.registerAll (es.map PackageExport.package) = (.ok (), w')) : w'.Ready := by
  induction es generalizing w with
  | nil =>
    obtain rfl : w = w' := congrArg Prod.snd h
    exact hw
  | cons e es ih =>
    rw [List.map_cons, registerAll] at h
    split at h
    · cases h
    case h_2 r hr =>
      exact ih ⟨(Registry.types_add hr).2.trans hw.isOpen, hw.coherent.add e hr, hw.numbered.add hr⟩ h

/-- An open registry can be finalized. -/
theorem finalize_of_open (hopen : w.registry.finalized = false) :
    w.finalize = (.ok (), ⟨{ w.registry with finalized := true },
      w.registry.aggregates.all.foldl w.registry.resolve w.ledger, w.filesRead⟩) := by
  unfold Workspace.finalize Registry.finalize
  rw [hopen]
  rfl

/-- **Finalizing records what every aggregate implements, and changes nothing else.** -/
theorem Ready.finalize (hw : w.Ready) :
    ∃ w', w.finalize = (.ok (), w') ∧ w'.registry = { w.registry with finalized := true } ∧
      ∀ a ∈ w.registry.aggregates.all, w'.registry.interfacesOf w'.ledger a = .ok (w.registry.implementedBy a) := by
  rw [finalize_of_open hw.isOpen]
  exact ⟨_, rfl, rfl, fun a ha => Registry.interfacesOf_foldl_resolve hw.coherent.toCatalogued hw.numbered ha⟩

/-! ## Loads into a registry without packages -/

/-- What a workspace over a universe has become once exports were loaded. -/
structure Loaded (u : Universe) (rs : List Reading) (w : Workspace) : Prop where
  ready : w.Ready
  lookup : ∀ n, w.registry.types.lookup n = (handedOver (fun _ => false) rs n).or (u.lookup n)
  packages : ∀ path, w.registry.packages.get? path =
    if path = placeholderPath then none
    else (rs.find? fun r => r.found.ref.path == path).map fun r =>
      Package.extract r.found.package.outline w.registry.types

variable {u : Universe} {tree : FileTree} {o : LoadRequest}

/-- **What was taken is registered with success.**  A path then leads to the package that it led to before, or else to
that of its first export. -/
theorem registerAll_of_took (hopen : w.registry.finalized = false) {rs : List Reading} {l : Loading}
    (h : Loading.Took rs ⟨w, []⟩ l) :
    ∃ w', l.workspace.registerAll l.pending = (.ok (), w') ∧ (l.workspace.Ready → w'.Ready) ∧
      w'.registry.types = l.workspace.registry.types ∧
      ∀ path, w'.registry.packages.get? path = (w.registry.packages.get? path).or
        (if path = placeholderPath then none
          else (rs.find? fun r => r.found.ref.path == path).map fun r =>
            Package.extract r.found.package.outline l.workspace.registry.types) := by
  have hpending : l.pending =
      (introduced w.registry.packages.contains (rs.map Reading.found)).map PackageExport.package := by
    rw [h.pending, Loading.knows_start]
    rfl
  have hpackages : l.workspace.registry.packages = w.registry.packages := by rw [h.registry]
  have hnew : ∀ e ∈ introduced w.registry.packages.contains (rs.map Reading.found),
      l.workspace.registry.packages.get? e.ref.path = none := by
    intro e he
    rw [hpackages]
    simpa [Table.contains] using known_of_mem_introduced he
  obtain ⟨w', hw', htypes, hget⟩ := registerAll_eq_ok (w := l.workspace) (by rw [h.registry, hopen])
    (pairwise_introduced _ (rs.map Reading.found)) hnew
  refine ⟨w', hpending ▸ hw', fun hready => hready.of_registerAll hw', htypes, fun path => ?_⟩
  rw [hget, hpackages, find?_introduced, Table.contains]
  cases hp : w.registry.packages.get? path with
  | some p => rfl
  | none =>
    rw [Option.isSome_none, if_neg Bool.false_ne_true, List.find?_map, Option.map_map]
    rfl

/-- Load exports that are read already. -/
def loadReadings (w : Workspace) (rs : List Reading) : Except RegistryError Unit × Workspace :=
  let l := rs.foldl Loading.take ⟨w, []⟩
  l.workspace.registerAll l.pending

/-- **A load is told by the exports that it reads,** if every root is admitted. -/
theorem load_eq (hopen : w.registry.finalized = false) (h : ∀ root ∈ o.roots, o.Admits tree root) :
    w.load tree o = w.loadReadings (o.readings tree) := by
  unfold load registerFound
  rw [hopen, if_neg Bool.false_ne_true, Loading.visitEach_visitRoot_eq h]
  rfl

/-- A directory that passes its check is told by its exports too. -/
theorem loadDirectory_eq {dir : String} (hopen : w.registry.finalized = false)
    (h : ∃ r, (checkExports tree dir).result = .ok r) :
    w.loadDirectory tree dir = w.loadReadings (tree.readings dir) := by
  unfold loadDirectory registerFound
  rw [hopen, if_neg Bool.false_ne_true, Loading.visit_eq dir _ h]
  rfl

/-- A load that succeeds has roots that are admitted. -/
theorem admits_of_load (h : w.load tree o = (.ok (), w')) : ∀ root ∈ o.roots, o.Admits tree root := by
  unfold load registerFound at h
  split at h
  · cases h
  · split at h
    · cases h
    case h_2 l hl => exact Loading.admits_of_visitEach hl

/-- What a workspace without packages is before anything is loaded. -/
theorem loaded_nil (hw : w.registry = .ofUniverse u) : Loaded u [] w where
  ready := ready_of_registry_eq hw
  lookup n := by
    rw [hw]
    rfl
  packages path := by
    rw [hw]
    exact (ite_self _).symm

/-- **What a load into a registry without packages gives.** -/
theorem loaded_of_admits (hw : w.registry = .ofUniverse u) (h : ∀ root ∈ o.roots, o.Admits tree root) :
    ∃ w', w.load tree o = (.ok (), w') ∧ Loaded u (o.readings tree) w' := by
  have hopen := (ready_of_registry_eq hw).isOpen
  have hempty : w.registry.packages.contains = fun _ => false := by
    rw [hw]
    rfl
  have htook : Loading.Took (o.readings tree) ⟨w, []⟩ ((o.readings tree).foldl Loading.take ⟨w, []⟩) :=
    .directories ⟨w, []⟩ fun dir hdir => LoadRequest.isOk_of_mem_directories h hdir
  have hready := ready_of_registry_eq (u := _) (congrArg registry htook.workspace |>.trans (by rw [hw]; rfl))
  obtain ⟨w', hw', hready', htypes, hpackages⟩ := registerAll_of_took hopen htook
  rw [load_eq hopen h]
  refine ⟨w', hw', hready' hready, fun n => ?_, fun path => ?_⟩
  · rw [htypes, htook.lookup, Loading.knows_start, hempty, hw]
    rfl
  · rw [hpackages, htypes, hw]
    rfl

theorem loaded_of_load (hw : w.registry = .ofUniverse u) (h : w.load tree o = (.ok (), w')) :
    Loaded u (o.readings tree) w' := by
  obtain ⟨w'', hw'', hloaded⟩ := loaded_of_admits hw (admits_of_load h)
  obtain rfl : w'' = w' := congrArg Prod.snd (hw''.symm.trans h)
  exact hloaded

/-- A load into a registry without packages that is finalized at once. -/
theorem loadAndFinalize_eq (hw : w.registry = .ofUniverse u) (h : ∀ root ∈ o.roots, o.Admits tree root) :
    w.loadAndFinalize tree o = (.ok (), (w.loadReadings (o.readings tree)).2.finalize.2) := by
  obtain ⟨m, hm, hloaded⟩ := loaded_of_admits hw h
  obtain ⟨m', hm', -⟩ := hloaded.ready.finalize
  rw [← load_eq (ready_of_registry_eq hw).isOpen h, loadAndFinalize, hm]
  dsimp only
  rw [hm']

end Workspace

/-! ## Registries that agree -/

/-- Whether the comparisons end that tell of each aggregate and each interface of a registry whether the one implements the
other. -/
def Registry.ComparisonsEnd (r : Registry) : Prop :=
  ∀ a ∈ r.aggregates.all, ∀ i ∈ r.interfaces.all, r.types.SearchEnds a.type.toPointer i.underlying

/-- Whether two registries have the same universe, packages and entities. -/
structure Registry.Agrees (r s : Registry) : Prop where
  types : r.types = s.types
  packages : r.packages = s.packages
  aggregates : r.aggregates = s.aggregates
  interfaces : r.interfaces = s.interfaces
  namedTypes : r.namedTypes = s.namedTypes
  typeAliases : r.typeAliases = s.typeAliases

namespace Workspace

/-- Whether two workspaces agree, and answer all questions alike once they are finalized: what an aggregate implements, and
which packages import which. -/
structure SameAnswers (w v : Workspace) : Prop where
  agrees : w.registry.Agrees v.registry
  /-- Both can be finalized, if the comparisons end. -/
  closes : w.registry.ComparisonsEnd → ∃ w' v', w.finalize = (.ok (), w') ∧ v.finalize = (.ok (), v')
  finalized : ∀ w' v', w.finalize = (.ok (), w') → v.finalize = (.ok (), v') →
    w'.registry.Agrees v'.registry ∧
    (∀ a ∈ w'.registry.aggregates.all, ∃ keys,
      w'.registry.interfacesOf w'.ledger a = .ok keys ∧ v'.registry.interfacesOf v'.ledger a = .ok keys) ∧
    ∀ external, w'.registry.importGraph external = v'.registry.importGraph external

variable {w v : Workspace} {u : Universe} {rs ss : List Reading}

/-- What agrees before it is finalized gives the same answers. -/
theorem Ready.sameAnswers (hw : w.Ready) (hv : v.Ready) (h : w.registry.Agrees v.registry) : w.SameAnswers v := by
  obtain ⟨w', hw', hwr, hrecorded⟩ := hw.finalize
  obtain ⟨v', hv', hvr, hrecorded'⟩ := hv.finalize
  refine ⟨h, fun _ => ⟨w', v', hw', hv'⟩, fun w'' v'' hw'' hv'' => ?_⟩
  obtain rfl : w' = w'' := congrArg Prod.snd (hw'.symm.trans hw'')
  obtain rfl : v' = v'' := congrArg Prod.snd (hv'.symm.trans hv'')
  refine ⟨?_, fun a ha => ?_, fun external => ?_⟩
  · rw [hwr, hvr]
    exact ⟨h.types, h.packages, h.aggregates, h.interfaces, h.namedTypes, h.typeAliases⟩
  · rw [hwr] at ha
    have hsame : w.registry.implementedBy a = v.registry.implementedBy a := by
      rw [Registry.implementedBy, Registry.implementedBy, h.types, h.interfaces]
    exact ⟨_, hrecorded a ha, hsame ▸ hrecorded' a (h.aggregates ▸ ha)⟩
  · rw [hwr, hvr, Registry.importGraph, Registry.importGraph, h.packages]

/-- **Loads agree if they have the same universe and the same exports come first.** -/
theorem Loaded.sameAnswers (hw : Loaded u rs w) (hv : Loaded u ss v) (htypes : w.registry.types = v.registry.types)
    (hfirst : ∀ path, (rs.find? fun r => r.found.ref.path == path).map Reading.found =
      (ss.find? fun r => r.found.ref.path == path).map Reading.found) : w.SameAnswers v := by
  have hpackages : w.registry.packages = v.registry.packages := by
    refine Table.ext_get? fun path => ?_
    rw [hw.packages, hv.packages, htypes]
    have h := congrArg (Option.map fun e => Package.extract e.package.outline v.registry.types) (hfirst path)
    rw [Option.map_map, Option.map_map] at h
    split
    · rfl
    · exact h
  have hc := hw.ready.coherent
  have hd := hv.ready.coherent
  refine hw.ready.sameAnswers hv.ready ⟨htypes, hpackages, ?_, ?_, ?_, ?_⟩
  · exact hc.aggregates.eq (hpackages ▸ hd.aggregates)
  · exact hc.interfaces.eq (hpackages ▸ hd.interfaces)
  · exact hc.namedTypes.eq (hpackages ▸ hd.namedTypes)
  · exact hc.typeAliases.eq (hpackages ▸ hd.typeAliases)

end Workspace

end TypeAtlas
