import TypeAtlas.Proofs.CatalogAgreement
import TypeAtlas.Proofs.CheckOutcomes

/-!
# Which names are defined

Loads bring two things: definitions for the universe, and entities for the catalogs.  The two go different ways.  The
definitions of a directory are gathered in one universe, and a package that waits takes over all those of its path; the
entities of a package are extracted from its own export.  Both agree on which names of packages there are
(`Workspace.contains_iff_of_run`), as long as no directory has two exports of a path.

A path that is no package makes an exception.  It is never registered, but its definitions are taken over.
-/

namespace TypeAtlas

/-! ## The scope of an export that passes -/

namespace PackageExport

variable {e : PackageExport}

/-- **The scope of an export that passes binds every top-level declaration.** -/
theorem Passes.lookup_scope (h : e.Passes) {d : Declaration} (hd : d ∈ e.decls) (hl : d.isLocal = false) :
    e.package.scope.lookup d.name = some (d.object e.ref) := by
  obtain ⟨pkg, hpkg⟩ := h
  exact (lookup_scope_eq_some_iff (nodup_topNames_of_check hpkg)).2 ⟨d, hd, hl, rfl, rfl⟩

/-- The definitions of an export come from its top-level type declarations. -/
theorem isSome_definition?_iff_declared {n : TypeName} :
    (e.definition? n).isSome = true ↔
      ∃ pos t methods, .type n.name pos t methods false ∈ e.decls ∧ n.package = e.ref.path := by
  rw [definition?, List.findSome?_isSome_iff]
  constructor
  · rintro ⟨d, hd, hsome⟩
    obtain ⟨x, hx⟩ := Option.isSome_iff_exists.1 hsome
    obtain ⟨hn, pos, rfl⟩ := Declaration.definition?_eq_some_iff.1 hx
    exact ⟨pos, x.underlying, x.methods, List.mem_reverse.1 hd, hn⟩
  · rintro ⟨pos, t, methods, hd, hn⟩
    have hx : Declaration.definition? e.ref n (.type n.name pos t methods false) = some ⟨t, methods⟩ :=
      Declaration.definition?_eq_some_iff.2 ⟨hn, pos, rfl⟩
    exact ⟨_, List.mem_reverse.2 hd, by rw [hx]; rfl⟩

/-- **An export that passes defines exactly the names of its top-level defined types.** -/
theorem Passes.isSome_definition?_iff (h : e.Passes) {n : TypeName} (hn : n.package = e.ref.path) :
    (e.definition? n).isSome = true ↔
      ∃ o, e.package.outline.topLevel.get? n.name = some o ∧ o.kind = .definedType := by
  rw [isSome_definition?_iff_declared]
  constructor
  · rintro ⟨pos, t, methods, hd, -⟩
    have hbound := h.lookup_scope hd rfl
    refine ⟨_, PackageOutline.get?_topLevel.2 ⟨List.mem_map_of_mem hd, ?_, ?_⟩, rfl⟩
    · exact beq_iff_eq.2 hbound
    · rfl
  · rintro ⟨o, ho, hkind⟩
    obtain ⟨-, hbinds, hname⟩ := PackageOutline.get?_topLevel.1 ho
    obtain ⟨d, hd, hl, rfl⟩ := exists_declaration_of_binds hbinds
    cases d with
    | type name pos t methods isLocal =>
      obtain rfl : isLocal = false := hl
      obtain rfl : name = n.name := hname
      exact ⟨pos, t, methods, hd, hn⟩
    | _ => cases hkind

end PackageExport

/-! ## Entities of defined types -/

/-- A defined type is an entity of exactly one of the three kinds of defined types, and nothing else is. -/
theorem Entity.count_ofObject? (u : Universe) (package : PackageRef) (o : Object) :
    [((Entity.ofObject? u package o).bind Entity.asAggregate?).isSome,
      ((Entity.ofObject? u package o).bind Entity.asInterface?).isSome,
      ((Entity.ofObject? u package o).bind Entity.asNamedType?).isSome].count true =
      if o.kind = .definedType then 1 else 0 := by
  cases hk : o.kind with
  | definedType =>
    cases hu : u.underlying o.type <;>
      simp [Entity.ofObject?, TypeAlias.ofObject?, Aggregate.ofObject?, Interface.ofObject?, NamedType.ofObject?,
        Object.isAlias, hk, hu, Entity.asAggregate?, Entity.asInterface?, Entity.asNamedType?]
  | _ =>
    simp [Entity.ofObject?, TypeAlias.ofObject?, Aggregate.ofObject?, Interface.ofObject?, NamedType.ofObject?,
      Object.isAlias, hk, Entity.asAggregate?, Entity.asInterface?, Entity.asNamedType?]

namespace Registry

/-- Whether the package of a name is registered, and the name is a key of exactly one of the catalogs of defined types. -/
def Catalogues (r : Registry) (n : TypeName) : Prop :=
  r.packages.contains n.package = true ∧
    [r.aggregates.contains ⟨n.package, n.name⟩, r.interfaces.contains ⟨n.package, n.name⟩,
      r.namedTypes.contains ⟨n.package, n.name⟩].count true = 1

/-- **The names of a registered package that are catalogued are those that its export defines.** -/
theorem Stocked.catalogues_iff {r : Registry} (hr : r.Stocked) {e : PackageExport} (he : e.Passes) {n : TypeName}
    (hpath : n.package = e.ref.path) {u : Universe}
    (hp : r.packages.get? n.package = some (Package.extract e.package.outline u)) :
    r.Catalogues n ↔ (e.definition? n).isSome = true := by
  obtain ⟨ha, hi, hn, -⟩ := hr.get?_catalogs (k := ⟨n.package, n.name⟩) hp
  have hregistered : r.packages.contains n.package = true := by
    rw [Table.contains, hp]
    rfl
  rw [he.isSome_definition?_iff hpath, Catalogues, and_iff_right hregistered]
  simp only [Catalog.contains]
  rw [ha, hi, hn, PackageOutline.entity?]
  cases ho : e.package.outline.topLevel.get? n.name with
  | none => simp
  | some o =>
    rw [Option.bind_some, Entity.count_ofObject?]
    simp

end Registry

/-! ## What loads gather -/

namespace Reading

/-- What holds of a reading of a directory that passes its check. -/
structure Sound (r : Reading) : Prop where
  passes : r.found.Passes
  found_mem : r.found ∈ r.batch
  lookup : ∀ n, r.universe.lookup n = r.meaning n

theorem sound_of_mem {tree : FileTree} {dir : String} (h : ∃ x, (checkExports tree dir).result = .ok x) {r : Reading}
    (hr : r ∈ tree.readings dir) : r.Sound := by
  have hlookup := Reading.lookup_universe h hr
  obtain ⟨⟨pkgs, v⟩, hcheck⟩ := h
  obtain ⟨e, he, rfl⟩ := List.mem_map.1 hr
  exact ⟨(checkExports_eq_ok hcheck).1 e he, he, hlookup⟩

end Reading

namespace Operation

/-- Whether the operation is a load, of roots or of one directory. -/
def isLoad : Operation → Bool
  | load _ _ => true
  | loadDirectory _ _ => true
  | _ => false

/-- The exports that a load reads. -/
def readings : Operation → List Reading
  | load tree o => o.readings tree
  | loadDirectory tree dir => tree.readings dir
  | _ => []

end Operation

namespace Workspace

variable {w : Workspace}

/-- Whether operations succeed one after the other. -/
def Succeeds (w : Workspace) : List Operation → Prop
  | [] => True
  | op :: ops => (w.perform op).1 = .ok () ∧ (w.perform op).2.Succeeds ops

/-- **A load that succeeds is told by the exports that it reads.** -/
theorem perform_eq_loadReadings {op : Operation} (hop : op.isLoad = true) (hopen : w.registry.finalized = false)
    (hok : (w.perform op).1 = .ok ()) :
    (∀ r ∈ op.readings, r.Sound) ∧ w.perform op = w.loadReadings op.readings := by
  have hload : ∀ {tree : FileTree} {o : LoadRequest}, (w.load tree o).1 = .ok () →
      (∀ r ∈ o.readings tree, r.Sound) ∧ w.load tree o = w.loadReadings (o.readings tree) := by
    intro tree o hok
    have hadmits := admits_of_load (Prod.ext hok rfl : w.load tree o = (.ok (), (w.load tree o).2))
    refine ⟨fun r hr => ?_, load_eq hopen hadmits⟩
    obtain ⟨dir, hdir, hr⟩ := List.mem_flatMap.1 hr
    exact Reading.sound_of_mem (LoadRequest.isOk_of_mem_directories hadmits hdir) hr
  cases op with
  | load tree o => exact hload hok
  | loadDirectory tree dir =>
    rw [perform, loadDirectory_eq_load] at hok ⊢
    have h := hload hok
    rw [LoadRequest.readings_flat, List.flatMap_singleton] at h
    exact h
  | add outline u => cases hop
  | finalize => cases hop

/-- What a workspace has gathered from loads into an empty registry.  The exports of each load are in a list of their
own. -/
structure Gathered (loads : List (List Reading)) (w : Workspace) : Prop where
  isOpen : w.registry.finalized = false
  stocked : w.registry.Stocked
  sound : ∀ r ∈ loads.flatten, r.Sound
  /-- The first export of a path counts, and all exports of its directory. -/
  lookup : ∀ n, n.package ≠ placeholderPath →
    w.registry.types.lookup n = (handedOver (fun _ => false) loads.flatten n).or (Universe.initial.lookup n)
  /-- What is no package is handed over by each load anew. -/
  placeholder : ∀ n, n.package = placeholderPath → ((w.registry.types.lookup n).isSome = true ↔
    ∃ rs ∈ loads, ∃ r, rs.find? (fun r => r.found.ref.path == n.package) = some r ∧ (r.meaning n).isSome = true)
  registered : ∀ path r, path ≠ placeholderPath → loads.flatten.find? (fun r => r.found.ref.path == path) = some r →
    ∃ u, w.registry.packages.get? path = some (Package.extract r.found.package.outline u)
  unregistered : ∀ path, loads.flatten.find? (fun r => r.found.ref.path == path) = none →
    w.registry.packages.get? path = none

theorem gathered_nil (hw : w.registry = .empty) : Gathered [] w := by
  have hpackages : ∀ path, w.registry.packages.get? path = none := by
    rw [hw]
    exact fun path => rfl
  refine ⟨by rw [hw]; rfl, hw ▸ Registry.stocked_ofUniverse .initial, fun r hr => absurd hr List.not_mem_nil,
    fun n _ => ?_, fun n hn => ?_, fun path r _ hr => (by cases hr), fun path _ => hpackages path⟩
  · rw [hw]
    rfl
  · have hnone : Universe.initial.lookup n = none := by
      rw [Universe.initial, Universe.lookup_define, if_neg]
      · rfl
      · rintro rfl
        exact absurd hn (by decide)
    rw [hw]
    change (Universe.initial.lookup n).isSome = true ↔ _
    rw [hnone]
    simp

namespace Gathered

variable {loads : List (List Reading)} {rs : List Reading}

/-- The registered paths are those of the exports that were read. -/
theorem contains_packages (hw : Gathered loads w) {path : String} (hpath : path ≠ placeholderPath) :
    w.registry.packages.contains path = knownAfter (fun _ => false) (loads.flatten.map Reading.found) path := by
  have hany : knownAfter (fun _ => false) (loads.flatten.map Reading.found) path =
      (loads.flatten.find? fun r => r.found.ref.path == path).isSome := by
    rw [knownAfter, Bool.false_or, List.any_map, List.isSome_find?]
    rfl
  rw [hany, Table.contains]
  cases hr : loads.flatten.find? fun r => r.found.ref.path == path with
  | none =>
    rw [hw.unregistered path hr]
    rfl
  | some r =>
    obtain ⟨u, hu⟩ := hw.registered path r hpath hr
    rw [hu]
    rfl

theorem contains_placeholder (hw : Gathered loads w) : w.registry.packages.contains placeholderPath = false := by
  cases hp : w.registry.packages.get? placeholderPath with
  | none =>
    rw [Table.contains, hp]
    rfl
  | some p => exact absurd rfl (hw.stocked.extracted _ p hp).1

/-- **One more load.** -/
theorem loadReadings (hw : Gathered loads w) (hrs : ∀ r ∈ rs, r.Sound) :
    Gathered (loads ++ [rs]) (w.loadReadings rs).2 := by
  have htook : Loading.Took rs ⟨w, []⟩ (rs.foldl Loading.take ⟨w, []⟩) := .takeAll ⟨w, []⟩ fun r hr => (hrs r hr).lookup
  have hflatten : (loads ++ [rs]).flatten = loads.flatten ++ rs := by simp
  unfold Workspace.loadReadings
  generalize rs.foldl Loading.take ⟨w, []⟩ = l at htook
  -- Small steps lead to the result, so the registry stays open and stocked.
  have hkept : (l.workspace.registerAll l.pending).2.registry.finalized = false ∧
      (l.workspace.registerAll l.pending).2.registry.Stocked := by
    have hstep : Grows w l.workspace := by
      rw [htook.workspace]
      exact .retype hw.isOpen _ _
    exact grows_induction (P := fun v => v.registry.finalized = false ∧ v.registry.Stocked)
      (fun h hv => ⟨h.finalized_eq.trans hv.1, h.stocked hv.2⟩)
      (.head hstep (grows_registerAll l.pending l.workspace)) ⟨hw.isOpen, hw.stocked⟩
  obtain ⟨w', hw', -, htypes, hpackages⟩ := registerAll_of_took hw.isOpen htook
  have hlookup := htook.lookup
  rw [Loading.knows_start, ← htypes] at hlookup
  dsimp only at hkept ⊢
  rw [hw'] at hkept ⊢
  refine ⟨hkept.1, hkept.2, ?_, ?_, ?_, ?_, ?_⟩
  · rw [hflatten]
    intro r hr
    rcases List.mem_append.1 hr with hr | hr
    · exact hw.sound r hr
    · exact hrs r hr
  · intro n hn
    have hknown : handedOver w.registry.packages.contains rs n =
        handedOver (knownAfter (fun _ => false) (loads.flatten.map Reading.found)) rs n := by
      unfold handedOver
      rw [hw.contains_packages hn]
    rw [hlookup, hknown, hw.lookup n hn, hflatten, handedOver_append, Option.or_assoc]
  · intro n hn
    have hnew : handedOver w.registry.packages.contains rs n =
        (rs.find? fun r => r.found.ref.path == n.package).bind fun r => r.meaning n := by
      rw [handedOver, hn, hw.contains_placeholder, if_neg Bool.false_ne_true]
    have hbind : ((rs.find? fun r => r.found.ref.path == n.package).bind fun r => r.meaning n).isSome = true ↔
        ∃ r, rs.find? (fun r => r.found.ref.path == n.package) = some r ∧ (r.meaning n).isSome = true := by
      cases rs.find? fun r => r.found.ref.path == n.package <;> simp
    rw [hlookup, hnew, Option.isSome_or, Bool.or_eq_true, hbind, hw.placeholder n hn]
    constructor
    · rintro (hr | ⟨ss, hss, hr⟩)
      · exact ⟨rs, List.mem_append_right _ List.mem_cons_self, hr⟩
      · exact ⟨ss, List.mem_append_left _ hss, hr⟩
    · rintro ⟨ss, hss, hr⟩
      rcases List.mem_append.1 hss with hss | hss
      · exact .inr ⟨ss, hss, hr⟩
      · exact .inl (List.mem_singleton.1 hss ▸ hr)
  · intro path r hpath hr
    rw [hflatten, List.find?_append, Option.or_eq_some_iff] at hr
    rw [hpackages]
    rcases hr with hr | ⟨hnone, hr⟩
    · obtain ⟨u, hu⟩ := hw.registered path r hpath hr
      exact ⟨u, by rw [hu, Option.some_or]⟩
    · rw [hw.unregistered path hnone, Option.none_or, if_neg hpath, hr]
      exact ⟨_, rfl⟩
  · intro path hnone
    rw [hflatten, List.find?_append, Option.or_eq_none_iff] at hnone
    rw [hpackages, hw.unregistered path hnone.1, hnone.2]
    simp

/-- **A name of a package is defined if the directory of the first export of its path defines it.** -/
theorem contains_iff (hw : Gathered loads w) {n : TypeName} (hdot : n.package ≠ placeholderPath)
    (hn : Universe.initial.lookup n = none) :
    w.registry.types.contains n = true ↔ ∃ r, loads.flatten.find? (fun r => r.found.ref.path == n.package) = some r ∧
      (definitionIn r.batch n).isSome = true := by
  change (w.registry.types.lookup n).isSome = true ↔ _
  rw [hw.lookup n hdot, hn, Option.or_none, handedOver, if_neg Bool.false_ne_true]
  cases loads.flatten.find? fun r => r.found.ref.path == n.package <;> simp [Reading.meaning, hn]

/-- **It is catalogued if that export itself defines it.** -/
theorem catalogues_iff (hw : Gathered loads w) {n : TypeName} (hdot : n.package ≠ placeholderPath) :
    w.registry.Catalogues n ↔ ∃ r, loads.flatten.find? (fun r => r.found.ref.path == n.package) = some r ∧
      (r.found.definition? n).isSome = true := by
  cases hr : loads.flatten.find? fun r => r.found.ref.path == n.package with
  | none =>
    have hnone : w.registry.packages.contains n.package = false := by
      rw [Table.contains, hw.unregistered _ hr]
      rfl
    simp [Registry.Catalogues, hnone]
  | some r =>
    obtain ⟨u, hu⟩ := hw.registered _ r hdot hr
    have hpath : r.found.ref.path = n.package := by simpa using List.find?_some hr
    have hpasses := (hw.sound r (List.mem_of_find?_eq_some hr)).passes
    rw [hw.stocked.catalogues_iff hpasses hpath.symm hu]
    simp

theorem not_catalogues_of_placeholder (hw : Gathered loads w) {n : TypeName} (hdot : n.package = placeholderPath) :
    ¬ w.registry.Catalogues n := by
  rintro ⟨hregistered, -⟩
  rw [hdot, hw.contains_placeholder] at hregistered
  cases hregistered

/-- **What a run of loads gathers,** if each of them succeeds. -/
theorem run {ops : List Operation} (hw : Gathered loads w) (hops : ∀ op ∈ ops, op.isLoad = true)
    (hok : w.Succeeds ops) : Gathered (loads ++ ops.map Operation.readings) (w.run ops) := by
  induction ops generalizing loads w with
  | nil => rwa [List.map_nil, List.append_nil]
  | cons op ops ih =>
    obtain ⟨hfirst, hrest⟩ := hok
    obtain ⟨hsound, heq⟩ := perform_eq_loadReadings (hops op List.mem_cons_self) hw.isOpen hfirst
    have hstep := hw.loadReadings hsound
    rw [← heq] at hstep
    have hall := ih hstep (fun op' h => hops op' (List.mem_cons_of_mem op h)) hrest
    rwa [List.append_assoc, List.singleton_append] at hall

end Gathered

/-! ## Defined and catalogued -/

/-- Whether all exports of a path that operations find in one directory are the same. -/
def ReadsOnce (ops : List Operation) (path : String) : Prop :=
  ∀ r ∈ ops.flatMap Operation.readings, r.found.ref.path = path → ∀ e ∈ r.batch, e.ref.path = path → e = r.found

/-- **A name is defined exactly if it is catalogued.**  Let loads into an empty registry succeed one after the other, and let
no directory that they read have two exports of the path of a name, which is not the predeclared one.  If the path is that
of a package, the name is then defined if its package is registered and the name is a key of exactly one of the catalogs of
aggregates, interfaces and named types.  If the path is no package, the name is never catalogued, but defined if the first
export of the path that one of the loads reads defines it. -/
theorem contains_iff_of_run (hw : w.registry = .empty) {ops : List Operation} (hops : ∀ op ∈ ops, op.isLoad = true)
    (hok : w.Succeeds ops) {n : TypeName} (hn : n ≠ ⟨"", "error"⟩) (honce : ReadsOnce ops n.package) :
    (n.package ≠ placeholderPath →
      ((w.run ops).registry.types.contains n = true ↔ (w.run ops).registry.Catalogues n)) ∧
    (n.package = placeholderPath → ¬ (w.run ops).registry.Catalogues n ∧
      ((w.run ops).registry.types.contains n = true ↔ ∃ op ∈ ops, ∃ r,
        op.readings.find? (fun r => r.found.ref.path == n.package) = some r ∧
          (r.found.definition? n).isSome = true)) := by
  have hgathered := (gathered_nil hw).run hops hok
  rw [List.nil_append] at hgathered
  have hinitial : Universe.initial.lookup n = none := by
    rw [Universe.initial, Universe.lookup_define, if_neg hn]
    rfl
  -- An export of the path says alone what its directory says.
  have halone : ∀ r ∈ ops.flatMap Operation.readings, r.found.ref.path = n.package →
      definitionIn r.batch n = r.found.definition? n := by
    intro r hr hpath
    have hsound := hgathered.sound r (List.flatMap_def ▸ hr)
    exact definitionIn_of_unique (honce r hr hpath) hsound.found_mem
  constructor
  · intro hdot
    rw [hgathered.contains_iff hdot hinitial, hgathered.catalogues_iff hdot, ← List.flatMap_def]
    refine exists_congr fun r => and_congr_right fun hr => ?_
    rw [halone r (List.mem_of_find?_eq_some hr) (by simpa using List.find?_some hr)]
  · intro hdot
    have hmeaning : ∀ op ∈ ops, ∀ r, op.readings.find? (fun r => r.found.ref.path == n.package) = some r →
        r.meaning n = r.found.definition? n := by
      intro op hop r hr
      have hmem : r ∈ ops.flatMap Operation.readings := List.mem_flatMap.2 ⟨op, hop, List.mem_of_find?_eq_some hr⟩
      rw [Reading.meaning, hinitial, Option.or_none, halone r hmem (by simpa using List.find?_some hr)]
    refine ⟨hgathered.not_catalogues_of_placeholder hdot, (hgathered.placeholder n hdot).trans ⟨?_, ?_⟩⟩
    · rintro ⟨rs, hrs, r, hr, hsome⟩
      obtain ⟨op, hop, rfl⟩ := List.mem_map.1 hrs
      exact ⟨op, hop, r, hr, hmeaning op hop r hr ▸ hsome⟩
    · rintro ⟨op, hop, r, hr, hsome⟩
      exact ⟨_, List.mem_map_of_mem hop, r, hr, hmeaning op hop r hr ▸ hsome⟩

/-- `Square` is defined, so it is catalogued. -/
theorem square_catalogued :
    Succeeds ⟨.empty, .empty, 0⟩ [.load shapeTree ⟨["a", "b"], [], false⟩] ∧
      ReadsOnce [.load shapeTree ⟨["a", "b"], [], false⟩] "shape" ∧
      (run ⟨.empty, .empty, 0⟩ [.load shapeTree ⟨["a", "b"], [], false⟩]).registry.types.contains ⟨"shape", "Square"⟩ =
        true ∧
      (run ⟨.empty, .empty, 0⟩ [.load shapeTree ⟨["a", "b"], [], false⟩]).registry.Catalogues ⟨"shape", "Square"⟩ := by
  have hload := load_eq (w := ⟨.empty, .empty, 0⟩) rfl fun root hroot => shapeTree_admits hroot
  rw [shapeTree_readings] at hload
  have hok : Succeeds ⟨.empty, .empty, 0⟩ [.load shapeTree ⟨["a", "b"], [], false⟩] := by
    refine ⟨?_, trivial⟩
    rw [perform, hload]
    decide +kernel
  have hdefined : (run ⟨.empty, .empty, 0⟩ [.load shapeTree ⟨["a", "b"], [], false⟩]).registry.types.contains
      ⟨"shape", "Square"⟩ = true := by
    rw [run_cons, perform, hload]
    decide +kernel
  have honce : ReadsOnce [.load shapeTree ⟨["a", "b"], [], false⟩] "shape" := by
    intro r hr _ e he _
    rw [List.flatMap_singleton, Operation.readings, shapeTree_readings] at hr
    have hsingle : ∀ r ∈ ([⟨shapes, [shapes]⟩, ⟨sizes, [sizes]⟩] : List Reading), r.batch = [r.found] := by
      decide +kernel
    rw [hsingle r hr] at he
    exact List.mem_singleton.1 he
  obtain ⟨hiff, -⟩ := contains_iff_of_run (w := ⟨.empty, .empty, 0⟩) rfl
    (fun op hop => by rw [List.mem_singleton.1 hop]; rfl) hok (n := ⟨"shape", "Square"⟩) (by decide) honce
  exact ⟨hok, honce, hdefined, (hiff (by decide)).1 hdefined⟩

/-- An export whose path is no package. -/
def unplaced : PackageExport where
  ref := ⟨".", "x"⟩
  imports := []
  decls := [.type "T" .unknown (.struct []) [] false]
  errors := []

/-- A directory with that export. -/
def unplacedTree : FileTree := ⟨.dir [("d", .dir [("x.symbols.json", unplaced.file)])], []⟩

/-- **What is no package can be defined.**  The load succeeds and the type is defined, but its path is not registered. -/
theorem unplaced_defined :
    Succeeds ⟨.empty, .empty, 0⟩ [.load unplacedTree ⟨["d"], [], false⟩] ∧
      (run ⟨.empty, .empty, 0⟩ [.load unplacedTree ⟨["d"], [], false⟩]).registry.types.contains ⟨".", "T"⟩ = true ∧
      (run ⟨.empty, .empty, 0⟩ [.load unplacedTree ⟨["d"], [], false⟩]).registry.packages.contains "." = false := by
  have hd : unplacedTree.HoldsOnly "d" unplaced := .of_written rfl (by decide +kernel) (by decide +kernel)
  have hreadings : LoadRequest.readings ⟨["d"], [], false⟩ unplacedTree = [⟨unplaced, [unplaced]⟩] := by
    simp [LoadRequest.readings_flat, hd.readings]
  have hadmits : ∀ root ∈ ["d"], LoadRequest.Admits ⟨["d"], [], false⟩ unplacedTree root := by
    intro root hroot
    rw [List.mem_singleton.1 hroot]
    exact LoadRequest.admits_flat hd.passes _ _
  have hload : load unplacedTree ⟨["d"], [], false⟩ ⟨.empty, .empty, 0⟩ =
      loadReadings ⟨.empty, .empty, 0⟩ [⟨unplaced, [unplaced]⟩] := by
    rw [load_eq rfl hadmits, hreadings]
  refine ⟨⟨?_, trivial⟩, ?_, ?_⟩
  · rw [perform, hload]
    decide +kernel
  · rw [run_cons, perform, hload]
    decide +kernel
  · rw [run_cons, perform, hload]
    decide +kernel

end Workspace

end TypeAtlas
