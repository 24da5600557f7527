import TypeAtlas.Proofs.ImplementsRelation
import TypeAtlas.Proofs.Locality

/-!
# Loading directories one by one

Directories can be loaded together, or one by one.  Loaded one by one, a package is extracted as soon as its directory is
checked, in a universe that lacks the packages of the directories to come.  That makes no difference if the directories
come in the order of dependence: no definition mentions a name of a package that first appears in a later directory
(`FileTree.RefersBack`).

The reason is that the definitions which arrive later are out of reach for the packages that are there.  So an extracted
package is what would be extracted in the larger universe (`Universe.AgreesOn.extract_eq`), and after each directory the
workspace is the one that a load of all directories so far would give (`Workspace.Loaded.loadDirectory`).
-/

namespace TypeAtlas

/-! ## What exports mention -/

/-- The names that a top-level type declaration mentions, in the type and in the signatures of the methods.  Other
declarations are not looked at when entities are extracted; an alias keeps its target as it is written. -/
def Declaration.mentions : Declaration → List TypeName
  | type _ _ t methods false => t.names ++ methods.flatMap (·.signature.names)
  | _ => []

/-- The names that the definitions of an export mention. -/
def PackageExport.mentions (e : PackageExport) : List TypeName := e.decls.flatMap Declaration.mentions

theorem PackageExport.mem_mentions {e : PackageExport} {n m : TypeName} {d : Definition} (h : e.definition? n = some d)
    (hm : m ∈ d.names) : m ∈ e.mentions := by
  obtain ⟨decl, hdecl, hd⟩ := List.exists_of_findSome?_eq_some h
  refine List.mem_flatMap.2 ⟨decl, List.mem_reverse.1 hdecl, ?_⟩
  unfold Declaration.definition? at hd
  split at hd
  · split at hd
    · cases hd
      exact hm
    · cases hd
  · cases hd

/-- The predeclared type mentions no name. -/
theorem Universe.names_of_lookup_initial {n : TypeName} {d : Definition} (h : initial.lookup n = some d) :
    d.names = [] := by
  rw [initial, lookup_define] at h
  split at h
  · cases h
    rfl
  · cases h

/-- The package paths of the exports of directories. -/
def FileTree.pathsIn (tree : FileTree) (dirs : List String) : List String :=
  (dirs.flatMap tree.exportsIn).map fun e => e.ref.path

/-- Whether directories come in the order of dependence: no export mentions a name of a package that first appears in a
later directory. -/
def FileTree.RefersBack (tree : FileTree) (dirs : List String) : Prop :=
  ∀ before after, dirs = before ++ after → ∀ e ∈ before.flatMap tree.exportsIn, ∀ m ∈ e.mentions,
    m.package ∈ tree.pathsIn after → m.package ∈ tree.pathsIn before

theorem FileTree.map_found_readings (tree : FileTree) (dirs : List String) :
    (dirs.flatMap tree.readings).map Reading.found = dirs.flatMap tree.exportsIn := by
  simp [FileTree.readings, List.map_flatMap, Function.comp_def]

theorem FileTree.mem_pathsIn {tree : FileTree} {dirs : List String} {path : String} :
    path ∈ tree.pathsIn dirs ↔ ∃ r ∈ dirs.flatMap tree.readings, r.found.ref.path = path := by
  rw [pathsIn, ← map_found_readings]
  simp

namespace Workspace

variable {tree : FileTree} {done : List String} {dir : String} {w : Workspace}

/-! ## One more directory -/

/-- The packages of a load are those of its exports. -/
theorem Loaded.contains_packages {u : Universe} {rs : List Reading} (hw : Loaded u rs w)
    (hdot : ∀ r ∈ rs, r.found.ref.path ≠ placeholderPath) :
    w.registry.packages.contains = knownAfter (fun _ => false) (rs.map Reading.found) := by
  funext path
  have hany : ((rs.map Reading.found).any fun e => e.ref.path == path) =
      (rs.find? fun r => r.found.ref.path == path).isSome := by
    rw [List.any_map, List.isSome_find?]
    rfl
  rw [knownAfter, Bool.false_or, hany, Table.contains, hw.packages]
  split
  case isTrue hpath =>
    have hnone : (rs.find? fun r => r.found.ref.path == path) = none :=
      List.find?_eq_none.2 fun r hr => by simpa [hpath] using hdot r hr
    rw [hnone]
    rfl
  case isFalse => rw [Option.isSome_map]

/-- A registered package comes from an export that was loaded. -/
theorem Loaded.exists_reading {u : Universe} {rs : List Reading} (hw : Loaded u rs w) {path : String} {p : Package}
    (hp : w.registry.packages.get? path = some p) :
    ∃ r ∈ rs, r.found.ref.path = path ∧ p = Package.extract r.found.package.outline w.registry.types := by
  rw [hw.packages] at hp
  split at hp
  · cases hp
  · obtain ⟨r, hr, rfl⟩ := Option.map_eq_some_iff.1 hp
    exact ⟨r, List.mem_of_find?_eq_some hr, by simpa using List.find?_some hr, rfl⟩

/-- The universe can be replaced if the packages would be extracted alike in the new one. -/
theorem Ready.withTypes (hw : w.Ready) {u : Universe} {files : Nat}
    (h : ∀ path p, w.registry.packages.get? path = some p →
      ∃ e : PackageExport, e.ref.path = path ∧ p = Package.extract e.package.outline u) :
    Ready ⟨{ w.registry with types := u }, w.ledger, files⟩ where
  isOpen := hw.isOpen
  coherent := ⟨hw.coherent.toCatalogued.retype u _, h⟩
  numbered := ⟨hw.numbered.numbered, hw.numbered.different, hw.numbered.issued, hw.numbered.unresolved⟩

/-- **The directory to come defines nothing within reach of the packages that are there.** -/
theorem Loaded.agreesOn (hw : Loaded .initial (done.flatMap tree.readings) w) {u : Universe}
    (hu : ∀ n, u.lookup n = (handedOver (knownAfter (fun _ => false) (done.flatMap tree.exportsIn))
      (tree.readings dir) n).or (w.registry.types.lookup n))
    (hback : ∀ e ∈ done.flatMap tree.exportsIn, ∀ m ∈ e.mentions,
      m.package ∈ tree.pathsIn [dir] → m.package ∈ tree.pathsIn done) :
    w.registry.types.AgreesOn (fun n => n.package ∈ tree.pathsIn [dir] → n.package ∈ tree.pathsIn done) u where
  same n hn := by
    have hnone : handedOver (knownAfter (fun _ => false) (done.flatMap tree.exportsIn)) (tree.readings dir) n = none := by
      unfold handedOver
      split
      · rfl
      case isFalse hknown =>
        have hdone : n.package ∉ tree.pathsIn done := by
          intro hmem
          obtain ⟨e, he, hpath⟩ := List.mem_map.1 hmem
          exact hknown (List.any_eq_true.2 ⟨e, he, beq_iff_eq.2 hpath⟩)
        have hfind : ((tree.readings dir).find? fun r => r.found.ref.path == n.package) = none := by
          refine List.find?_eq_none.2 fun r hr hpath => hdone (hn (FileTree.mem_pathsIn.2 ⟨r, ?_, beq_iff_eq.1 hpath⟩))
          exact List.mem_flatMap.2 ⟨dir, List.mem_cons_self, hr⟩
        rw [hfind]
        rfl
    rw [hu, hnone, Option.none_or]
  closed n d _ hd m hm := by
    -- A definition is predeclared, or comes from an export of a directory that is there.
    have hinitial : ∀ {x}, Universe.initial.lookup n = some x → d = x → False := by
      rintro x hx rfl
      rw [Universe.names_of_lookup_initial hx] at hm
      cases hm
    rw [hw.lookup, Option.or_eq_some_iff] at hd
    rcases hd with hd | ⟨-, hd⟩
    · rw [handedOver, if_neg Bool.false_ne_true] at hd
      obtain ⟨r, hr, hd⟩ := Option.bind_eq_some_iff.1 hd
      rw [Reading.meaning, Option.or_eq_some_iff] at hd
      rcases hd with hd | ⟨-, hd⟩
      · obtain ⟨e, he, hde⟩ := List.exists_of_findSome?_eq_some hd
        obtain ⟨b, hb, hr⟩ := List.mem_flatMap.1 (List.mem_of_find?_eq_some hr)
        obtain ⟨f, -, rfl⟩ := List.mem_map.1 hr
        exact hback e (List.mem_flatMap.2 ⟨b, hb, List.mem_reverse.1 he⟩) m (PackageExport.mem_mentions hde hm)
      · exact (hinitial hd rfl).elim
    · exact (hinitial hd rfl).elim

/-- **Loading one more directory gives what a load of all directories so far gives,** if nothing that is there mentions a
name of a package that first appears in the new directory. -/
theorem Loaded.loadDirectory (hw : Loaded .initial (done.flatMap tree.readings) w)
    (hok : ∃ r, (checkExports tree dir).result = .ok r)
    (hdot : ∀ e ∈ done.flatMap tree.exportsIn, e.ref.path ≠ placeholderPath)
    (hback : ∀ e ∈ done.flatMap tree.exportsIn, ∀ m ∈ e.mentions,
      m.package ∈ tree.pathsIn [dir] → m.package ∈ tree.pathsIn done) :
    ∃ w', w.loadDirectory tree dir = (.ok (), w') ∧ Loaded .initial ((done ++ [dir]).flatMap tree.readings) w' := by
  have hopen := hw.ready.isOpen
  -- What is registered are the packages of the directories so far, so these are the ones to be skipped.
  have hknows : Loading.knows ⟨w, []⟩ = knownAfter (fun _ => false) (done.flatMap tree.exportsIn) := by
    rw [Loading.knows_start, hw.contains_packages fun r hr => ?_, tree.map_found_readings]
    exact hdot r.found (tree.map_found_readings done ▸ List.mem_map_of_mem hr)
  have htook : Loading.Took (tree.readings dir) ⟨w, []⟩ ((tree.readings dir).foldl Loading.take ⟨w, []⟩) :=
    .takeAll ⟨w, []⟩ fun r hr n => Reading.lookup_universe hok hr n
  generalize hl : (tree.readings dir).foldl Loading.take ⟨w, []⟩ = l at htook
  have hlookup := htook.lookup
  rw [hknows] at hlookup
  -- The packages that are there would be extracted alike in the larger universe.
  have hextract : ∀ r ∈ done.flatMap tree.readings,
      Package.extract r.found.package.outline w.registry.types =
        Package.extract r.found.package.outline l.workspace.registry.types := by
    intro r hr
    refine ((hw.agreesOn hlookup hback).extract_eq fun o hbinds hkind n hn _ => ?_).symm
    rw [PackageExport.type_of_binds hbinds hkind] at hn
    rw [List.mem_singleton.1 hn]
    exact FileTree.mem_pathsIn.2 ⟨r, hr, rfl⟩
  have hready : l.workspace.Ready := by
    rw [htook.workspace]
    refine hw.ready.withTypes fun path p hp => ?_
    obtain ⟨r, hr, hpath, rfl⟩ := hw.exists_reading hp
    exact ⟨r.found, hpath, hextract r hr⟩
  obtain ⟨w', hw', hready', htypes, hpackages⟩ := registerAll_of_took hopen htook
  refine ⟨w', ?_, hready' hready, fun n => ?_, fun path => ?_⟩
  · rw [loadDirectory_eq hopen hok, loadReadings, hl]
    exact hw'
  · rw [htypes, hlookup, hw.lookup, List.flatMap_append, List.flatMap_singleton, handedOver_append, Option.or_assoc,
      tree.map_found_readings]
  · rw [hpackages, htypes, hw.packages, List.flatMap_append, List.flatMap_singleton, List.find?_append]
    split
    · rfl
    · cases hr : (done.flatMap tree.readings).find? fun r => r.found.ref.path == path with
      | none => rfl
      | some r => exact congrArg some (hextract r (List.mem_of_find?_eq_some hr))

/-! ## All directories -/

/-- **After each directory the workspace is the one that a load of all directories so far gives.** -/
theorem Loaded.loadDirectories {dirs : List String} (hw : Loaded .initial (done.flatMap tree.readings) w)
    (hok : ∀ dir ∈ dirs, ∃ r, (checkExports tree dir).result = .ok r)
    (hdot : ∀ e ∈ (done ++ dirs).flatMap tree.exportsIn, e.ref.path ≠ placeholderPath)
    (hback : tree.RefersBack (done ++ dirs)) :
    ∃ w', visitEach (Workspace.loadDirectory tree) dirs w = (.ok (), w') ∧
      Loaded .initial ((done ++ dirs).flatMap tree.readings) w' := by
  induction dirs generalizing done w with
  | nil => exact ⟨w, rfl, by rwa [List.append_nil]⟩
  | cons dir dirs ih =>
    obtain ⟨m, hm, hloaded⟩ := hw.loadDirectory (hok dir List.mem_cons_self)
      (fun e he => hdot e (by rw [List.flatMap_append]; exact List.mem_append_left _ he))
      (fun e he m hm hdir => hback done (dir :: dirs) rfl e he m hm (by
        obtain ⟨f, hf, hpath⟩ := List.mem_map.1 hdir
        refine List.mem_map.2 ⟨f, ?_, hpath⟩
        rw [List.flatMap_singleton] at hf
        exact List.mem_append_left _ hf))
    rw [← List.singleton_append, ← List.append_assoc] at hdot hback ⊢
    obtain ⟨w', hw', hloaded'⟩ := ih hloaded (fun d hd => hok d (List.mem_cons_of_mem dir hd)) hdot hback
    refine ⟨w', ?_, hloaded'⟩
    rw [List.singleton_append, visitEach, hm]
    exact hw'

/-- **Loading directories one by one, in the order of dependence, is loading them together.**  Let directories pass their
check, without an export of the placeholder path, and let no definition mention a name of a package that first appears
in a later directory.  Then both ways of loading them into an empty registry succeed and agree in the universe, the
packages and the entities, and give the same answers once they are finalized. -/
theorem load_directories_in_turn {tree : FileTree} {dirs : List String}
    (hok : ∀ dir ∈ dirs, ∃ r, (checkExports tree dir).result = .ok r)
    (hdot : ∀ e ∈ dirs.flatMap tree.exportsIn, e.ref.path ≠ placeholderPath) (hback : tree.RefersBack dirs)
    (ignored : List String) {w : Workspace} (hw : w.registry = .empty) :
    ∃ v v', visitEach (loadDirectory tree) dirs w = (.ok (), v) ∧ w.load tree ⟨dirs, ignored, false⟩ = (.ok (), v') ∧
      v.SameAnswers v' := by
  have hdirs : LoadRequest.directories ⟨dirs, ignored, false⟩ tree = dirs := by
    simp [LoadRequest.directories, LoadRequest.directoriesOf, Except.toOption]
  have hadmits : ∀ root ∈ dirs, LoadRequest.Admits ⟨dirs, ignored, false⟩ tree root := by
    refine fun root hroot => ⟨[root], rfl, fun dir hdir => ?_⟩
    rw [List.mem_singleton.1 hdir]
    exact hok root hroot
  have hstart : Loaded .initial (([] : List String).flatMap tree.readings) w := loaded_nil hw
  obtain ⟨v, hv, hloaded⟩ := hstart.loadDirectories hok hdot hback
  obtain ⟨v', hv', hloaded'⟩ := loaded_of_admits (o := ⟨dirs, ignored, false⟩) hw hadmits
  rw [LoadRequest.readings, hdirs] at hloaded'
  refine ⟨v, v', hv, hv', hloaded.sameAnswers hloaded' (Universe.ext_lookup fun n => ?_) fun path => rfl⟩
  rw [hloaded.lookup, hloaded'.lookup]
  rfl

/-- The interface that `Square` implements can be loaded first, and then `Square`. -/
theorem shapeTree_in_turn :
    shapeTree.RefersBack ["b", "a"] ∧
      ∃ v v', visitEach (loadDirectory shapeTree) ["b", "a"] ⟨.empty, .empty, 0⟩ = (.ok (), v) ∧
        load shapeTree ⟨["b", "a"], [], false⟩ ⟨.empty, .empty, 0⟩ = (.ok (), v') ∧ v.SameAnswers v' := by
  have hexports : ["b", "a"].flatMap shapeTree.exportsIn = [sizes, shapes] := by
    simp [shapeTree_a.exports, shapeTree_b.exports]
  have hback : shapeTree.RefersBack ["b", "a"] := by
    intro before after hdirs e he m hm _
    have hmem : e ∈ [sizes, shapes] := by
      rw [← hexports, hdirs, List.flatMap_append]
      exact List.mem_append_left _ he
    have hsize : ∀ e ∈ [sizes, shapes], ∀ m ∈ e.mentions, m.package = "size" := by decide +kernel
    cases before with
    | nil => cases he
    | cons dir before =>
      obtain rfl : "b" = dir := (List.cons.inj hdirs).1
      rw [hsize e hmem m hm, FileTree.pathsIn, List.flatMap_cons, shapeTree_b.exports]
      exact List.mem_cons_self
  refine ⟨hback, load_directories_in_turn (fun dir hdir => ?_) ?_ hback [] rfl⟩
  · rcases List.mem_cons.1 hdir with rfl | hdir
    · exact shapeTree_b.passes
    · rw [List.mem_singleton.1 hdir]
      exact shapeTree_a.passes
  · rw [hexports]
    decide +kernel

end Workspace

end TypeAtlas
