import TypeAtlas.Proofs.Lifecycle

/-!
# How a load comes out

A load is refused by a closed registry, or it stops at a root or a directory, or all its directories are checked.  In the
last case the packages that wait are registered.  Registering a package can fail, but not here: the packages that wait have
different paths, of which none is registered (`Loading.Took.nodup_pending`, `Loading.Took.contains_pending`), and this is so
across all directories and roots, and where a directory has several exports of one path.  So each of them is registered once,
except the one of the path that is no package (`Workspace.Registers`).

Loading one directory either fails in its check, before anything is handed over, or succeeds.  So it leaves the registry as
it was (`Workspace.loadDirectory_of_error`) or registers all that the directory has to add.
-/

namespace TypeAtlas

/-- Errors that only registering a package, closing the registry or asking for what an aggregate implements can give. -/
def RegistryError.isRegistration : RegistryError → Bool
  | load .. | traversal .. | finalized .. => false
  | duplicatePackage .. | alreadyFinalized | unresolved .. => true

theorem LoadRequest.Stops.isRegistration {o : LoadRequest} {tree : FileTree} {done : List String} {e : RegistryError}
    (h : o.Stops tree done e) : e.isRegistration = false := by
  cases h <;> rfl

namespace Loading

variable {w : Workspace} {l : Loading} {rs : List Reading}

theorem Took.pending_start (h : Took rs ⟨w, []⟩ l) :
    l.pending = (introduced w.registry.packages.contains (rs.map Reading.found)).map PackageExport.package := by
  rw [h.pending, knows_start]
  rfl

/-- **Packages that wait have different paths.** -/
theorem Took.nodup_pending (h : Took rs ⟨w, []⟩ l) : (l.pending.map fun pkg => pkg.ref.path).Nodup := by
  rw [h.pending_start, List.map_map]
  exact List.pairwise_map.2 (pairwise_introduced _ _)

/-- **Packages that wait are not registered.** -/
theorem Took.contains_pending (h : Took rs ⟨w, []⟩ l) :
    ∀ pkg ∈ l.pending, w.registry.packages.contains pkg.ref.path = false := by
  intro pkg hpkg
  rw [h.pending_start] at hpkg
  obtain ⟨e, he, rfl⟩ := List.mem_map.1 hpkg
  exact known_of_mem_introduced he

end Loading

namespace Workspace

variable {w w' : Workspace} {tree : FileTree} {o : LoadRequest}

/-- What registering the packages of a queue makes of a workspace. -/
structure Registers (w : Workspace) (queue : List CheckedPackage) (w' : Workspace) : Prop where
  different : (queue.map fun pkg => pkg.ref.path).Nodup
  new : ∀ pkg ∈ queue, w.registry.packages.contains pkg.ref.path = false
  /-- A path leads to its package, extracted in the universe of the registry. -/
  registered : ∀ pkg ∈ queue, pkg.ref.path ≠ placeholderPath →
    w'.registry.packages.get? pkg.ref.path = some (Package.extract pkg.outline w'.registry.types)
  kept : ∀ path p, w.registry.packages.get? path = some p → w'.registry.packages.get? path = some p
  /-- Every package of the queue adds one path, except what is no package. -/
  once : w'.registry.packages.keys.Perm
    (w.registry.packages.keys ++ (queue.map fun pkg => pkg.ref.path).filter fun path => decide (path ≠ placeholderPath))

/-- The paths that are registered afterwards, each once. -/
theorem Registers.of_get? {queue : List CheckedPackage} (hdiff : (queue.map fun pkg => pkg.ref.path).Nodup)
    (hnew : ∀ pkg ∈ queue, w.registry.packages.contains pkg.ref.path = false)
    (hget : ∀ path, w'.registry.packages.get? path = (w.registry.packages.get? path).or
      (if path = placeholderPath then none
        else (queue.find? fun pkg => decide (pkg.ref.path = path)).map fun pkg =>
          Package.extract pkg.outline w'.registry.types)) : w.Registers queue w' where
  different := hdiff
  new := hnew
  registered pkg hpkg hpath := by
    have hnone : w.registry.packages.get? pkg.ref.path = none := by simpa [Table.contains] using hnew pkg hpkg
    rw [hget, hnone, Option.none_or, if_neg hpath, (find?_eq_some_iff_of_nodup hdiff).2 ⟨hpkg, rfl⟩]
    rfl
  kept path p hp := by
    rw [hget, hp]
    rfl
  once := by
    have hkeys : ∀ t : Table String Package, t.keys.Nodup := fun t =>
      t.pairwise_keys.imp fun hlt heq => Std.ne_of_lt (compareOfLessAndEq_eq_lt.1 hlt) heq
    refine (List.perm_ext_iff_of_nodup (hkeys _) (List.nodup_append.2 ⟨hkeys _, hdiff.filter _, ?_⟩)).2 fun path => ?_
    · intro path hpath path' hpath' heq
      obtain ⟨pkg, hpkg, rfl⟩ := List.mem_map.1 (List.mem_filter.1 hpath').1
      rw [heq, Table.mem_keys_iff, hnew pkg hpkg] at hpath
      cases hpath
    · rw [List.mem_append, Table.mem_keys_iff, Table.mem_keys_iff, Table.contains, Table.contains, hget, Option.isSome_or,
        Bool.or_eq_true, List.mem_filter, decide_eq_true_eq]
      refine or_congr_right ?_
      by_cases hdot : path = placeholderPath
      · simp [hdot]
      · rw [if_neg hdot, Option.isSome_map, List.find?_isSome]
        simp [hdot]

/-- **What waits once all directories are checked is registered.** -/
theorem exists_registers (hopen : w.registry.finalized = false) {rs : List Reading} {l : Loading}
    (h : Loading.Took rs ⟨w, []⟩ l) :
    ∃ w', l.workspace.registerAll l.pending = (.ok (), w') ∧ w.Registers l.pending w' := by
  have hpackages : l.workspace.registry.packages = w.registry.packages := by rw [h.registry]
  have hnew : ∀ e ∈ introduced w.registry.packages.contains (rs.map Reading.found),
      l.workspace.registry.packages.get? e.ref.path = none := by
    intro e he
    rw [hpackages]
    simpa [Table.contains] using known_of_mem_introduced he
  obtain ⟨w', hw', htypes, hget⟩ := registerAll_eq_ok (w := l.workspace) (by rw [h.registry, hopen])
    (pairwise_introduced _ (rs.map Reading.found)) hnew
  rw [← h.pending_start] at hw'
  refine ⟨w', hw', .of_get? h.nodup_pending h.contains_pending fun path => ?_⟩
  rw [hget, hpackages, htypes, h.pending_start, List.find?_map, Option.map_map]
  rfl

/-- How an operation comes out that checks directories first and then registers what it found. -/
structure RegistersChecked (w : Workspace) (checked : Except RegistryError Unit × Loading)
    (outcome : Except RegistryError Unit × Workspace) : Prop where
  /-- It is never the registration that fails. -/
  sound : ∀ e, outcome.1 = .error e → e.isRegistration = false
  /-- If nothing is wrong with the directories, the operation succeeds. -/
  registers : w.registry.finalized = false → ∀ l, checked = (.ok (), l) →
    ∃ w', outcome = (.ok (), w') ∧ w.Registers l.pending w'

theorem registersChecked_load (tree : FileTree) (o : LoadRequest) (w : Workspace) :
    w.RegistersChecked (visitEach (Loading.visitRoot tree o) o.roots ⟨w, []⟩) (w.load tree o) := by
  obtain ⟨rs, htook⟩ := Loading.exists_took tree o ⟨w, []⟩
  cases hfinal : w.registry.finalized with
  | true =>
    rw [load, if_pos hfinal]
    exact ⟨fun e he => by cases he; rfl, fun hopen => by rw [hfinal] at hopen; cases hopen⟩
  | false =>
    rw [load, if_neg (Bool.eq_false_iff.1 hfinal)]
    rcases hchecked : visitEach (Loading.visitRoot tree o) o.roots ⟨w, []⟩ with ⟨e | ⟨⟩, l⟩
    · obtain ⟨done, k, hstops, -⟩ := Loading.visitEach_visitRoot_eq_error hchecked
      refine ⟨fun e' he' => ?_, fun _ l' hl' => by cases hl'⟩
      cases he'
      exact hstops.isRegistration
    · rw [hchecked] at htook
      obtain ⟨w', hw', hregisters⟩ := exists_registers hfinal htook
      refine ⟨fun e he => ?_, fun _ l' hl' => ?_⟩
      · rw [registerFound, hw'] at he
        cases he
      · cases hl'
        exact ⟨w', hw', hregisters⟩

/-- **A directory that is refused leaves the registry as it was,** since nothing is handed over before the check is done. -/
theorem loadDirectory_of_error {dir : String} {e : RegistryError} (h : (w.loadDirectory tree dir).1 = .error e) :
    (w.loadDirectory tree dir).2.registry = w.registry ∧ (w.loadDirectory tree dir).2.ledger = w.ledger := by
  cases hfinal : w.registry.finalized with
  | true =>
    rw [loadDirectory, if_pos hfinal]
    exact ⟨rfl, rfl⟩
  | false =>
    have hregisters := (registersChecked_load tree ⟨[dir], [], false⟩ w).registers hfinal
    rw [← loadDirectory_eq_load, visitEach_singleton] at hregisters
    rcases hchecked : Loading.visit tree dir ⟨w, []⟩ with ⟨f | ⟨⟩, l⟩
    · obtain ⟨cause, k, -, -, rfl⟩ := Loading.visit_eq_error hchecked
      rw [loadDirectory, if_neg (Bool.eq_false_iff.1 hfinal), hchecked]
      exact ⟨rfl, rfl⟩
    · obtain ⟨w', hw', -⟩ := hregisters l hchecked
      rw [hw'] at h
      cases h

/-- **Registration never fails.**  A load and the load of one directory return errors of the directories and roots, or are
refused by a closed registry; they never find a package registered that waits.  Once all directories are checked, every
package that waits is registered once, except what is no package.  If one directory is loaded without success, then the
registry is as it was, its universe included. -/
theorem registration_succeeds (tree : FileTree) (o : LoadRequest) (dir : String) (w : Workspace) :
    w.RegistersChecked (visitEach (Loading.visitRoot tree o) o.roots ⟨w, []⟩) (w.load tree o) ∧
      w.RegistersChecked (Loading.visit tree dir ⟨w, []⟩) (w.loadDirectory tree dir) ∧
      ∀ e, (w.loadDirectory tree dir).1 = .error e →
        (w.loadDirectory tree dir).2.registry = w.registry ∧ (w.loadDirectory tree dir).2.ledger = w.ledger := by
  refine ⟨registersChecked_load tree o w, ?_, fun e he => loadDirectory_of_error he⟩
  have hsingle := registersChecked_load tree ⟨[dir], [], false⟩ w
  rw [visitEach_singleton] at hsingle
  rw [loadDirectory_eq_load]
  exact hsingle

/-- A directory that is named twice is checked twice, and its package is registered once. -/
theorem shapeTree_registers :
    ∃ l w', visitEach (Loading.visitRoot shapeTree ⟨["a", "b", "a"], [], false⟩) ["a", "b", "a"] ⟨⟨.empty, .empty, 0⟩, []⟩ =
        (.ok (), l) ∧
      load shapeTree ⟨["a", "b", "a"], [], false⟩ ⟨.empty, .empty, 0⟩ = (.ok (), w') ∧
      w'.registry.packages.keys.Perm ["shape", "size"] := by
  have hadmits : ∀ root ∈ ["a", "b", "a"], LoadRequest.Admits ⟨["a", "b", "a"], [], false⟩ shapeTree root := by
    intro root hroot
    refine LoadRequest.admits_flat ?_ _ _
    simp only [List.mem_cons, List.not_mem_nil, or_false] at hroot
    rcases hroot with rfl | rfl | rfl
    exacts [shapeTree_a.passes, shapeTree_b.passes, shapeTree_a.passes]
  have hreadings : LoadRequest.readings ⟨["a", "b", "a"], [], false⟩ shapeTree =
      [⟨shapes, [shapes]⟩, ⟨sizes, [sizes]⟩, ⟨shapes, [shapes]⟩] := by
    simp [LoadRequest.readings_flat, shapeTree_a.readings, shapeTree_b.readings]
  have hchecked := Loading.visitEach_visitRoot_eq (o := ⟨["a", "b", "a"], [], false⟩) hadmits ⟨⟨.empty, .empty, 0⟩, []⟩
  rw [hreadings] at hchecked
  obtain ⟨w', hw', hregisters⟩ :=
    (registration_succeeds shapeTree ⟨["a", "b", "a"], [], false⟩ "a" ⟨.empty, .empty, 0⟩).1.registers rfl _ hchecked
  exact ⟨_, w', hchecked, hw', hregisters.once⟩

end Workspace

end TypeAtlas
