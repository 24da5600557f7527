import TypeAtlas.Proofs.Lifecycle

/-!
# Loading twice is loading once

A load that succeeds can be made again, and the registry stays as it is; nor does it matter if a load comes to the same
directories by further roots (`Workspace.load_idempotent`).

* Within one load, an export whose path is registered or waits already changes nothing but the count of files
  (`Loading.foldl_take_of_knows`).
* After a load, the paths that were read are registered, so a second load finds nothing new.  The exception is what is no
  package: it is never registered, so it waits once more and hands over its definitions again.  But these are the ones
  that it handed over before, and nothing is registered for it (`Workspace.loadReadings_again`).
-/

namespace TypeAtlas

/-! ## Directories that are read again -/

namespace FileTree

variable {tree : FileTree} {d d' : String}

/-- Paths that lead to the same place have the same exports to be read. -/
theorem readings_of_resolve_eq (h : tree.resolve d = tree.resolve d') : tree.readings d = tree.readings d' := by
  unfold readings exportsIn exportFiles list
  rw [h]

/-- If one of them passes its check, so does the other. -/
theorem isOk_of_resolve_eq (h : tree.resolve d = tree.resolve d') (hok : ∃ r, (checkExports tree d').result = .ok r) :
    ∃ r, (checkExports tree d).result = .ok r := by
  rw [checkExports_isOk_iff] at hok ⊢
  unfold list at hok ⊢
  rwa [h]

end FileTree

namespace LoadRequest

/-- The request with further roots after its own. -/
def withRoots (o : LoadRequest) (more : List String) : LoadRequest := { o with roots := o.roots ++ more }

/-- Whether a root can be walked and leads only to directories that are visited anyway, maybe by other paths. -/
def Revisits (o : LoadRequest) (tree : FileTree) (root : String) : Prop :=
  ∃ dirs, o.directoriesOf tree root = .ok dirs ∧ ∀ dir ∈ dirs, ∃ d ∈ o.directories tree, tree.resolve dir = tree.resolve d

variable {o : LoadRequest} {tree : FileTree} {more : List String}

/-- Such a root is admitted if the others are. -/
theorem Revisits.admits {root : String} (h : o.Revisits tree root) (hadmits : ∀ r ∈ o.roots, o.Admits tree r) :
    o.Admits tree root := by
  obtain ⟨dirs, hdirs, hd⟩ := h
  refine ⟨dirs, hdirs, fun dir hdir => ?_⟩
  obtain ⟨d, hvisited, hresolve⟩ := hd dir hdir
  exact FileTree.isOk_of_resolve_eq hresolve (isOk_of_mem_directories hadmits hvisited)

/-- **What is read by such roots is read anyway.** -/
theorem readings_withRoots (h : ∀ root ∈ more, o.Revisits tree root) :
    ∃ rs, (o.withRoots more).readings tree = o.readings tree ++ rs ∧ ∀ r ∈ rs, r ∈ o.readings tree := by
  refine ⟨{ o with roots := more }.readings tree, ?_, fun r hr => ?_⟩
  · unfold readings directories withRoots
    rw [List.flatMap_append, List.flatMap_append]
    rfl
  · obtain ⟨dir, hdir, hr⟩ := List.mem_flatMap.1 hr
    obtain ⟨root, hroot, hdir⟩ := List.mem_flatMap.1 hdir
    obtain ⟨dirs, hdirs, hd⟩ := h root hroot
    have hdir : dir ∈ (o.directoriesOf tree root).toOption.getD [] := hdir
    rw [hdirs] at hdir
    obtain ⟨d, hvisited, hresolve⟩ := hd dir hdir
    rw [FileTree.readings_of_resolve_eq hresolve] at hr
    exact List.mem_flatMap.2 ⟨d, hvisited, hr⟩

end LoadRequest

/-! ## Exports that are known -/

namespace Loading

/-- An export whose path is known only counts. -/
theorem take_of_knows {l : Loading} {r : Reading} (h : l.knows r.found.ref.path = true) : l.take r = l.counting 1 := by
  have henqueue : l.enqueue r.universe r.found.package = l := if_pos h
  rw [take, henqueue]

/-- **Exports whose paths are known only count.** -/
theorem foldl_take_of_knows {rs : List Reading} (l : Loading) (h : ∀ r ∈ rs, l.knows r.found.ref.path = true) :
    rs.foldl take l = l.counting rs.length := by
  induction rs generalizing l with
  | nil => rfl
  | cons r rs ih =>
    rw [List.foldl_cons, take_of_knows (h r List.mem_cons_self),
      ih (l.counting 1) fun s hs => h s (List.mem_cons_of_mem r hs), List.length_cons, Nat.add_comm]
    simp only [counting, Nat.add_assoc]

end Loading

namespace Workspace

variable {w v : Workspace} {rs : List Reading}

/-- How many files were read is no matter for what is registered. -/
theorem registerAll_counted (files : Nat) : ∀ (pkgs : List CheckedPackage) (w : Workspace),
    registerAll { w with filesRead := files } pkgs =
      ((w.registerAll pkgs).1, { (w.registerAll pkgs).2 with filesRead := files })
  | [], w => rfl
  | pkg :: pkgs, w => by
    rw [registerAll, registerAll]
    dsimp only
    split
    · rfl
    case h_2 r hr => exact registerAll_counted files pkgs { w with registry := r, ledger := w.ledger.advance }

/-- **What is no package leaves the registry as it is.** -/
theorem registerAll_placeholders : ∀ (pkgs : List CheckedPackage) (w : Workspace),
    (∀ pkg ∈ pkgs, pkg.ref.path = placeholderPath) →
    ∃ w', w.registerAll pkgs = (.ok (), w') ∧ w'.registry = w.registry
  | [], w, _ => ⟨w, rfl, rfl⟩
  | pkg :: pkgs, w, h => by
    have hadd : w.registry.add w.ledger.next (Package.extract pkg.outline w.registry.types) = .ok w.registry :=
      if_pos (h pkg List.mem_cons_self)
    rw [registerAll_cons hadd]
    exact registerAll_placeholders pkgs _ fun p hp => h p (List.mem_cons_of_mem pkg hp)

/-- **A path that was loaded is registered,** if it is that of a package. -/
theorem contains_of_loadReadings (hopen : w.registry.finalized = false)
    (hrs : ∀ r ∈ rs, ∀ n, r.universe.lookup n = r.meaning n) (h : w.loadReadings rs = (.ok (), v)) {r : Reading}
    (hr : r ∈ rs) (hpath : r.found.ref.path ≠ placeholderPath) :
    v.registry.packages.contains r.found.ref.path = true := by
  obtain ⟨v', hv', -, -, hpackages⟩ := registerAll_of_took hopen (Loading.Took.takeAll ⟨w, []⟩ hrs)
  obtain rfl : v' = v := congrArg Prod.snd (hv'.symm.trans h)
  have hfind : (rs.find? fun s => s.found.ref.path == r.found.ref.path).isSome = true :=
    List.find?_isSome.2 ⟨r, hr, beq_iff_eq.2 rfl⟩
  rw [Table.contains, hpackages, if_neg hpath, Option.isSome_or, Option.isSome_map, hfind, Bool.or_true]

/-- **Exports that are loaded hand over nothing new if they are loaded again.** -/
theorem lookup_of_loadReadings (hopen : w.registry.finalized = false)
    (hrs : ∀ r ∈ rs, ∀ n, r.universe.lookup n = r.meaning n) (h : w.loadReadings rs = (.ok (), v)) (n : TypeName) :
    (handedOver v.registry.packages.contains rs n).or (v.registry.types.lookup n) = v.registry.types.lookup n := by
  have htook := Loading.Took.takeAll ⟨w, []⟩ hrs
  obtain ⟨v', hv', -, htypes, hpackages⟩ := registerAll_of_took hopen htook
  obtain rfl : v' = v := congrArg Prod.snd (hv'.symm.trans h)
  cases hknown : v'.registry.packages.contains n.package with
  | true =>
    rw [handedOver, hknown, if_pos rfl, Option.none_or]
  | false =>
    -- The package was not registered before either, so its definitions are those that were handed over then.
    have hbefore : w.registry.packages.contains n.package = false := by
      rw [Table.contains, hpackages, Option.isSome_or, Bool.or_eq_false_iff] at hknown
      exact hknown.1
    have hsame : handedOver v'.registry.packages.contains rs n = handedOver w.registry.packages.contains rs n := by
      rw [handedOver, handedOver, hknown, hbefore]
    rw [htypes, htook.lookup, Loading.knows_start, hsame, ← Option.or_assoc, Option.or_self]

/-- **Exports that are loaded can be loaded again, and the registry stays as it is.** -/
theorem loadReadings_again (hopen : w.registry.finalized = false)
    (hrs : ∀ r ∈ rs, ∀ n, r.universe.lookup n = r.meaning n) (h : w.loadReadings rs = (.ok (), v)) :
    ∃ v', v.loadReadings rs = (.ok (), v') ∧ v'.registry = v.registry := by
  have htook := Loading.Took.takeAll ⟨v, []⟩ hrs
  unfold loadReadings
  generalize rs.foldl Loading.take ⟨v, []⟩ = l at htook
  have htypes : l.workspace.registry.types = v.registry.types := Universe.ext_lookup fun n => by
    rw [htook.lookup, Loading.knows_start]
    exact lookup_of_loadReadings hopen hrs h n
  have hplaceholders : ∀ pkg ∈ l.pending, pkg.ref.path = placeholderPath := by
    intro pkg hpkg
    rw [htook.pending, Loading.knows_start] at hpkg
    obtain ⟨e, he, rfl⟩ := List.mem_map.1 hpkg
    obtain ⟨r, hr, rfl⟩ := List.mem_map.1 (mem_of_mem_introduced he)
    refine Decidable.byContradiction fun hpath => ?_
    have hknown := contains_of_loadReadings hopen hrs h hr hpath
    rw [known_of_mem_introduced he] at hknown
    cases hknown
  obtain ⟨v', hv', hregistry⟩ := registerAll_placeholders l.pending l.workspace hplaceholders
  exact ⟨v', hv', by rw [hregistry, htook.registry, htypes]⟩

/-- **Further roots that lead to the same directories change nothing,** whether the load succeeds or not. -/
theorem load_withRoots {tree : FileTree} {o : LoadRequest} {more : List String} (hopen : w.registry.finalized = false)
    (h : ∀ root ∈ more, o.Revisits tree root) :
    ∃ files, w.load tree (o.withRoots more) = ((w.load tree o).1, { (w.load tree o).2 with filesRead := files }) := by
  by_cases hadmits : ∀ root ∈ o.roots, o.Admits tree root
  · obtain ⟨rs, hrs, hread⟩ := LoadRequest.readings_withRoots h
    have hmore : ∀ root ∈ (o.withRoots more).roots, (o.withRoots more).Admits tree root := by
      intro root hroot
      rcases List.mem_append.1 hroot with hroot | hroot
      · exact hadmits root hroot
      · exact (h root hroot).admits hadmits
    have htook : Loading.Took (o.readings tree) ⟨w, []⟩ ((o.readings tree).foldl Loading.take ⟨w, []⟩) :=
      .directories ⟨w, []⟩ fun dir hdir => LoadRequest.isOk_of_mem_directories hadmits hdir
    rw [load_eq hopen hadmits, load_eq hopen hmore, hrs, loadReadings, loadReadings, List.foldl_append]
    generalize (o.readings tree).foldl Loading.take ⟨w, []⟩ = l at htook
    have hknown : ∀ r ∈ rs, l.knows r.found.ref.path = true := by
      intro r hr
      rw [htook.knows, knownAfter, Bool.or_eq_true]
      exact .inr (List.any_eq_true.2 ⟨r.found, List.mem_map_of_mem (hread r hr), beq_iff_eq.2 rfl⟩)
    rw [Loading.foldl_take_of_knows l hknown]
    exact ⟨_, registerAll_counted _ l.pending l.workspace⟩
  · -- The load fails before it comes to the further roots.
    obtain ⟨e, l, hfail⟩ : ∃ e l, visitEach (Loading.visitRoot tree o) o.roots ⟨w, []⟩ = (.error e, l) := by
      rcases hvisits : visitEach (Loading.visitRoot tree o) o.roots ⟨w, []⟩ with ⟨e | ⟨⟩, l⟩
      · exact ⟨e, l, rfl⟩
      · exact absurd (Loading.admits_of_visitEach hvisits) hadmits
    have hfail' : visitEach (Loading.visitRoot tree (o.withRoots more)) (o.roots ++ more) ⟨w, []⟩ = (.error e, l) := by
      change visitEach (Loading.visitRoot tree o) (o.roots ++ more) ⟨w, []⟩ = _
      rw [visitEach_append, hfail]
    refine ⟨l.workspace.filesRead, ?_⟩
    rw [load, load, hopen, if_neg Bool.false_ne_true, if_neg Bool.false_ne_true, hfail]
    exact congrArg registerFound hfail'

/-- **Loading is idempotent.**  A load that succeeds can be made again with success, and the registry stays as it is: the
universe, the packages and the catalogs.  And whether it succeeds or not, a load comes to the same end with further roots
that lead to directories which it visits anyway. -/
theorem load_idempotent (tree : FileTree) (o : LoadRequest) {w : Workspace} (hopen : w.registry.finalized = false) :
    (∀ v, w.load tree o = (.ok (), v) → ∃ v', v.load tree o = (.ok (), v') ∧ v'.registry = v.registry) ∧
      ∀ more, (∀ root ∈ more, o.Revisits tree root) →
        (w.load tree (o.withRoots more)).1 = (w.load tree o).1 ∧
          (w.load tree (o.withRoots more)).2.registry = (w.load tree o).2.registry := by
  refine ⟨fun v hv => ?_, fun more hmore => ?_⟩
  · have hadmits := admits_of_load hv
    have hrs : ∀ r ∈ o.readings tree, ∀ n, r.universe.lookup n = r.meaning n := by
      intro r hr n
      obtain ⟨dir, hdir, hr⟩ := List.mem_flatMap.1 hr
      exact Reading.lookup_universe (LoadRequest.isOk_of_mem_directories hadmits hdir) hr n
    have hopen' : v.registry.finalized = false := by
      have hfinal := finalized_load tree o w
      rwa [hv, hopen] at hfinal
    rw [load_eq hopen hadmits] at hv
    rw [load_eq hopen' hadmits]
    exact loadReadings_again hopen hrs hv
  · obtain ⟨files, hload⟩ := load_withRoots hopen hmore
    rw [hload]
    exact ⟨rfl, rfl⟩

/-- The two directories of `shapeTree` can be loaded twice, and also once more within one load by another path. -/
theorem shapeTree_reload :
    (∃ v v', load shapeTree ⟨["a", "b"], [], false⟩ ⟨.empty, .empty, 0⟩ = (.ok (), v) ∧
      v.load shapeTree ⟨["a", "b"], [], false⟩ = (.ok (), v') ∧ v'.registry = v.registry) ∧
    LoadRequest.Revisits ⟨["a", "b"], [], false⟩ shapeTree "./a" ∧
    (load shapeTree ⟨["a", "b", "./a"], [], false⟩ ⟨.empty, .empty, 0⟩).2.registry =
      (load shapeTree ⟨["a", "b"], [], false⟩ ⟨.empty, .empty, 0⟩).2.registry := by
  obtain ⟨htwice, hmore⟩ := load_idempotent shapeTree ⟨["a", "b"], [], false⟩ (w := ⟨.empty, .empty, 0⟩) rfl
  have hrevisits : LoadRequest.Revisits ⟨["a", "b"], [], false⟩ shapeTree "./a" := by
    refine ⟨["./a"], rfl, fun dir hdir => ⟨"a", List.mem_cons_self, ?_⟩⟩
    rw [List.mem_singleton.1 hdir]
    rfl
  obtain ⟨v, hv, -⟩ := loaded_of_admits (w := ⟨.empty, .empty, 0⟩) (o := ⟨["a", "b"], [], false⟩) rfl
    fun root hroot => shapeTree_admits hroot
  obtain ⟨v', hv', hregistry⟩ := htwice v hv
  have hroots : LoadRequest.withRoots ⟨["a", "b"], [], false⟩ ["./a"] = ⟨["a", "b", "./a"], [], false⟩ := rfl
  have hsame := (hmore ["./a"] fun root hroot => List.mem_singleton.1 hroot ▸ hrevisits).2
  rw [hroots] at hsame
  exact ⟨⟨v, v', hv, hv', hregistry⟩, hrevisits, hsame⟩

end Workspace

end TypeAtlas
