import TypeAtlas.Proofs.Directories
import TypeAtlas.Registry.Load

/-!
# What the directories of a load leave behind

A load visits the directories of its roots in order.  It succeeds exactly if every root can be walked and every directory
passes its check (`LoadRequest.Admits`), whatever the registry holds before (`Loading.visitEach_visitRoot_eq`,
`Loading.admits_of_visitEach`).

What the visits leave is told by the exports alone, in the order in which they are read (`Loading.Took`).

* The packages that wait are those of the exports with a new path, each path once: the first export counts
  (`introduced`).
* A name of a new path stands for what the directory of that first export says, all its exports together.  Any other
  name stands for what it stood for before (`handedOver`).
-/

namespace TypeAtlas

/-! ## Exports with a new path -/

/-- The exports whose path is neither known nor that of an earlier export. -/
def introduced (known : String → Bool) : List PackageExport → List PackageExport
  | [] => []
  | e :: es =>
    if known e.ref.path then introduced known es
    else e :: introduced (fun p => known p || e.ref.path == p) es

/-- Whether a path is known once exports are read. -/
def knownAfter (known : String → Bool) (es : List PackageExport) (path : String) : Bool :=
  known path || es.any fun e => e.ref.path == path

theorem introduced_append (known : String → Bool) (es fs : List PackageExport) :
    introduced known (es ++ fs) = introduced known es ++ introduced (knownAfter known es) fs := by
  induction es generalizing known with
  | nil =>
    rw [List.nil_append, introduced, List.nil_append]
    congr 1
    funext p
    exact (Bool.or_false _).symm
  | cons e es ih =>
    have hknown : knownAfter known (e :: es) = knownAfter (fun p => known p || e.ref.path == p) es := by
      funext p
      exact (Bool.or_assoc ..).symm
    rw [List.cons_append, introduced, introduced, hknown]
    split
    case isTrue h =>
      rw [ih]
      congr 3
      funext p
      by_cases hp : e.ref.path = p
      · rw [← hp, h, Bool.true_or]
      · rw [beq_eq_false_iff_ne.2 hp, Bool.or_false]
    case isFalse h => rw [ih, List.cons_append]

/-- **Of the exports with a new path, the first one counts.** -/
theorem find?_introduced (known : String → Bool) (path : String) (es : List PackageExport) :
    (introduced known es).find? (fun e => e.ref.path == path) =
      if known path then none else es.find? fun e => e.ref.path == path := by
  induction es generalizing known with
  | nil => exact (ite_self _).symm
  | cons e es ih =>
    rw [introduced]
    by_cases hp : e.ref.path = path
    · subst hp
      split
      case isTrue h => rw [ih, if_pos h]
      case isFalse h => simp
    · rw [List.find?_cons_of_neg (by simpa using hp)]
      split
      · exact ih known
      · rw [List.find?_cons_of_neg (by simpa using hp), ih, beq_eq_false_iff_ne.2 hp, Bool.or_false]

theorem any_introduced (known : String → Bool) (path : String) (es : List PackageExport) :
    ((introduced known es).any fun e => e.ref.path == path) = (!known path && es.any fun e => e.ref.path == path) := by
  rw [← List.isSome_find?, find?_introduced, ← List.isSome_find?]
  cases known path <;> rfl

theorem known_of_mem_introduced {known : String → Bool} {es : List PackageExport} {e : PackageExport}
    (h : e ∈ introduced known es) : known e.ref.path = false := by
  have hany : ((introduced known es).any fun f => f.ref.path == e.ref.path) = true :=
    List.any_eq_true.2 ⟨e, h, beq_iff_eq.2 rfl⟩
  rw [any_introduced] at hany
  simpa using (Bool.and_eq_true_iff.1 hany).1

/-- What is introduced is among the exports. -/
theorem mem_of_mem_introduced {known : String → Bool} {es : List PackageExport} {e : PackageExport}
    (h : e ∈ introduced known es) : e ∈ es := by
  induction es generalizing known with
  | nil => cases h
  | cons d es ih =>
    rw [introduced] at h
    split at h
    · exact List.mem_cons_of_mem d (ih h)
    · rcases List.mem_cons.1 h with rfl | h
      · exact List.mem_cons_self
      · exact List.mem_cons_of_mem d (ih h)

/-- No path is introduced twice. -/
theorem pairwise_introduced (known : String → Bool) (es : List PackageExport) :
    (introduced known es).Pairwise fun e f => e.ref.path ≠ f.ref.path := by
  induction es generalizing known with
  | nil => exact .nil
  | cons e es ih =>
    rw [introduced]
    split
    · exact ih known
    · refine List.pairwise_cons.2 ⟨fun f hf hp => ?_, ih _⟩
      have hknown := known_of_mem_introduced hf
      simp [hp] at hknown

/-! ## What readings hand over -/

/-- An export as it is read: the exports of its directory are checked into one universe. -/
structure Reading where
  found : PackageExport
  /-- All exports of the directory, in order. -/
  batch : List PackageExport
deriving DecidableEq

/-- The universe of the directory. -/
def Reading.universe (r : Reading) : Universe := checkedUniverse r.batch

/-- What a name stands for in the universe of the directory. -/
def Reading.meaning (r : Reading) (n : TypeName) : Option Definition :=
  (definitionIn r.batch n).or (Universe.initial.lookup n)

/-- The exports of a directory as they are read. -/
def FileTree.readings (tree : FileTree) (dir : String) : List Reading :=
  (tree.exportsIn dir).map fun e => ⟨e, tree.exportsIn dir⟩

/-- Whether a directory passes its check and has one export only. -/
structure FileTree.HoldsOnly (tree : FileTree) (dir : String) (e : PackageExport) : Prop where
  exports : tree.exportsIn dir = [e]
  readings : tree.readings dir = [⟨e, [e]⟩]
  passes : ∃ r, (checkExports tree dir).result = .ok r

/-- **A directory holds the one export that is written there.** -/
theorem FileTree.HoldsOnly.of_written {tree : FileTree} {dir name : String} {e : PackageExport}
    (hlist : tree.list dir = .ok [(name, e.file)]) (hname : isExportName name = true) (he : e.Loadable) :
    tree.HoldsOnly dir e := by
  obtain ⟨hfiles, hpasses⟩ : tree.exportFiles dir = [(name, e)] ∧ ∃ r, (checkExports tree dir).result = .ok r := by
    refine exportFiles_of_written hlist fun f hf => ?_
    rw [List.mem_singleton.1 hf]
    exact ⟨hname, he⟩
  have hexports : tree.exportsIn dir = [e] := by rw [exportsIn, hfiles]; rfl
  exact ⟨hexports, by rw [FileTree.readings, hexports]; rfl, hpasses⟩

/-- The universe of a directory that passes its check is what its exports say. -/
theorem Reading.lookup_universe {tree : FileTree} {dir : String} (h : ∃ r, (checkExports tree dir).result = .ok r)
    {r : Reading} (hr : r ∈ tree.readings dir) (n : TypeName) : r.universe.lookup n = r.meaning n := by
  obtain ⟨e, -, rfl⟩ := List.mem_map.1 hr
  obtain ⟨⟨pkgs, v⟩, hcheck⟩ := h
  exact lookup_foldl_check (checkExports_eq_ok hcheck).1 .initial n

/-- What readings hand over for a name: the first one of its package counts.  A package that is known hands over
nothing. -/
def handedOver (known : String → Bool) (rs : List Reading) (n : TypeName) : Option Definition :=
  if known n.package then none
  else (rs.find? fun r => r.found.ref.path == n.package).bind fun r => r.meaning n

/-- Later readings count for the packages that the earlier ones do not have. -/
theorem handedOver_append (known : String → Bool) (rs ss : List Reading) (n : TypeName) :
    handedOver known (rs ++ ss) n =
      (handedOver (knownAfter known (rs.map Reading.found)) ss n).or (handedOver known rs n) := by
  have hany : ((rs.map Reading.found).any fun e => e.ref.path == n.package) =
      (rs.find? fun r => r.found.ref.path == n.package).isSome := by
    rw [List.any_map, List.isSome_find?]
    rfl
  unfold handedOver knownAfter
  rw [hany, List.find?_append]
  cases known n.package with
  | true => rfl
  | false => cases rs.find? fun r => r.found.ref.path == n.package <;> simp

/-- A run of one visit is that visit. -/
theorem visitEach_singleton {σ ε : Type} (visit : String → σ → Except ε Unit × σ) (dir : String) (s : σ) :
    visitEach visit [dir] s = visit dir s := by
  rw [visitEach]
  split
  case h_1 hm => exact hm.symm
  case h_2 hm => exact hm.symm

/-- Visits go on with further directories unless they failed before. -/
theorem visitEach_append {σ ε : Type} (visit : String → σ → Except ε Unit × σ) (more : List String) :
    ∀ (dirs : List String) (s : σ), visitEach visit (dirs ++ more) s =
      match visitEach visit dirs s with
      | (.ok (), s) => visitEach visit more s
      | (.error e, s) => (.error e, s)
  | [], s => rfl
  | dir :: dirs, s => by
    rw [List.cons_append, visitEach, visitEach]
    split
    · exact visitEach_append visit more dirs _
    · rfl

namespace Loading

/-- A load with more files counted. -/
def counting (l : Loading) (k : Nat) : Loading :=
  { l with workspace := { l.workspace with filesRead := l.workspace.filesRead + k } }

/-- Take one export as it is read. -/
def take (l : Loading) (r : Reading) : Loading := (l.enqueue r.universe r.found.package).counting 1

theorem enqueue_counting (l : Loading) (k : Nat) (v : Universe) (pkg : CheckedPackage) :
    (l.counting k).enqueue v pkg = (l.enqueue v pkg).counting k := by
  unfold enqueue
  change (if l.knows pkg.ref.path then _ else _) = _
  split <;> rfl

/-- The exports of one directory are taken in order. -/
theorem foldl_enqueue_eq (batch : List PackageExport) :
    ∀ (es : List PackageExport) (l : Loading),
      (es.map PackageExport.package).foldl (fun l pkg => l.enqueue (checkedUniverse batch) pkg) (l.counting es.length) =
        (es.map fun e => ⟨e, batch⟩).foldl take l
  | [], l => rfl
  | e :: es, l => by
    rw [List.map_cons, List.foldl_cons, List.map_cons, List.foldl_cons, ← foldl_enqueue_eq batch es, enqueue_counting,
      List.length_cons, Nat.add_comm]
    rw [take, counting, counting, counting]
    simp only [Nat.add_assoc]
    rfl

/-- What a load has become once it took readings. -/
structure Took (rs : List Reading) (l l' : Loading) : Prop where
  pending : l'.pending = l.pending ++ (introduced l.knows (rs.map Reading.found)).map PackageExport.package
  lookup : ∀ n, l'.workspace.registry.types.lookup n =
    (handedOver l.knows rs n).or (l.workspace.registry.types.lookup n)
  registry : l'.workspace.registry = { l.workspace.registry with types := l'.workspace.registry.types }
  ledger : l'.workspace.ledger = l.workspace.ledger

namespace Took

variable {l l' l'' : Loading} {rs ss : List Reading}

/-- The paths that are known afterwards. -/
theorem knows (h : Took rs l l') : l'.knows = knownAfter l.knows (rs.map Reading.found) := by
  funext p
  have hpackages : l'.workspace.registry.packages = l.workspace.registry.packages := by rw [h.registry]
  have hnew : ((introduced l.knows (rs.map Reading.found)).map PackageExport.package).any (fun pkg => pkg.ref.path == p) =
      (!l.knows p && (rs.map Reading.found).any fun e => e.ref.path == p) := by
    rw [List.any_map]
    exact any_introduced l.knows p (rs.map Reading.found)
  rw [Loading.knows, hpackages, h.pending, List.any_append, ← Bool.or_assoc, hnew, knownAfter]
  change (l.knows p || _) = _
  cases l.knows p <;> simp

/-- Of the workspace only the universe and the count of files change. -/
theorem workspace (h : Took rs l l') : l'.workspace =
    ⟨{ l.workspace.registry with types := l'.workspace.registry.types }, l.workspace.ledger, l'.workspace.filesRead⟩ := by
  rw [← h.registry, ← h.ledger]

theorem nil (l : Loading) : Took [] l l where
  pending := (List.append_nil _).symm
  lookup n := by simp [handedOver]
  registry := rfl
  ledger := rfl

/-- **Readings can be taken in two runs.** -/
theorem append (h : Took rs l l') (h' : Took ss l' l'') : Took (rs ++ ss) l l'' where
  pending := by
    rw [h'.pending, h.pending, h.knows, List.map_append, introduced_append, List.map_append, List.append_assoc]
  lookup n := by rw [h'.lookup, h.lookup, h.knows, handedOver_append, Option.or_assoc]
  registry := by rw [h'.registry, h.registry]
  ledger := h'.ledger.trans h.ledger

/-- Counting files is no matter for what is taken. -/
theorem counting (h : Took rs l l') (k : Nat) : Took rs l (l'.counting k) :=
  ⟨h.pending, h.lookup, h.registry, h.ledger⟩

/-- **One export is taken:** its package waits if its path is new, and then hands over its names. -/
theorem take (l : Loading) {r : Reading} (hr : ∀ n, r.universe.lookup n = r.meaning n) : Took [r] l (l.take r) := by
  refine counting ?_ 1
  unfold enqueue
  change Took [r] l (if l.knows r.found.ref.path then l else _)
  split
  case isTrue hk =>
    refine ⟨by simp [introduced, hk], fun n => ?_, rfl, rfl⟩
    by_cases hn : r.found.ref.path = n.package
    · simp [handedOver, ← hn, hk]
    · simp [handedOver, hn]
  case isFalse hk =>
    refine ⟨by simp [introduced, hk], fun n => ?_, rfl, rfl⟩
    change (l.workspace.registry.types.adopt r.universe r.found.ref.path).lookup n = _
    rw [Universe.lookup_adopt, handedOver]
    by_cases hn : n.package = r.found.ref.path
    · simp [hn, hk, hr]
    · simp [hn, Ne.symm hn]

/-- **Exports are taken in order.** -/
theorem takeAll (l : Loading) (h : ∀ r ∈ rs, ∀ n, r.universe.lookup n = r.meaning n) :
    Took rs l (rs.foldl Loading.take l) := by
  induction rs generalizing l with
  | nil => exact nil l
  | cons r rs ih =>
    exact (take l (h r List.mem_cons_self)).append (ih (l.take r) fun s hs => h s (List.mem_cons_of_mem r hs))

/-- Directories that pass their check are taken in order. -/
theorem directories {tree : FileTree} {dirs : List String} (l : Loading)
    (h : ∀ dir ∈ dirs, ∃ r, (checkExports tree dir).result = .ok r) :
    Took (dirs.flatMap tree.readings) l ((dirs.flatMap tree.readings).foldl Loading.take l) := by
  refine takeAll l fun r hr n => ?_
  obtain ⟨dir, hdir, hr⟩ := List.mem_flatMap.1 hr
  exact Reading.lookup_universe (h dir hdir) hr n

end Took

/-- Before anything is read, the registered packages are known. -/
theorem knows_start (w : Workspace) : knows ⟨w, []⟩ = w.registry.packages.contains := by
  funext path
  exact Bool.or_false _

/-! ## Visits -/

section Runs

variable {visitOne : String → Loading → Except RegistryError Unit × Loading} {Admitted : String → Prop}
  {readings : String → List Reading}

/-- Visits that each succeed and take readings do so one after the other. -/
theorem visitEach_eq (hvisit : ∀ dir l, Admitted dir → visitOne dir l = (.ok (), (readings dir).foldl take l)) :
    ∀ {dirs : List String} (l : Loading), (∀ dir ∈ dirs, Admitted dir) →
      visitEach visitOne dirs l = (.ok (), (dirs.flatMap readings).foldl take l)
  | [], l, _ => rfl
  | dir :: dirs, l, h => by
    rw [visitEach, hvisit dir l (h dir List.mem_cons_self), List.flatMap_cons, List.foldl_append]
    exact visitEach_eq hvisit _ fun d hd => h d (List.mem_cons_of_mem dir hd)

/-- A run of visits that succeeds consists of visits that do. -/
theorem admitted_of_visitEach (hvisit : ∀ dir l l', visitOne dir l = (.ok (), l') → Admitted dir) :
    ∀ {dirs : List String} {l l' : Loading}, visitEach visitOne dirs l = (.ok (), l') → ∀ dir ∈ dirs, Admitted dir
  | [], _, _, _, _, hd => absurd hd List.not_mem_nil
  | dir :: dirs, l, l', h, d, hd => by
    rw [visitEach] at h
    split at h
    case h_1 m hm =>
      rcases List.mem_cons.1 hd with rfl | hd
      · exact hvisit d l m hm
      · exact admitted_of_visitEach hvisit h d hd
    case h_2 => cases h

end Runs

/-- A directory that passes its check is visited with success, and its exports are taken. -/
theorem visit_eq {tree : FileTree} (dir : String) (l : Loading) (h : ∃ r, (checkExports tree dir).result = .ok r) :
    l.visit tree dir = (.ok (), (tree.readings dir).foldl take l) := by
  obtain ⟨⟨pkgs, v⟩, h⟩ := h
  obtain ⟨-, rfl, rfl, hread⟩ := checkExports_eq_ok h
  rw [visit]
  dsimp only
  rw [h, hread]
  exact congrArg (Prod.mk _) (foldl_enqueue_eq _ _ l)

theorem isOk_of_visit {tree : FileTree} (dir : String) (l l' : Loading) (h : l.visit tree dir = (.ok (), l')) :
    ∃ r, (checkExports tree dir).result = .ok r := by
  rw [visit] at h
  dsimp only at h
  split at h
  · cases h
  case h_2 hr => exact ⟨_, hr⟩

end Loading

/-! ## Roots -/

namespace LoadRequest

/-- The directories of a root, in order. -/
def directoriesOf (o : LoadRequest) (tree : FileTree) (root : String) : Except FileError (List String) :=
  if o.recursive then tree.walk (Exclusions.excludes ⟨o.ignored⟩) root else .ok [root]

/-- Whether a root can be walked and its directories pass their check. -/
def Admits (o : LoadRequest) (tree : FileTree) (root : String) : Prop :=
  ∃ dirs, o.directoriesOf tree root = .ok dirs ∧ ∀ dir ∈ dirs, ∃ r, (checkExports tree dir).result = .ok r

/-- The directories of all roots, in order, as far as the roots can be walked. -/
def directories (o : LoadRequest) (tree : FileTree) : List String :=
  o.roots.flatMap fun root => (o.directoriesOf tree root).toOption.getD []

/-- The exports of all directories as they are read. -/
def readings (o : LoadRequest) (tree : FileTree) : List Reading := (o.directories tree).flatMap tree.readings

/-- The directories of roots that are admitted pass their check. -/
theorem isOk_of_mem_directories {o : LoadRequest} {tree : FileTree} (h : ∀ root ∈ o.roots, o.Admits tree root)
    {dir : String} (hdir : dir ∈ o.directories tree) : ∃ r, (checkExports tree dir).result = .ok r := by
  obtain ⟨root, hroot, hdir⟩ := List.mem_flatMap.1 hdir
  obtain ⟨dirs, hdirs, hok⟩ := h root hroot
  rw [hdirs] at hdir
  exact hok dir hdir

/-- A load that does not go below its roots reads the exports of the roots. -/
theorem readings_flat (tree : FileTree) (roots ignored : List String) :
    readings ⟨roots, ignored, false⟩ tree = roots.flatMap tree.readings := by
  simp [readings, directories, directoriesOf, Except.toOption]

/-- Such a load admits a root that passes its check. -/
theorem admits_flat {tree : FileTree} {root : String} (h : ∃ r, (checkExports tree root).result = .ok r)
    (roots ignored : List String) : Admits ⟨roots, ignored, false⟩ tree root := by
  refine ⟨[root], rfl, fun dir hdir => ?_⟩
  rw [List.mem_singleton.1 hdir]
  exact h

end LoadRequest

namespace Loading

variable {o : LoadRequest} {tree : FileTree}

theorem visitRoot_eq (root : String) (l : Loading) :
    l.visitRoot tree o root =
      match o.directoriesOf tree root with
      | .ok dirs => visitEach (visit tree) dirs l
      | .error e => (.error (.traversal root e), l) := by
  unfold visitRoot LoadRequest.directoriesOf
  split
  · rfl
  · exact (visitEach_singleton (visit tree) root l).symm

/-- A root that is admitted is visited with success, and its exports are taken. -/
theorem visitRoot_of_admits (root : String) (l : Loading) (h : o.Admits tree root) :
    l.visitRoot tree o root =
      (.ok (), (((o.directoriesOf tree root).toOption.getD []).flatMap tree.readings).foldl take l) := by
  obtain ⟨dirs, hdirs, h⟩ := h
  rw [visitRoot_eq, hdirs]
  exact visitEach_eq visit_eq l h

theorem admits_of_visitRoot (root : String) (l l' : Loading) (h : l.visitRoot tree o root = (.ok (), l')) :
    o.Admits tree root := by
  rw [visitRoot_eq] at h
  split at h
  case h_1 dirs hdirs => exact ⟨dirs, hdirs, admitted_of_visitEach isOk_of_visit h⟩
  case h_2 => cases h

/-- **The roots are visited with success only if each of them is admitted.** -/
theorem admits_of_visitEach {l l' : Loading} (h : visitEach (visitRoot tree o) o.roots l = (.ok (), l')) :
    ∀ root ∈ o.roots, o.Admits tree root :=
  admitted_of_visitEach admits_of_visitRoot h

/-- **If each root is admitted, all their exports are taken in order.** -/
theorem visitEach_visitRoot_eq (h : ∀ root ∈ o.roots, o.Admits tree root) (l : Loading) :
    visitEach (visitRoot tree o) o.roots l = (.ok (), (o.readings tree).foldl take l) := by
  rw [LoadRequest.readings, LoadRequest.directories, List.flatMap_assoc]
  exact visitEach_eq visitRoot_of_admits l h

end Loading

end TypeAtlas
