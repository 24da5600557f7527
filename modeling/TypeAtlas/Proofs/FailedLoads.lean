import TypeAtlas.Proofs.ImplementsRelation

/-!
# What a load that fails leaves behind

A load fails at a root that cannot be walked, or at a directory that does not pass its check; what comes after it is not
looked at (`LoadRequest.Stops`).  At that moment the directories before it are checked, and their packages wait to be
registered.

The packages are dropped, so the packages and the catalogs of the registry are as before, and so is the ledger.  But the
packages handed over their definitions as soon as their directory was checked, and these stay in the universe
(`Workspace.registry_of_load_error`).  A later load replaces them only if it reads the package again.
-/

namespace TypeAtlas

/-- A run of visits that fails has a first visit that does. -/
theorem exists_of_visitEach_eq_error {σ ε : Type} {visit : String → σ → Except ε Unit × σ} {e : ε} {s' : σ} :
    ∀ {dirs : List String} {s : σ}, visitEach visit dirs s = (.error e, s') →
      ∃ before dir after m, dirs = before ++ dir :: after ∧ visitEach visit before s = (.ok (), m) ∧
        visit dir m = (.error e, s')
  | [], s, h => by cases h
  | dir :: dirs, s, h => by
    rw [visitEach] at h
    split at h
    case h_1 m hm =>
      obtain ⟨before, d, after, m', rfl, hbefore, hd⟩ := exists_of_visitEach_eq_error h
      refine ⟨dir :: before, d, after, m', rfl, ?_, hd⟩
      rw [visitEach, hm]
      exact hbefore
    case h_2 f m hm =>
      cases h
      exact ⟨[], dir, dirs, s, rfl, rfl, hm⟩

/-- Where a load stops and why: the directories in the list pass their check, and what comes next does not. -/
inductive LoadRequest.Stops (o : LoadRequest) (tree : FileTree) : List String → RegistryError → Prop where
  /-- A root cannot be walked. -/
  | atRoot {before after : List String} {root : String} {cause : FileError} :
      o.roots = before ++ root :: after → (∀ r ∈ before, o.Admits tree r) → o.directoriesOf tree root = .error cause →
      Stops o tree ({ o with roots := before }.directories tree) (.traversal root cause)
  /-- A directory of a root does not pass its check. -/
  | atDirectory {before after dirs rest : List String} {root dir : String} {cause : ExportError} :
      o.roots = before ++ root :: after → (∀ r ∈ before, o.Admits tree r) →
      o.directoriesOf tree root = .ok (dirs ++ dir :: rest) →
      (∀ d ∈ dirs, ∃ r, (checkExports tree d).result = .ok r) → (checkExports tree dir).result = .error cause →
      Stops o tree ({ o with roots := before }.directories tree ++ dirs) (.load dir cause)

namespace LoadRequest

variable {o : LoadRequest} {tree : FileTree} {done : List String} {e : RegistryError}

/-- The directories before the one where a load stops pass their check. -/
theorem Stops.isOk (h : o.Stops tree done e) : ∀ dir ∈ done, ∃ r, (checkExports tree dir).result = .ok r := by
  intro dir hdir
  cases h with
  | @atRoot before after root cause _ hbefore _ =>
    exact isOk_of_mem_directories (o := { o with roots := before }) hbefore hdir
  | @atDirectory before after dirs rest root d cause _ hbefore _ hdirs _ =>
    rcases List.mem_append.1 hdir with hdir | hdir
    · exact isOk_of_mem_directories (o := { o with roots := before }) hbefore hdir
    · exact hdirs dir hdir

end LoadRequest

namespace Loading

variable {o : LoadRequest} {tree : FileTree} {e : RegistryError} {l l' : Loading}

/-- A visit that fails counts files, and nothing else happens. -/
theorem visit_eq_error {dir : String} (h : l.visit tree dir = (.error e, l')) :
    ∃ cause k, (checkExports tree dir).result = .error cause ∧ e = .load dir cause ∧ l' = l.counting k := by
  rw [visit] at h
  dsimp only at h
  split at h
  case h_1 cause hcause =>
    cases h
    exact ⟨cause, _, hcause, rfl, rfl⟩
  case h_2 => cases h

/-- **What the visits leave if one of them fails:** the directories before it are taken. -/
theorem visitEach_visitRoot_eq_error (h : visitEach (visitRoot tree o) o.roots l = (.error e, l')) :
    ∃ done k, o.Stops tree done e ∧ l' = ((done.flatMap tree.readings).foldl take l).counting k := by
  obtain ⟨before, root, after, m, hroots, hbefore, hroot⟩ := exists_of_visitEach_eq_error h
  have hadmits : ∀ r ∈ before, o.Admits tree r := admitted_of_visitEach admits_of_visitRoot hbefore
  -- The roots before are a load of their own.
  have hm : m = (({ o with roots := before }.directories tree).flatMap tree.readings).foldl take l :=
    congrArg Prod.snd (hbefore.symm.trans (visitEach_visitRoot_eq (o := { o with roots := before }) hadmits l))
  rw [visitRoot_eq] at hroot
  split at hroot
  case h_2 cause hcause =>
    cases hroot
    exact ⟨_, 0, .atRoot hroots hadmits hcause, hm⟩
  case h_1 dirs hdirs =>
    obtain ⟨ds, dir, rest, m', rfl, hds, hdir⟩ := exists_of_visitEach_eq_error hroot
    have hok : ∀ d ∈ ds, ∃ r, (checkExports tree d).result = .ok r := admitted_of_visitEach isOk_of_visit hds
    have hm' : m' = (ds.flatMap tree.readings).foldl take m :=
      congrArg Prod.snd (hds.symm.trans (visitEach_eq visit_eq m hok))
    obtain ⟨cause, k, hcause, rfl, rfl⟩ := visit_eq_error hdir
    refine ⟨_, k, .atDirectory hroots hadmits hdirs hok hcause, ?_⟩
    rw [hm', hm, List.flatMap_append, List.foldl_append]

/-- **The visits take directories that pass their check,** whether they succeed or not. -/
theorem exists_took (tree : FileTree) (o : LoadRequest) (l : Loading) :
    ∃ rs, Took rs l (visitEach (visitRoot tree o) o.roots l).2 := by
  rcases h : visitEach (visitRoot tree o) o.roots l with ⟨e | ⟨⟩, l'⟩
  · obtain ⟨done, k, hstops, rfl⟩ := visitEach_visitRoot_eq_error h
    exact ⟨_, (Took.directories l hstops.isOk).counting k⟩
  · have hadmits := admits_of_visitEach h
    have heq := congrArg Prod.snd (h.symm.trans (visitEach_visitRoot_eq hadmits l))
    rw [heq]
    exact ⟨_, Took.directories l fun dir hdir => LoadRequest.isOk_of_mem_directories hadmits hdir⟩

end Loading

namespace Workspace

variable {o : LoadRequest} {tree : FileTree} {e : RegistryError} {w v : Workspace}

/-- **What a load that fails leaves behind.**  A closed registry refuses the load, and nothing happens.  Otherwise the load
stops at a root or at a directory.  The ledger is as before, and of the registry only the universe may have changed: a name
of a package that was not registered stands for what the first directory with an export of the package says, among the
directories checked before the load stopped; any other name stands for what it stood for.  So the registry is as before
exactly if these directories say nothing new. -/
theorem registry_of_load_error (h : w.load tree o = (.error e, v)) :
    (w.registry.finalized = true ∧ e = .finalized (o.roots.head?.getD ".") ∧ v = w) ∨
      ∃ done, o.Stops tree done e ∧ v.ledger = w.ledger ∧
        v.registry = { w.registry with types := v.registry.types } ∧
        (∀ n, v.registry.types.lookup n =
          (handedOver w.registry.packages.contains (done.flatMap tree.readings) n).or (w.registry.types.lookup n)) ∧
        (v.registry = w.registry ↔
          ∀ n d, handedOver w.registry.packages.contains (done.flatMap tree.readings) n = some d →
            w.registry.types.lookup n = some d) := by
  unfold load at h
  split at h
  case isTrue hfinal =>
    cases h
    exact .inl ⟨hfinal, rfl, rfl⟩
  case isFalse hopen =>
    right
    unfold registerFound at h
    split at h
    case h_2 l hl =>
      -- What waits is registered with success, so the failure is not there.
      obtain ⟨rs, htook⟩ := Loading.exists_took tree o ⟨w, []⟩
      rw [hl] at htook
      obtain ⟨w', hw', -⟩ := registerAll_of_took (Bool.eq_false_iff.2 hopen) htook
      rw [hw'] at h
      cases h
    case h_1 f l hl =>
      cases h
      obtain ⟨done, k, hstops, rfl⟩ := Loading.visitEach_visitRoot_eq_error hl
      have htook := (Loading.Took.directories ⟨w, []⟩ hstops.isOk).counting k
      have hlookup := htook.lookup
      rw [Loading.knows_start] at hlookup
      refine ⟨done, hstops, htook.ledger, htook.registry, hlookup, fun hsame n d hd => ?_, fun hknown => ?_⟩
      · have hn := hlookup n
        rw [hd, hsame] at hn
        exact hn
      · rw [htook.registry]
        refine congrArg (fun types => { w.registry with types }) (Universe.ext_lookup fun n => ?_)
        rw [hlookup]
        cases hd : handedOver w.registry.packages.contains (done.flatMap tree.readings) n with
        | none => rfl
        | some d => exact (hknown n d hd).symm

/-- The workspace once the directory of `Square` is checked. -/
def squareTaken : Workspace := (Loading.take ⟨⟨.empty, .empty, 0⟩, []⟩ ⟨shapes, [shapes]⟩).workspace

/-- A load that goes on to a directory which is not there stops after the directory of `Square`. -/
theorem shapeTree_load_absent :
    load shapeTree ⟨["a", "absent"], [], false⟩ ⟨.empty, .empty, 0⟩ =
      (.error (.load "absent" (.unreadable "absent" .notFound)), squareTaken) := by
  have hcheck : checkExports shapeTree "absent" = ⟨.error (.unreadable "absent" .notFound), 0⟩ := rfl
  have hfirst : ∀ l, Loading.visitRoot shapeTree ⟨["a", "absent"], [], false⟩ "a" l =
      (.ok (), l.take ⟨shapes, [shapes]⟩) := by
    intro l
    rw [Loading.visitRoot, if_neg Bool.false_ne_true, Loading.visit_eq "a" l shapeTree_a.passes, shapeTree_a.readings,
      List.foldl_cons, List.foldl_nil]
  have hsecond : ∀ l, Loading.visitRoot shapeTree ⟨["a", "absent"], [], false⟩ "absent" l =
      (.error (.load "absent" (.unreadable "absent" .notFound)), l) := by
    intro l
    rw [Loading.visitRoot, if_neg Bool.false_ne_true, Loading.visit, hcheck]
    rfl
  have hopen : ¬ Registry.empty.finalized = true := Bool.false_ne_true
  rw [load, if_neg hopen, visitEach, hfirst]
  dsimp only
  rw [visitEach, hsecond, registerFound, squareTaken]

/-- The load fails, and nothing is registered, but `Square` is defined afterwards. -/
theorem square_survives_load_error :
    load shapeTree ⟨["a", "absent"], [], false⟩ ⟨.empty, .empty, 0⟩ =
        (.error (.load "absent" (.unreadable "absent" .notFound)), squareTaken) ∧
      Registry.empty.types.lookup ⟨"shape", "Square"⟩ = none ∧ Registry.empty.types.size = 1 ∧
      squareTaken.registry.types.lookup ⟨"shape", "Square"⟩ = some ⟨.struct [], square.methods⟩ ∧
      squareTaken.registry.types.size = 2 ∧ squareTaken.registry ≠ .empty := by
  refine ⟨shapeTree_load_absent, rfl, rfl, ?_, ?_, fun h => ?_⟩
  · decide +kernel
  · decide +kernel
  · have hsize := congrArg (fun r => r.types.size) h
    revert hsize
    decide +kernel

/-- All that stays of the load is what the directory of `Square` handed over. -/
theorem square_load_error_leaves :
    load shapeTree ⟨["a", "absent"], [], false⟩ ⟨.empty, .empty, 0⟩ =
        (.error (.load "absent" (.unreadable "absent" .notFound)), squareTaken) ∧
      squareTaken.ledger = .empty ∧ squareTaken.registry = { Registry.empty with types := squareTaken.registry.types } ∧
      ∃ done, LoadRequest.Stops ⟨["a", "absent"], [], false⟩ shapeTree done
          (.load "absent" (.unreadable "absent" .notFound)) ∧
        ∀ n, squareTaken.registry.types.lookup n =
          (handedOver (fun _ => false) (done.flatMap shapeTree.readings) n).or (Universe.initial.lookup n) := by
  rcases registry_of_load_error shapeTree_load_absent with ⟨hfinal, -⟩ | ⟨done, hstops, hledger, hregistry, hlookup, -⟩
  · cases hfinal
  · exact ⟨shapeTree_load_absent, hledger, hregistry, done, hstops, hlookup⟩

end Workspace

end TypeAtlas
