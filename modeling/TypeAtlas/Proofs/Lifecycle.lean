import Mathlib.Logic.Relation
import TypeAtlas.Proofs.FailedLoads

/-!
# The life of a registry

Loads, packages and requests to finalize reach a registry in any order, and any of them may fail.  Still its life has two
parts.  At first nothing is recorded of its aggregates (`Workspace.Unsettled`).  Then one request to finalize it
succeeds, and from there on nothing changes any more (`Workspace.Settled`): what is recorded agrees with what can be
computed directly in the universe of the registry.

The operations are long, but all they do is made of two small steps: the open registry gets another universe, or a package
is extracted and added (`Workspace.Grows`).  Finalizing is the only other thing that happens.  So what is kept by these
three is kept by every run (`Workspace.run_induction`).
-/

namespace TypeAtlas

/-! ## Asking for implementers -/

namespace Registry

variable {r : Registry} {l : Ledger}

/-- The answer is a matter of what is recorded. -/
theorem interfacesOf_congr {l' : Ledger} (h : l'.resolved = l.resolved) (a : Aggregate) :
    r.interfacesOf l' a = r.interfacesOf l a := by
  unfold interfacesOf implemented? Ledger.implemented?
  rw [h]

/-- **Nothing is known of an aggregate of which nothing is recorded.** -/
theorem Numbered.interfacesOf_eq_error (hn : r.Numbered l) (a : Aggregate) :
    r.interfacesOf l a = .error (.unresolved a.key) := by
  have hnone : r.implemented? l a = none := by
    refine Option.bind_eq_none_iff.2 fun id hid => ?_
    obtain ⟨edition, he, rfl⟩ := Option.map_eq_some_iff.1 hid
    exact hn.unresolved _ edition a.name he
  unfold interfacesOf
  rw [hnone]

/-- The implementers of an interface, if it is known of every aggregate what it implements. -/
theorem implementersOf_eq_ok {keys : Aggregate → List EntityKey}
    (h : ∀ a ∈ r.aggregates.all, r.interfacesOf l a = .ok (keys a)) (interface : EntityKey) :
    r.implementersOf l interface = .ok (r.aggregates.all.filter fun a => decide (interface ∈ keys a)) := by
  have hmap : ∀ as : List Aggregate, (∀ a ∈ as, r.interfacesOf l a = .ok (keys a)) →
      (as.mapM fun a => do return (a, ← r.interfacesOf l a)) = Except.ok (as.map fun a => (a, keys a)) := by
    intro as has
    induction as with
    | nil => rfl
    | cons a as ih =>
      rw [List.mapM_cons, has a List.mem_cons_self, ih fun b hb => has b (List.mem_cons_of_mem a hb)]
      rfl
  unfold implementersOf relation
  rw [hmap _ h]
  refine congrArg Except.ok ?_
  rw [List.filter_map, List.map_map]
  exact List.map_id _

/-- The implementers of an interface cannot be told if it is not known what the first aggregate implements. -/
theorem implementersOf_eq_error {a : Aggregate} (ha : r.aggregates.all.head? = some a) {e : RegistryError}
    (h : r.interfacesOf l a = .error e) (interface : EntityKey) : r.implementersOf l interface = .error e := by
  obtain ⟨as, has⟩ := List.head?_eq_some_iff.1 ha
  unfold implementersOf relation
  rw [has, List.mapM_cons, h]
  rfl

/-- A closed registry takes what is no package, and refuses everything else. -/
theorem add_of_finalized (h : r.finalized = true) (edition : Nat) (p : Package) :
    r.add edition p = if p.ref.path = placeholderPath then .ok r else .error (.finalized p.ref.path) := by
  unfold add
  rw [h, if_pos rfl]

end Registry

/-! ## Operations -/

/-- What may be done with a registry. -/
inductive Operation where
  | load (tree : FileTree) (options : LoadRequest)
  | loadDirectory (tree : FileTree) (dir : String)
  /-- Extract a package in some universe, and add it. -/
  | add (outline : PackageOutline) (u : Universe)
  | finalize

namespace Operation

def isFinalize : Operation → Bool
  | finalize => true
  | _ => false

/-- Whether what is added is no package. -/
def addsPlaceholder : Operation → Bool
  | add outline _ => outline.ref.path == placeholderPath
  | _ => false

end Operation

namespace Workspace

/-- Extract a package, and add it as an extraction of its own. -/
def addPackage (w : Workspace) (outline : PackageOutline) (u : Universe) : Except RegistryError Unit × Workspace :=
  match w.registry.add w.ledger.next (Package.extract outline u) with
  | .error e => (.error e, { w with ledger := w.ledger.advance })
  | .ok registry => (.ok (), { w with registry, ledger := w.ledger.advance })

def perform (w : Workspace) : Operation → Except RegistryError Unit × Workspace
  | .load tree options => w.load tree options
  | .loadDirectory tree dir => w.loadDirectory tree dir
  | .add outline u => w.addPackage outline u
  | .finalize => w.finalize

/-- Perform operations in turn, whether they succeed or not. -/
def run (w : Workspace) (ops : List Operation) : Workspace := ops.foldl (fun w op => (w.perform op).2) w

theorem run_cons (w : Workspace) (op : Operation) (ops : List Operation) :
    w.run (op :: ops) = (w.perform op).2.run ops := rfl

/-- How often a run finalizes the registry with success. -/
def closings (w : Workspace) : List Operation → Nat
  | [] => 0
  | op :: ops => (op.isFinalize && (w.perform op).1.isOk).toNat + closings (w.perform op).2 ops

/-! ## What operations are made of -/

/-- The small steps of operations other than finalizing. -/
inductive Grows : Workspace → Workspace → Prop where
  /-- An open registry gets another universe. -/
  | retype {w : Workspace} (hopen : w.registry.finalized = false) (u : Universe) (files : Nat) :
      Grows w ⟨{ w.registry with types := u }, w.ledger, files⟩
  /-- A package is extracted and added. -/
  | add (w : Workspace) (outline : PackageOutline) (u : Universe) : Grows w (w.addPackage outline u).2

variable {w v : Workspace}

theorem grows_registerAll :
    ∀ (pkgs : List CheckedPackage) (w : Workspace), Relation.ReflTransGen Grows w (w.registerAll pkgs).2
  | [], w => .refl
  | pkg :: pkgs, w => by
    have hstep := Grows.add w pkg.outline w.registry.types
    unfold addPackage at hstep
    rw [registerAll]
    split
    case h_1 e he =>
      rw [he] at hstep
      exact .single hstep
    case h_2 r hr =>
      rw [hr] at hstep
      exact .head hstep (grows_registerAll pkgs _)

/-- **A load first replaces the universe, and then adds packages.** -/
theorem grows_load (tree : FileTree) (o : LoadRequest) (w : Workspace) :
    Relation.ReflTransGen Grows w (w.load tree o).2 := by
  unfold load
  split
  case isTrue => exact .refl
  case isFalse hopen =>
    -- Whether the visits succeed or not, they took some directories.
    obtain ⟨rs, htook⟩ := Loading.exists_took tree o ⟨w, []⟩
    have hstep : Grows w (visitEach (Loading.visitRoot tree o) o.roots ⟨w, []⟩).2.workspace := by
      rw [htook.workspace]
      exact .retype (Bool.eq_false_iff.2 hopen) _ _
    unfold registerFound
    split
    case h_1 e l hl =>
      rw [hl] at hstep
      exact .single hstep
    case h_2 l hl =>
      rw [hl] at hstep
      exact .head hstep (grows_registerAll l.pending l.workspace)

/-- Loading one directory is loading it as the only root. -/
theorem loadDirectory_eq_load (tree : FileTree) (dir : String) (w : Workspace) :
    w.loadDirectory tree dir = w.load tree ⟨[dir], [], false⟩ := by
  unfold loadDirectory load
  rw [visitEach_singleton]
  rfl

theorem grows_perform {op : Operation} (h : op.isFinalize = false) (w : Workspace) :
    Relation.ReflTransGen Grows w (w.perform op).2 := by
  cases op with
  | load tree options => exact grows_load tree options w
  | loadDirectory tree dir =>
    rw [perform, loadDirectory_eq_load]
    exact grows_load tree _ w
  | add outline u => exact .single (.add w outline u)
  | finalize => cases h

theorem finalize_of_finalized (h : w.registry.finalized = true) : w.finalize = (.error .alreadyFinalized, w) := by
  unfold Workspace.finalize Registry.finalize
  rw [h]
  rfl

/-- What a small step keeps is kept by many. -/
theorem grows_induction {P : Workspace → Prop} (hgrows : ∀ {w v}, Grows w v → P w → P v)
    (h : Relation.ReflTransGen Grows w v) (hw : P w) : P v := by
  induction h with
  | refl => exact hw
  | tail _ hstep ih => exact hgrows hstep ih

/-- **What small steps and finalizing keep is kept by every run.** -/
theorem run_induction {P : Workspace → Prop} (hgrows : ∀ {w v}, Grows w v → P w → P v)
    (hfinalize : ∀ {w}, w.registry.finalized = false → P w → P w.finalize.2) (ops : List Operation) (hw : P w) :
    P (w.run ops) := by
  induction ops generalizing w with
  | nil => exact hw
  | cons op ops ih =>
    rw [run_cons]
    refine ih ?_
    cases hop : op.isFinalize with
    | false => exact grows_induction hgrows (grows_perform hop w) hw
    | true =>
      cases op with
      | finalize =>
        rw [perform]
        cases hfinal : w.registry.finalized with
        | false => exact hfinalize hfinal hw
        | true =>
          rw [finalize_of_finalized hfinal]
          exact hw
      | _ => cases hop

/-! ## A registry is finalized once -/

theorem addPackage_of_finalized (h : w.registry.finalized = true) (outline : PackageOutline) (u : Universe) :
    w.addPackage outline u =
      (if outline.ref.path = placeholderPath then .ok () else .error (.finalized outline.ref.path),
        { w with ledger := w.ledger.advance }) := by
  have hadd : w.registry.add w.ledger.next (Package.extract outline u) =
      if outline.ref.path = placeholderPath then .ok w.registry else .error (.finalized outline.ref.path) :=
    Registry.add_of_finalized h _ _
  unfold addPackage
  rw [hadd]
  by_cases hp : outline.ref.path = placeholderPath
  · rw [if_pos hp, if_pos hp]
  · rw [if_neg hp, if_neg hp]

theorem Grows.finalized_eq (h : Grows w v) : v.registry.finalized = w.registry.finalized := by
  cases h with
  | retype hopen u files => rfl
  | add outline u =>
    unfold addPackage
    split
    · rfl
    case h_2 r hr => exact (Registry.types_add hr).2

/-- A load leaves open what is open. -/
theorem finalized_load (tree : FileTree) (o : LoadRequest) (w : Workspace) :
    (w.load tree o).2.registry.finalized = w.registry.finalized :=
  grows_induction (P := fun v => v.registry.finalized = w.registry.finalized)
    (fun hstep hv => hstep.finalized_eq.trans hv) (grows_load tree o w) rfl

/-- **Finalizing is what closes a registry.** -/
theorem toNat_finalized_perform (op : Operation) (w : Workspace) :
    (w.perform op).2.registry.finalized.toNat =
      (op.isFinalize && (w.perform op).1.isOk).toNat + w.registry.finalized.toNat := by
  cases hop : op.isFinalize with
  | false =>
    have hsame : (w.perform op).2.registry.finalized = w.registry.finalized :=
      grows_induction (P := fun v => v.registry.finalized = w.registry.finalized)
        (fun hstep hv => hstep.finalized_eq.trans hv) (grows_perform hop w) rfl
    rw [hsame, Bool.false_and, Bool.toNat_false, Nat.zero_add]
  | true =>
    cases op with
    | finalize =>
      cases hfinal : w.registry.finalized with
      | false =>
        rw [perform, finalize_of_open hfinal]
        rfl
      | true =>
        rw [perform, finalize_of_finalized hfinal, hfinal]
        rfl
    | _ => cases hop

/-- A run finalizes a registry as often as this makes the difference between open and closed. -/
theorem toNat_finalized_run (ops : List Operation) (w : Workspace) :
    (w.run ops).registry.finalized.toNat = w.closings ops + w.registry.finalized.toNat := by
  induction ops generalizing w with
  | nil => exact (Nat.zero_add _).symm
  | cons op ops ih =>
    rw [run_cons, ih, toNat_finalized_perform, closings, ← Nat.add_assoc, Nat.add_comm (closings _ _)]

/-- **A run finalizes an open registry once if it closes it, and else never.** -/
theorem closings_eq_toNat (hopen : w.registry.finalized = false) (ops : List Operation) :
    w.closings ops = (w.run ops).registry.finalized.toNat := by
  rw [toNat_finalized_run, hopen, Bool.toNat_false, Nat.add_zero]

/-! ## What holds in the two parts of a life -/

/-- What is kept while operations are performed. -/
structure Consistent (w : Workspace) : Prop where
  catalogued : w.registry.Catalogued
  unrecorded : w.registry.finalized = false → w.registry.Numbered w.ledger
  recorded : w.registry.finalized = true → ∀ a ∈ w.registry.aggregates.all,
    w.registry.interfacesOf w.ledger a = .ok (w.registry.implementedBy a)

/-- **A small step keeps the catalogs in step and the records right.** -/
theorem Grows.consistent (h : Grows w v) (hw : w.Consistent) : v.Consistent := by
  cases h with
  | retype hopen u files =>
    have hn := hw.unrecorded hopen
    exact ⟨hw.catalogued.retype u _,
      fun _ => ⟨hn.numbered, hn.different, hn.issued, hn.unresolved⟩,
      fun hfinal => absurd (hopen.symm.trans hfinal) Bool.false_ne_true⟩
  | add outline u =>
    cases hfinal : w.registry.finalized with
    | true =>
      -- All that changes is the number of the next extraction.
      rw [addPackage_of_finalized hfinal]
      refine ⟨hw.catalogued, fun hopen => (hw.unrecorded hopen).advance, fun _ a ha => ?_⟩
      rw [← hw.recorded hfinal a ha]
      exact Registry.interfacesOf_congr rfl a
    | false =>
      have hopen := (Grows.add w outline u).finalized_eq.trans hfinal
      refine ⟨?_, fun _ => ?_, fun hclosed => absurd (hopen.symm.trans hclosed) Bool.false_ne_true⟩
      · unfold addPackage
        split
        · exact hw.catalogued
        case h_2 r hr => exact hw.catalogued.add hr
      · unfold addPackage
        split
        · exact (hw.unrecorded hfinal).advance
        case h_2 r hr => exact (hw.unrecorded hfinal).add hr

theorem Consistent.finalize (hw : w.Consistent) (hopen : w.registry.finalized = false) : w.finalize.2.Consistent := by
  rw [finalize_of_open hopen]
  exact ⟨hw.catalogued.retype _ true, (fun h => nomatch h),
    fun _ a ha => Registry.interfacesOf_foldl_resolve hw.catalogued (hw.unrecorded hopen) ha⟩

/-- A workspace without packages is consistent. -/
theorem consistent_of_registry_eq {u : Universe} (h : w.registry = .ofUniverse u) : w.Consistent := by
  have hready := ready_of_registry_eq h
  refine ⟨hready.coherent.toCatalogued, fun _ => hready.numbered, fun hfinal => ?_⟩
  exact absurd (hready.isOpen.symm.trans hfinal) Bool.false_ne_true

/-- What holds before a registry is finalized: it can be if its comparisons end, and it is not known of any aggregate what it
implements. -/
structure Unsettled (w : Workspace) : Prop where
  closes : w.registry.ComparisonsEnd → ∃ v, w.finalize = (.ok (), v)
  unresolved : ∀ a ∈ w.registry.aggregates.all, w.registry.interfacesOf w.ledger a = .error (.unresolved a.key)
  implementers : ∀ interface a, w.registry.aggregates.all.head? = some a →
    w.registry.implementersOf w.ledger interface = .error (.unresolved a.key)

/-- What holds once a registry is finalized. -/
structure Settled (w : Workspace) : Prop where
  /-- Whatever is done, the registry and what is recorded of its aggregates stay as they are. -/
  lasting : ∀ ops, (w.run ops).registry = w.registry ∧
    ∀ a, w.registry.interfacesOf (w.run ops).ledger a = w.registry.interfacesOf w.ledger a
  /-- All operations fail, except that what is no package can be added. -/
  refuses : ∀ op, (w.perform op).1.isOk = op.addsPlaceholder
  /-- What is recorded of an aggregate agrees with the direct computation. -/
  recorded : ∀ a ∈ w.registry.aggregates.all, ∃ keys, w.registry.interfacesOf w.ledger a = .ok keys ∧
    ∀ i ∈ w.registry.interfaces.all, i.key ∈ keys ↔ i.implementedBy w.registry.types a.type = true
  /-- The implementers of an interface are listed with increasing keys. -/
  implementers : ∀ i ∈ w.registry.interfaces.all, ∃ as, w.registry.implementersOf w.ledger i.key = .ok as ∧
    (∀ a, a ∈ as ↔ a ∈ w.registry.aggregates.all ∧ i.implementedBy w.registry.types a.type = true) ∧
    as.Pairwise fun a b => compare a.key b.key = .lt

theorem Consistent.unsettled (hw : w.Consistent) (hopen : w.registry.finalized = false) : w.Unsettled where
  closes _ := ⟨_, finalize_of_open hopen⟩
  unresolved a _ := (hw.unrecorded hopen).interfacesOf_eq_error a
  implementers interface a ha :=
    Registry.implementersOf_eq_error ha ((hw.unrecorded hopen).interfacesOf_eq_error a) interface

/-- **A closed registry stays as it is.** -/
theorem run_of_finalized (hfinal : w.registry.finalized = true) (ops : List Operation) :
    (w.run ops).registry = w.registry ∧ (w.run ops).ledger.resolved = w.ledger.resolved := by
  refine run_induction (P := fun v => v.registry = w.registry ∧ v.ledger.resolved = w.ledger.resolved)
    (fun {v v'} hstep hv => ?_) (fun {v} hopen hv => ?_) ops ⟨rfl, rfl⟩
  · have hclosed : v.registry.finalized = true := by rw [hv.1, hfinal]
    cases hstep with
    | retype hopen u files => exact absurd (hopen.symm.trans hclosed) Bool.false_ne_true
    | add outline u =>
      rw [addPackage_of_finalized hclosed]
      exact hv
  · rw [hv.1, hfinal] at hopen
    cases hopen

theorem isOk_perform_of_finalized (hfinal : w.registry.finalized = true) (op : Operation) :
    (w.perform op).1.isOk = op.addsPlaceholder := by
  cases op with
  | load tree options =>
    rw [perform, load, if_pos hfinal]
    rfl
  | loadDirectory tree dir =>
    rw [perform, loadDirectory, if_pos hfinal]
    rfl
  | add outline u =>
    rw [perform, addPackage_of_finalized hfinal, Operation.addsPlaceholder]
    split
    case isTrue h => exact (beq_iff_eq.2 h).symm
    case isFalse h => exact (beq_eq_false_iff_ne.2 h).symm
  | finalize =>
    rw [perform, finalize_of_finalized hfinal]
    rfl

theorem Consistent.settled (hw : w.Consistent) (hfinal : w.registry.finalized = true) : w.Settled where
  lasting ops := by
    obtain ⟨hregistry, hresolved⟩ := run_of_finalized hfinal ops
    exact ⟨hregistry, Registry.interfacesOf_congr hresolved⟩
  refuses := isOk_perform_of_finalized hfinal
  recorded a ha := ⟨_, hw.recorded hfinal a ha, fun _ hi => hw.catalogued.key_mem_implementedBy_iff a hi⟩
  implementers i hi := by
    refine ⟨_, Registry.implementersOf_eq_ok (hw.recorded hfinal) i.key, fun a => ?_,
      hw.catalogued.aggregates.pairwise_key.filter _⟩
    rw [List.mem_filter, decide_eq_true_iff, hw.catalogued.key_mem_implementedBy_iff a hi]

/-- **A registry is settled once and for all.**  In a run of any operations, some of which may fail, at most one request
to finalize the registry succeeds.  Before it, it is not known of any aggregate what it implements.  After it, all
operations fail and nothing changes, except that what is no package is still accepted; what is recorded of an aggregate
agrees with the direct computation, and the implementers of an interface are listed with increasing keys. -/
theorem settled_once {u : Universe} {w : Workspace} (hw : w.registry = .ofUniverse u) (ops : List Operation) :
    (w.closings ops = 0 ∧ (w.run ops).Unsettled) ∨ (w.closings ops = 1 ∧ (w.run ops).Settled) := by
  have hconsistent : (w.run ops).Consistent :=
    run_induction Grows.consistent (fun hopen hv => hv.finalize hopen) ops (consistent_of_registry_eq hw)
  have hcount := closings_eq_toNat (ready_of_registry_eq hw).isOpen ops
  cases hfinal : (w.run ops).registry.finalized with
  | false => exact .inl ⟨by rw [hcount, hfinal]; rfl, hconsistent.unsettled hfinal⟩
  | true => exact .inr ⟨by rw [hcount, hfinal]; rfl, hconsistent.settled hfinal⟩

/-- Load `Square` and the interface that it implements, and ask twice to finalize the registry. -/
def shapeOperations : List Operation := [.load shapeTree ⟨["a", "b"], [], false⟩, .finalize, .finalize]

/-- The first request settles the registry, and the second one changes nothing. -/
theorem shapeOperations_settle :
    closings ⟨.empty, .empty, 0⟩ shapeOperations = 1 ∧
      square ∈ (run ⟨.empty, .empty, 0⟩ shapeOperations).registry.aggregates.all ∧
      (run ⟨.empty, .empty, 0⟩ shapeOperations).Settled := by
  have hload := load_eq (w := ⟨.empty, .empty, 0⟩) rfl fun root hroot => shapeTree_admits hroot
  rw [shapeTree_readings] at hload
  have hfinal : shapeWorkspace.registry.finalized = true := by decide +kernel
  have hrun : run ⟨.empty, .empty, 0⟩ shapeOperations = shapeWorkspace := by
    rw [shapeOperations, run_cons, perform, hload, run_cons, perform, ← shapeWorkspace, run_cons, perform,
      finalize_of_finalized hfinal]
    rfl
  have hsquare : square ∈ shapeWorkspace.registry.aggregates.all := by decide +kernel
  have hclosed : closings ⟨.empty, .empty, 0⟩ shapeOperations = 1 := by
    rw [closings_eq_toNat rfl, hrun, hfinal, Bool.toNat_true]
  rcases settled_once (w := ⟨.empty, .empty, 0⟩) rfl shapeOperations with ⟨hnone, -⟩ | ⟨hcount, hsettled⟩
  · cases hnone.symm.trans hclosed
  · exact ⟨hcount, hrun ▸ hsquare, hsettled⟩

end Workspace

end TypeAtlas
