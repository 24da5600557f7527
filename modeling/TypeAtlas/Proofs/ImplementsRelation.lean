import TypeAtlas.Proofs.InterfaceSatisfaction
import TypeAtlas.Proofs.Registration

/-!
# What an aggregate implements

A load gives every registered aggregate the keys of the interfaces that it implements.  The answer comes about in several
places: the interface keeps the methods that it asked for when it was extracted, the method set of the aggregate is
searched when the registry is finalized, and the ledger keeps what was found.  All of them see the same universe, the one
of the finished registry, so the recorded keys are right in it (`Workspace.mem_interfacesOf_iff`).
-/

namespace TypeAtlas

namespace Universe

variable {u : Universe}

/-- An interface is not empty if it, or an interface that it reaches, lists a method. -/
theorem isEmpty_interfaceMethods_iff {i : InterfaceType} :
    (u.interfaceMethods i).isEmpty = false ↔ ∃ name, u.Lists i name := by
  rw [← Bool.not_eq_true, Table.isEmpty_iff, Classical.not_forall]
  refine exists_congr fun name => ?_
  rw [← get?_interfaceMethods_iff_lists, ← ne_eq, Option.ne_none_iff_exists']

end Universe

namespace Registry.Coherent

variable {r : Registry}

/-- The type of a registered aggregate is a name. -/
theorem toPointer_of_mem (hr : r.Coherent) {a : Aggregate} (ha : a ∈ r.aggregates.all) :
    a.type.toPointer = .pointer a.type := by
  obtain ⟨-, p, hp, hmem⟩ := hr.aggregates.of_mem ha
  obtain ⟨e, -, rfl⟩ := hr.extracted _ p hp
  obtain ⟨o, hbinds, ho⟩ := Package.exists_aggregate hmem
  obtain ⟨hkind, htype, -⟩ := Aggregate.ofObject?_eq_some ho
  rw [htype, PackageExport.type_of_binds hbinds hkind]
  rfl

/-- A registered interface is what the universe of the registry has behind its type, and keeps the methods that it asks
for there. -/
theorem interface_of_mem (hr : r.Coherent) {i : Interface} (hi : i ∈ r.interfaces.all) :
    r.types.underlying i.type = .interface i.underlying ∧ i.methodSet = r.types.interfaceMethods i.underlying := by
  obtain ⟨-, p, hp, hmem⟩ := hr.interfaces.of_mem hi
  obtain ⟨e, -, rfl⟩ := hr.extracted _ p hp
  obtain ⟨o, -, ho⟩ := Package.exists_interface hmem
  obtain ⟨hu, hm, -⟩ := Interface.ofObject?_eq_some ho
  exact ⟨hu, hm⟩

/-- **What it means that an aggregate implements an interface,** in the universe of the registry. -/
theorem key_mem_implementedBy_iff_methods (hr : r.Coherent) {a : Aggregate} (ha : a ∈ r.aggregates.all) {i : Interface}
    (hi : i ∈ r.interfaces.all) :
    i.key ∈ r.implementedBy a ↔
      (∃ name, r.types.Lists i.underlying name) ∧
      ∀ name, r.types.Lists i.underlying name →
        ∃ s sig, (r.types.methodSet (.pointer a.type)).get? name = some s ∧
          (r.types.interfaceMethods i.underlying).get? name = some sig ∧
          r.types.identicalSignatures s.signature sig = true := by
  rw [hr.toCatalogued.key_mem_implementedBy_iff a hi, Interface.implementedBy, Interface.isEmpty, (hr.interface_of_mem hi).2,
    hr.toPointer_of_mem ha, Bool.and_eq_true, Bool.not_eq_true', Universe.isEmpty_interfaceMethods_iff,
    Universe.implements_iff]
  refine and_congr_right fun _ => ?_
  constructor
  · intro h name hname
    obtain ⟨sig, hsig⟩ := Universe.get?_interfaceMethods_iff_lists.2 hname
    obtain ⟨s, hs, hid⟩ := h name sig hsig
    exact ⟨s, sig, hs, hsig, hid⟩
  · intro h name sig hsig
    obtain ⟨s, sig', hs, hsig', hid⟩ := h name (Universe.get?_interfaceMethods_iff_lists.1 ⟨sig, hsig⟩)
    obtain rfl : sig' = sig := Option.some.inj (hsig'.symm.trans hsig)
    exact ⟨s, hs, hid⟩

end Registry.Coherent

namespace Workspace

/-- **A finished load records exactly the interfaces that an aggregate implements.**  It records something for every
registered aggregate.  A registered interface is among the recorded ones if it, or an interface that it reaches through
what it embeds, lists a method, and the methods of the pointer to the aggregate include all listed ones, with identical
signatures.  All this is meant in the universe of the finished registry. -/
theorem mem_interfacesOf_iff {tree : FileTree} {o : LoadRequest} {w w' : Workspace} (hw : w.registry = .empty)
    (h : w.loadAndFinalize tree o = (.ok (), w')) {a : Aggregate} (ha : a ∈ w'.registry.aggregates.all)
    {i : Interface} (hi : i ∈ w'.registry.interfaces.all) :
    w'.registry.types.underlying i.type = .interface i.underlying ∧
      ∃ keys, w'.registry.interfacesOf w'.ledger a = .ok keys ∧
        (i.key ∈ keys ↔
          (∃ name, w'.registry.types.Lists i.underlying name) ∧
          ∀ name, w'.registry.types.Lists i.underlying name →
            ∃ s sig, (w'.registry.types.methodSet (.pointer a.type)).get? name = some s ∧
              (w'.registry.types.interfaceMethods i.underlying).get? name = some sig ∧
              w'.registry.types.identicalSignatures s.signature sig = true) := by
  unfold loadAndFinalize at h
  split at h
  · cases h
  case h_2 m hm =>
    have hready : m.Ready := (loaded_of_load hw hm).ready
    obtain ⟨m', hm', hregistry, hrecorded⟩ := hready.finalize
    obtain rfl : m' = w' := congrArg Prod.snd (hm'.symm.trans h)
    -- Closing the registry leaves the universe and the catalogs as they are.
    rw [hregistry] at ha hi ⊢
    rw [hregistry] at hrecorded
    exact ⟨(hready.coherent.interface_of_mem hi).1, m.registry.implementedBy a, hrecorded a ha,
      hready.coherent.key_mem_implementedBy_iff_methods ha hi⟩

/-- A package with a struct whose method has a result of another package. -/
def shapes : PackageExport where
  ref := ⟨"shape", "shape"⟩
  imports := [⟨"size", "size"⟩]
  decls := [
    .type "Square" .unknown (.struct []) [⟨"Area", ⟨[], [.named ⟨"size", "Unit"⟩], false⟩, true, .unknown⟩] false]
  errors := []

/-- The other package, with an interface that asks for the method. -/
def sizes : PackageExport where
  ref := ⟨"size", "size"⟩
  imports := []
  decls := [
    .type "Unit" .unknown (.basic .int) [] false,
    .type "Sized" .unknown (.interface ⟨[⟨"Area", ⟨[], [.named ⟨"size", "Unit"⟩], false⟩⟩], []⟩) [] false]
  errors := []

/-- Both packages, each in a directory of its own. -/
def shapeTree : FileTree :=
  ⟨.dir [("a", .dir [("shape.symbols.json", shapes.file)]), ("b", .dir [("size.symbols.json", sizes.file)])], []⟩

theorem shapeTree_a : shapeTree.HoldsOnly "a" shapes := .of_written rfl (by decide +kernel) (by decide +kernel)

theorem shapeTree_b : shapeTree.HoldsOnly "b" sizes := .of_written rfl (by decide +kernel) (by decide +kernel)

/-- The two directories are admitted, in any order. -/
theorem shapeTree_admits {root : String} (h : root ∈ ["a", "b"]) :
    LoadRequest.Admits ⟨["a", "b"], [], false⟩ shapeTree root := by
  refine LoadRequest.admits_flat ?_ _ _
  rcases List.mem_cons.1 h with rfl | h
  · exact shapeTree_a.passes
  · rw [List.mem_singleton.1 h]
    exact shapeTree_b.passes

theorem shapeTree_readings :
    LoadRequest.readings ⟨["a", "b"], [], false⟩ shapeTree = [⟨shapes, [shapes]⟩, ⟨sizes, [sizes]⟩] := by
  simp [LoadRequest.readings_flat, shapeTree_a.readings, shapeTree_b.readings]

/-- The struct of `shapes`. -/
def square : Aggregate where
  pos := .unknown
  type := .named ⟨"shape", "Square"⟩
  name := "Square"
  package := ⟨"shape", "shape"⟩
  methods := [⟨"Area", ⟨[], [.named ⟨"size", "Unit"⟩], false⟩, true, .unknown⟩]
  fields := []
  embeds := []

/-- What comes of loading both directories. -/
def shapeWorkspace : Workspace :=
  (loadReadings ⟨.empty, .empty, 0⟩ [⟨shapes, [shapes]⟩, ⟨sizes, [sizes]⟩]).2.finalize.2

/-- `Square` implements `Sized`, which comes from a package that is loaded after it. -/
theorem square_implements_sized :
    loadAndFinalize shapeTree ⟨["a", "b"], [], false⟩ ⟨.empty, .empty, 0⟩ = (.ok (), shapeWorkspace) ∧
      square ∈ shapeWorkspace.registry.aggregates.all ∧
      ∃ i ∈ shapeWorkspace.registry.interfaces.all, i.key = ⟨"size", "Sized"⟩ ∧
        ∃ keys, shapeWorkspace.registry.interfacesOf shapeWorkspace.ledger square = .ok keys ∧ i.key ∈ keys := by
  have hload : loadAndFinalize shapeTree ⟨["a", "b"], [], false⟩ ⟨.empty, .empty, 0⟩ = (.ok (), shapeWorkspace) := by
    rw [loadAndFinalize_eq rfl fun root hroot => shapeTree_admits hroot, shapeTree_readings]
    rfl
  have hsquare : square ∈ shapeWorkspace.registry.aggregates.all := by decide +kernel
  obtain ⟨i, hi, hkey⟩ : ∃ i, shapeWorkspace.registry.interfaces.get? ⟨"size", "Sized"⟩ = some i ∧
      (i.key, i.underlying) = (⟨"size", "Sized"⟩, ⟨[⟨"Area", ⟨[], [.named ⟨"size", "Unit"⟩], false⟩⟩], []⟩) := by
    rw [← Option.map_eq_some_iff]
    decide +kernel
  obtain ⟨hkey, hunderlying⟩ := Prod.mk.inj hkey
  have hmem : i ∈ shapeWorkspace.registry.interfaces.all := Catalog.mem_all_iff.2 ⟨_, hi⟩
  -- One round of the search finds the method, and the interface embeds nothing.
  have hmethod : (shapeWorkspace.registry.types.methodSet (.pointer square.type)).get? "Area" =
      some ⟨"Area", ⟨[], [.named ⟨"size", "Unit"⟩], false⟩, some ⟨"shape", "Square"⟩, true, 0⟩ := by
    have hdone : ReachedType.advance shapeWorkspace.registry.types
        (ReachedType.fresh [] [⟨square.type, true, false⟩]) = [] := by decide +kernel
    rw [Universe.methodSet, if_neg (by decide +kernel), Universe.search]
    dsimp only [Ty.deref, Ty.isPointer]
    rw [hdone, Universe.search]
    decide +kernel
  have hasked : shapeWorkspace.registry.types.interfaceMethods i.underlying =
      .ofList [("Area", ⟨[], [.named ⟨"size", "Unit"⟩], false⟩)] := by
    rw [hunderlying, Universe.interfaceMethods, Universe.collect]
    rfl
  obtain ⟨-, keys, hkeys, hiff⟩ := mem_interfacesOf_iff rfl hload hsquare hmem
  refine ⟨hload, hsquare, i, hmem, hkey, keys, hkeys, hiff.2 ⟨⟨"Area", ?_⟩, fun name hname => ?_⟩⟩
  · rw [← Universe.get?_interfaceMethods_iff_lists, hasked]
    exact ⟨_, rfl⟩
  · rw [← Universe.get?_interfaceMethods_iff_lists, hasked] at hname
    obtain ⟨sig, hsig⟩ := hname
    have hcases : (if name = "Area" then some (⟨[], [.named ⟨"size", "Unit"⟩], false⟩ : Signature) else none) =
      some sig := (Table.get?_insert .empty "Area" name _).symm.trans hsig
    split at hcases
    case isTrue heq =>
      rw [heq, hasked]
      exact ⟨_, _, hmethod, rfl, by decide +kernel⟩
    case isFalse => cases hcases

end Workspace

end TypeAtlas
