import TypeAtlas.Proofs.ImplementsRelation

/-!
# The order of the roots does not matter

Packages may refer to one another in any direction, and each directory hands over its definitions at a moment of its
own.  Still the order in which the roots of a load are given makes no difference: whether the load succeeds is a matter of
each root alone, and if every path has one export only, the exports that come first and what they say are the same in any
order (`Workspace.load_perm`).
-/

namespace TypeAtlas

/-- Whether exports with the same path are the same export.  So it is if a path occurs in one file only, however often
this file is read. -/
def LoadRequest.Unambiguous (o : LoadRequest) (tree : FileTree) : Prop :=
  ∀ r ∈ o.readings tree, ∀ s ∈ o.readings tree, r.found.ref.path = s.found.ref.path → r.found = s.found

/-- An export is read with its directory, and so are all exports of it. -/
theorem LoadRequest.found_of_mem_batch {o : LoadRequest} {tree : FileTree} {r : Reading} (hr : r ∈ o.readings tree) :
    r.found ∈ r.batch ∧ ∀ e ∈ r.batch, ∃ s ∈ o.readings tree, s.found = e := by
  obtain ⟨dir, hdir, hr⟩ := List.mem_flatMap.1 hr
  obtain ⟨e, he, rfl⟩ := List.mem_map.1 hr
  refine ⟨he, fun f hf => ⟨⟨f, tree.exportsIn dir⟩, ?_, rfl⟩⟩
  exact List.mem_flatMap.2 ⟨dir, hdir, List.mem_map.2 ⟨f, hf, rfl⟩⟩

/-- **The first export of a path is the same in any order,** if there is only one. -/
theorem find?_found_perm {rs ss : List Reading} (path : String) (hperm : rs.Perm ss)
    (huniq : ∀ r ∈ rs, ∀ s ∈ rs, r.found.ref.path = s.found.ref.path → r.found = s.found) :
    (rs.find? fun r => r.found.ref.path == path).map Reading.found =
      (ss.find? fun r => r.found.ref.path == path).map Reading.found := by
  cases hr : rs.find? fun r => r.found.ref.path == path with
  | none =>
    have hs : (ss.find? fun r => r.found.ref.path == path) = none :=
      List.find?_eq_none.2 fun s hs => List.find?_eq_none.1 hr s (hperm.mem_iff.2 hs)
    rw [hs]
  | some r =>
    have hmem := List.mem_of_find?_eq_some hr
    have hpath : r.found.ref.path = path := by simpa using List.find?_some hr
    cases hs : ss.find? fun r => r.found.ref.path == path with
    | none => exact absurd hpath (by simpa using List.find?_eq_none.1 hs r (hperm.mem_iff.1 hmem))
    | some s =>
      have hpath' : s.found.ref.path = path := by simpa using List.find?_some hs
      have hmem' := hperm.mem_iff.2 (List.mem_of_find?_eq_some hs)
      exact congrArg some (huniq r hmem s hmem' (hpath.trans hpath'.symm))

/-- What is handed over is told by the first exports, if there is only one of each path. -/
theorem LoadRequest.Unambiguous.handedOver_eq {o : LoadRequest} {tree : FileTree} (h : o.Unambiguous tree)
    {rs : List Reading} (hrs : ∀ r ∈ rs, r ∈ o.readings tree) (n : TypeName) :
    handedOver (fun _ => false) rs n =
      ((rs.find? fun r => r.found.ref.path == n.package).map Reading.found).bind fun e =>
        (e.definition? n).or (Universe.initial.lookup n) := by
  rw [handedOver, if_neg Bool.false_ne_true]
  cases hr : rs.find? fun r => r.found.ref.path == n.package with
  | none => rfl
  | some r =>
    have hmem := hrs r (List.mem_of_find?_eq_some hr)
    have hpath : r.found.ref.path = n.package := by simpa using List.find?_some hr
    obtain ⟨hfound, hbatch⟩ := LoadRequest.found_of_mem_batch hmem
    have hunique : ∀ f ∈ r.batch, f.ref.path = n.package → f = r.found := by
      intro f hf hp
      obtain ⟨s, hs, rfl⟩ := hbatch f hf
      exact h s hs r hmem (hp.trans hpath.symm)
    rw [Option.bind_some, Reading.meaning, definitionIn_of_unique hunique hfound]
    rfl

namespace Workspace

/-- **The order of the roots does not matter.**  Two loads of the same roots into the same registry without packages both
fail or both succeed.  If exports with the same path are the same, they then agree in the universe, the packages and the
entities, and give the same answers once they are finalized. -/
theorem load_perm (tree : FileTree) {roots roots' : List String} (hperm : roots.Perm roots') (ignored : List String)
    (recursive : Bool) {u : Universe} {w : Workspace} (hw : w.registry = .ofUniverse u) :
    ((∀ v, w.load tree ⟨roots, ignored, recursive⟩ ≠ (.ok (), v)) ∧
        ∀ v, w.load tree ⟨roots', ignored, recursive⟩ ≠ (.ok (), v)) ∨
      ∃ v v', w.load tree ⟨roots, ignored, recursive⟩ = (.ok (), v) ∧
        w.load tree ⟨roots', ignored, recursive⟩ = (.ok (), v') ∧
        (LoadRequest.Unambiguous ⟨roots, ignored, recursive⟩ tree → v.SameAnswers v') := by
  -- Neither what a root admits nor what is read in it depends on the other roots.
  have hadmits : (∀ root ∈ roots, LoadRequest.Admits ⟨roots, ignored, recursive⟩ tree root) ↔
      ∀ root ∈ roots', LoadRequest.Admits ⟨roots', ignored, recursive⟩ tree root :=
    forall_congr' fun root => imp_congr hperm.mem_iff Iff.rfl
  have hreadings : (LoadRequest.readings ⟨roots, ignored, recursive⟩ tree).Perm
      (LoadRequest.readings ⟨roots', ignored, recursive⟩ tree) :=
    (hperm.flatMap_right _).flatMap_right _
  by_cases h : ∀ root ∈ roots, LoadRequest.Admits ⟨roots, ignored, recursive⟩ tree root
  · right
    obtain ⟨v, hv, hloaded⟩ := loaded_of_admits (o := ⟨roots, ignored, recursive⟩) hw h
    obtain ⟨v', hv', hloaded'⟩ := loaded_of_admits (o := ⟨roots', ignored, recursive⟩) hw (hadmits.1 h)
    refine ⟨v, v', hv, hv', fun huniq => ?_⟩
    have hfirst := fun path => find?_found_perm path hreadings huniq
    refine hloaded.sameAnswers hloaded' (Universe.ext_lookup fun n => ?_) hfirst
    rw [hloaded.lookup, hloaded'.lookup, huniq.handedOver_eq (fun r hr => hr),
      huniq.handedOver_eq (fun r hr => hreadings.mem_iff.2 hr), hfirst]
  · left
    exact ⟨fun v hv => h (admits_of_load hv), fun v hv => h (hadmits.2 (admits_of_load hv))⟩

/-- The directory of `Square` and that of the interface which it implements can be loaded either way round. -/
theorem shapeTree_load_swap :
    ["a", "b"].Perm ["b", "a"] ∧ LoadRequest.Unambiguous ⟨["a", "b"], [], false⟩ shapeTree ∧
      ∃ v v', load shapeTree ⟨["a", "b"], [], false⟩ ⟨.empty, .empty, 0⟩ = (.ok (), v) ∧
        load shapeTree ⟨["b", "a"], [], false⟩ ⟨.empty, .empty, 0⟩ = (.ok (), v') ∧ v.SameAnswers v' := by
  have hperm : ["a", "b"].Perm ["b", "a"] := .swap _ _ _
  have huniq : LoadRequest.Unambiguous ⟨["a", "b"], [], false⟩ shapeTree := by
    unfold LoadRequest.Unambiguous
    rw [shapeTree_readings]
    decide +kernel
  rcases load_perm shapeTree hperm [] false (w := ⟨.empty, .empty, 0⟩) rfl with ⟨hfail, -⟩ | ⟨v, v', hv, hv', hsame⟩
  · obtain ⟨v, hv, -⟩ := loaded_of_admits (w := ⟨.empty, .empty, 0⟩) (o := ⟨["a", "b"], [], false⟩) rfl
      fun root hroot => shapeTree_admits hroot
    exact absurd hv (hfail v)
  · exact ⟨hperm, huniq, v, v', hv, hv', hsame huniq⟩

end Workspace

end TypeAtlas
