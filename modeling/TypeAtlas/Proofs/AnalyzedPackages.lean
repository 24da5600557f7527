import TypeAtlas.Proofs.Extraction

/-!
# Two ways to describe a checked package

A checked package can be extracted as it is, or handed over for analysis first.  The analysis knows the objects of a
package by the identifiers that introduce them, that is by name and position, and keeps one object for an identifier: the
last one (`CheckedPackage.lastWith`).

Extraction looks at the objects that the scope binds, so both ways give the same package as long as no such object is
replaced by another one with its name and position (`Analysis.extract_ofChecked_eq_iff`).  Positions need not be reported,
and then every object of a name has the same one: a local declaration that repeats the name of a top-level type and comes
after it makes the type disappear (`Analysis.hidden_extract`).
-/

namespace TypeAtlas

/-- The identifier that introduces an object. -/
def Object.ident (o : Object) : Ident := ⟨o.name, o.pos⟩

/-- The last object of a package that an identifier introduces. -/
def CheckedPackage.lastWith (pkg : CheckedPackage) (id : Ident) : Option Object :=
  pkg.defs.reverse.find? fun o => decide (o.ident = id)

namespace Package

/-- Packages that are extracted alike have the same entities. -/
theorem mem_entities_of_extract_eq {a b : PackageOutline} {u : Universe} (h : extract a u = extract b u) {x : Entity}
    (hx : x ∈ a.entities u) : x ∈ b.entities u := by
  have hpart : ∀ {α : Type} {part : Entity → Option α} {y : α},
      (a.entities u).filterMap part = (b.entities u).filterMap part → part x = some y →
        (∀ e, part e = some y → e = x) → x ∈ b.entities u := by
    intro α part y hsame hy honly
    have hmem : y ∈ (b.entities u).filterMap part := hsame ▸ List.mem_filterMap.2 ⟨x, hx, hy⟩
    obtain ⟨e, he, hey⟩ := List.mem_filterMap.1 hmem
    exact honly e hey ▸ he
  cases x with
  | aggregate y => exact hpart (congrArg aggregates h) rfl (by rintro ⟨⟩ ⟨⟩; rfl)
  | interface y => exact hpart (congrArg interfaces h) rfl (by rintro ⟨⟩ ⟨⟩; rfl)
  | namedType y => exact hpart (congrArg namedTypes h) rfl (by rintro ⟨⟩ ⟨⟩; rfl)
  | typeAlias y => exact hpart (congrArg typeAliases h) rfl (by rintro ⟨⟩ ⟨⟩; rfl)

end Package

namespace Analysis

variable {pkg : CheckedPackage}

/-- What the analysis keeps under an identifier is the last object with it. -/
theorem get?_defs_ofChecked {id : Ident} {o : Object} :
    (ofChecked pkg).defs.get? id = some (some o) ↔ pkg.lastWith id = some o := by
  have hdefs : (ofChecked pkg).defs.get? id =
      ((pkg.lastWith id).map some).or
        (([((⟨pkg.ref.name, .unknown⟩ : Ident), (none : Option Object))].find? fun b => decide (b.1 = id)).map
          Prod.snd) := by
    rw [ofChecked, Table.ofList, Table.get?_insertAll, List.reverse_cons, List.find?_append, ← List.map_reverse,
      List.find?_map, Option.map_or, Option.map_map, Table.get?_empty, Option.or_none]
    rfl
  rw [hdefs]
  cases pkg.lastWith id with
  | some p => simp
  | none =>
    -- The identifier of the package clause may be left, but it introduces no object.
    by_cases hid : (⟨pkg.ref.name, .unknown⟩ : Ident) = id <;> simp [hid]

/-- **The analysis keeps the objects that are the last ones with their identifier.** -/
theorem mem_defs_outline_ofChecked {o : Object} :
    o ∈ (ofChecked pkg).outline.defs ↔ pkg.lastWith o.ident = some o := by
  rw [outline, List.mem_filterMap]
  constructor
  · rintro ⟨x, hx, rfl⟩
    obtain ⟨id, hid⟩ := Table.mem_values_iff.1 hx
    have hlast := get?_defs_ofChecked.1 hid
    obtain rfl : o.ident = id := by simpa using List.find?_some hlast
    exact hlast
  · intro h
    exact ⟨some o, Table.mem_values_iff.2 ⟨o.ident, get?_defs_ofChecked.2 h⟩, rfl⟩

/-- **When a package is extracted alike with and without analysis.**  The description of the package and its imports are
always the same.  The entities are the same exactly if every type that the scope binds, defined or alias, is the last
object with its name and position. -/
theorem extract_ofChecked_eq_iff {e : PackageExport} {u v : Universe} (h : e.check u = (.ok pkg, v)) :
    (Package.extract (ofChecked pkg).outline v).ref = (Package.extract pkg.outline v).ref ∧
      (Package.extract (ofChecked pkg).outline v).imports = (Package.extract pkg.outline v).imports ∧
      (Package.extract (ofChecked pkg).outline v = Package.extract pkg.outline v ↔
        ∀ o, pkg.scope.binds o = true → o.isTypeName = true → pkg.lastWith o.ident = some o) := by
  obtain ⟨rfl, -⟩ := PackageExport.check_eq_ok h
  refine ⟨rfl, rfl, fun hsame o hbinds htype => ?_, fun hlast => ?_⟩
  · -- The entity of the object is extracted without analysis, so also with it, and only this object gives it.
    obtain ⟨x, hx⟩ := Option.isSome_iff_exists.1 ((Entity.isSome_ofObject? v e.package.ref o).trans htype)
    obtain ⟨d, hd, -, ho⟩ := PackageExport.exists_declaration_of_binds hbinds
    have hmem : o ∈ e.package.outline.defs := List.mem_map.2 ⟨d, hd, ho.symm⟩
    have hentity : x ∈ e.package.outline.entities v :=
      List.mem_filterMap.2 ⟨o, PackageOutline.mem_topLevel.2 ⟨hmem, hbinds⟩, hx⟩
    obtain ⟨p, hp, hpx⟩ := List.mem_filterMap.1 (Package.mem_entities_of_extract_eq hsame.symm hentity)
    obtain ⟨hpmem, hpbinds⟩ := PackageOutline.mem_topLevel.1 hp
    have hname : p.name = o.name :=
      congrArg EntityKey.name ((Entity.key_of_ofObject? hpx).symm.trans (Entity.key_of_ofObject? hx))
    obtain rfl : p = o := Scope.eq_of_binds hpbinds hbinds hname
    exact mem_defs_outline_ofChecked.1 hpmem
  · refine Package.extract_congr rfl rfl (PackageOutline.entities_congr rfl fun o hentity => ?_)
    refine and_congr_left fun hbinds => ⟨fun hmem => ?_, fun _ => ?_⟩
    · have hkept := mem_defs_outline_ofChecked.1 hmem
      exact List.mem_reverse.1 (List.mem_of_find?_eq_some hkept)
    · have htype : o.isTypeName = true := (Entity.isSome_ofObject? v e.package.ref o).symm.trans hentity
      exact mem_defs_outline_ofChecked.2 (hlast o hbinds htype)

/-- A package without positions: after the struct comes a local variable of the same name. -/
def hidden : PackageExport where
  ref := ⟨"p", "p"⟩
  imports := []
  decls := [.type "T" .unknown (.struct []) [] false, .var "T" .unknown (.basic .int) true]
  errors := []

/-- The struct is extracted from the package as it is, but not from its analysis. -/
theorem hidden_extract :
    ∃ v, hidden.check .initial = (.ok hidden.package, v) ∧
      (Package.extract hidden.package.outline v).aggregates.map Aggregate.name = ["T"] ∧
      (Package.extract (ofChecked hidden.package).outline v).aggregates = [] ∧
      Package.extract (ofChecked hidden.package).outline v ≠ Package.extract hidden.package.outline v := by
  have hcheck : hidden.check .initial = (.ok hidden.package, (hidden.check .initial).2) := rfl
  refine ⟨_, hcheck, by decide +kernel, by decide +kernel, fun hsame => ?_⟩
  have hlast := (extract_ofChecked_eq_iff hcheck).2.2.1 hsame (.defined "T" .unknown ⟨"p", "p"⟩)
  revert hlast
  decide +kernel

end Analysis

end TypeAtlas
