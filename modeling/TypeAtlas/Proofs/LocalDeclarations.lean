import TypeAtlas.Proofs.Extraction

/-!
# Local declarations are invisible

Taking the local declarations out of an export changes nothing that can be seen of the package: the check comes out alike
and leaves the same universe (`CheckedPackage.declareAll_topLevel`), and the package has the same scope and the same
entities (`PackageExport.extract_withoutLocals`).

Local objects do stand among the objects of a checked package, and one of them may be equal to a top-level object in
every respect.  That does no harm, since what counts is which objects the scope binds, and all of these are objects of
top-level declarations.
-/

namespace TypeAtlas

/-- The top-level ones of some declarations. -/
def Declaration.topLevel (ds : List Declaration) : List Declaration := ds.filter fun d => !d.isLocal

/-- The export without its local declarations. -/
def PackageExport.withoutLocals (e : PackageExport) : PackageExport := { e with decls := Declaration.topLevel e.decls }

/-- A local declaration defines nothing. -/
theorem Declaration.defineIn_of_isLocal {d : Declaration} (h : d.isLocal = true) (u : Universe) (owner : PackageRef) :
    d.defineIn u owner = u := by
  cases d with
  | type n pos t methods isLocal =>
    obtain rfl : isLocal = true := h
    rfl
  | _ => rfl

namespace CheckedPackage

/-- **Declarations are taken alike with and without the local ones**, after packages with the same scope. -/
theorem declareAll_topLevel (ds : List Declaration) {p q : CheckedPackage} (href : q.ref = p.ref)
    (hscope : q.scope = p.scope) (u : Universe) :
    (q.declareAll u (Declaration.topLevel ds)).2 = (p.declareAll u ds).2 ∧
      ∀ cause, (q.declareAll u (Declaration.topLevel ds)).1 = .error cause ↔ (p.declareAll u ds).1 = .error cause := by
  induction ds generalizing p q u with
  | nil => exact ⟨rfl, fun cause => by simp [Declaration.topLevel, declareAll]⟩
  | cons d ds ih =>
    by_cases hl : d.isLocal = true
    · have hskip : Declaration.topLevel (d :: ds) = Declaration.topLevel ds := List.filter_cons_of_neg (by simp [hl])
      rw [hskip, declareAll, if_pos hl, Declaration.defineIn_of_isLocal hl]
      refine ih ?_ ?_ u
      · exact href
      · exact hscope
    · have htake : Declaration.topLevel (d :: ds) = d :: Declaration.topLevel ds :=
        List.filter_cons_of_pos (by simp [hl])
      rw [htake, declareAll, declareAll, if_neg hl, if_neg hl, href, hscope]
      split
      · exact ⟨rfl, fun cause => .rfl⟩
      · refine ih ?_ ?_ _ <;> rfl

/-- Whether two checks look alike from outside: both refuse for the same cause, or both give packages with the same scope
and, in every universe, the same entities. -/
inductive LookAlike : Except ExportError CheckedPackage → Except ExportError CheckedPackage → Prop where
  | refused (cause : ExportError) : LookAlike (.error cause) (.error cause)
  | passed {p q : CheckedPackage} (scope : p.scope = q.scope)
      (extract : ∀ u, Package.extract p.outline u = Package.extract q.outline u) : LookAlike (.ok p) (.ok q)

end CheckedPackage

namespace PackageExport

theorem scope_withoutLocals (e : PackageExport) : e.withoutLocals.package.scope = e.package.scope := by
  simp [package, withoutLocals, Declaration.topLevel, List.filter_filter]

/-- **The entities of a package are those of its top-level declarations.** -/
theorem extract_withoutLocals (e : PackageExport) (u : Universe) :
    Package.extract e.withoutLocals.package.outline u = Package.extract e.package.outline u := by
  refine Package.extract_congr rfl rfl (PackageOutline.entities_congr rfl fun o _ => ?_)
  change o ∈ e.withoutLocals.package.defs ∧ e.withoutLocals.package.scope.binds o = true ↔
    o ∈ e.package.defs ∧ e.package.scope.binds o = true
  rw [e.scope_withoutLocals]
  refine and_congr_left fun hbinds => ?_
  -- Both packages have an object that the scope binds, whatever local ones there are.
  obtain ⟨d, hd, hl, rfl⟩ := exists_declaration_of_binds hbinds
  have htop : d ∈ e.withoutLocals.decls := List.mem_filter.2 ⟨hd, by simp [hl]⟩
  exact iff_of_true (List.mem_map_of_mem htop) (List.mem_map_of_mem hd)

/-- **An export is refused with and without its local declarations for the same cause**, and leaves the same universe. -/
theorem check_withoutLocals_error (e : PackageExport) (u : Universe) :
    (e.withoutLocals.check u).2 = (e.check u).2 ∧
      ∀ cause, (e.withoutLocals.check u).1 = .error cause ↔ (e.check u).1 = .error cause := by
  have herrors : e.withoutLocals.errors = e.errors := rfl
  rw [check, check, herrors]
  split
  · exact CheckedPackage.declareAll_topLevel e.decls rfl rfl u
  · exact ⟨rfl, fun cause => .rfl⟩

/-- **Local declarations are invisible.** -/
theorem check_withoutLocals (e : PackageExport) (u : Universe) :
    (e.withoutLocals.check u).2 = (e.check u).2 ∧
      CheckedPackage.LookAlike (e.withoutLocals.check u).1 (e.check u).1 := by
  obtain ⟨huniverse, hcause⟩ := e.check_withoutLocals_error u
  refine ⟨huniverse, ?_⟩
  cases hq : (e.withoutLocals.check u).1 with
  | error cause =>
    rw [(hcause cause).1 hq]
    exact .refused cause
  | ok q =>
    cases hp : (e.check u).1 with
    | error cause =>
      rw [(hcause cause).2 hp] at hq
      cases hq
    | ok p =>
      obtain ⟨rfl, -⟩ := check_eq_ok (Prod.ext hq rfl)
      obtain ⟨rfl, -⟩ := check_eq_ok (Prod.ext hp rfl)
      exact .passed e.scope_withoutLocals e.extract_withoutLocals

end PackageExport

end TypeAtlas
