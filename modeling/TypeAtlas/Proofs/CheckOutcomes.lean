import Mathlib.Data.List.Induction
import Mathlib.Data.List.Nodup
import TypeAtlas.Proofs.LocalDeclarations

/-!
# How the check of an export comes out

The outcome can be read off an export without running the check (`PackageExport.check_outcome`).

* Errors of the compiler refuse it as a whole, and the universe stays as it is.
* Otherwise a top-level name that is declared again refuses it; the first declaration that repeats an earlier one is
  named (`Declaration.FirstRepeat`).
* Otherwise it passes, and package and universe are what the declarations say (`PackageExport.ChecksInto`).

Types are defined before a repetition is noticed, so a refused export may leave definitions behind.  But they are always
definitions of its own path (`CheckedPackage.lookup_declareAll_of_package_ne`).

The declarations are taken in turn.  As long as no name comes again, taking them succeeds and binds the names
(`CheckedPackage.exists_declareAll_eq_ok`, `CheckedPackage.isSome_lookup_of_declareAll`); the rest is taken as if it came
alone after what is there by then (`CheckedPackage.declareAll_append`).
-/

namespace TypeAtlas

namespace Declaration

/-- The names of the top-level ones of some declarations, in order. -/
def topNames (ds : List Declaration) : List String := (topLevel ds).map (·.name)

theorem topNames_append (cs ds : List Declaration) : topNames (cs ++ ds) = topNames cs ++ topNames ds := by
  rw [topNames, topLevel, List.filter_append, List.map_append]
  rfl

theorem topNames_cons_of_isLocal {d : Declaration} (h : d.isLocal = true) (ds : List Declaration) :
    topNames (d :: ds) = topNames ds := by
  rw [topNames, topLevel, List.filter_cons_of_neg (by simp [h])]
  rfl

theorem topNames_cons {d : Declaration} (h : d.isLocal = false) (ds : List Declaration) :
    topNames (d :: ds) = d.name :: topNames ds := by
  rw [topNames, topLevel, List.filter_cons_of_pos (by simp [h])]
  rfl

/-- Whether the first top-level declaration that repeats the name of an earlier one repeats this name. -/
def FirstRepeat (ds : List Declaration) (name : String) : Prop :=
  ∃ before d after, ds = before ++ d :: after ∧ d.isLocal = false ∧ d.name = name ∧
    (topNames before).Nodup ∧ name ∈ topNames before

/-- **If a top-level name comes again, one is the first to do so.** -/
theorem exists_firstRepeat {ds : List Declaration} (h : ¬ (topNames ds).Nodup) : ∃ name, FirstRepeat ds name := by
  induction ds using List.reverseRecOn with
  | nil => exact absurd List.nodup_nil h
  | append_singleton ds d ih =>
    by_cases hds : (topNames ds).Nodup
    · -- Nothing comes again before the last declaration, so it is the one.
      rw [topNames_append] at h
      cases hl : d.isLocal with
      | true =>
        rw [topNames_cons_of_isLocal hl] at h
        exact absurd (by simpa [topNames, topLevel] using hds) h
      | false =>
        rw [topNames_cons hl] at h
        refine ⟨d.name, ds, d, [], rfl, hl, rfl, hds, ?_⟩
        refine Classical.not_not.1 fun hnew => h (List.nodup_append.2 ⟨hds, List.nodup_singleton _, ?_⟩)
        rintro name hname _ hd rfl
        exact hnew (List.mem_singleton.1 hd ▸ hname)
    · obtain ⟨name, before, c, after, rfl, hc⟩ := ih hds
      exact ⟨name, before, c, after ++ [d], by simp, hc⟩

end Declaration

/-! ## Taking declarations in turn -/

namespace CheckedPackage

variable {pkg mid result : CheckedPackage} {u v : Universe} {d : Declaration} {ds : List Declaration}

/-- A local declaration is kept, but not bound. -/
theorem declareAll_cons_of_isLocal (h : d.isLocal = true) :
    pkg.declareAll u (d :: ds) =
      declareAll { pkg with defs := pkg.defs ++ [d.object pkg.ref] } (d.defineIn u pkg.ref) ds := by
  rw [declareAll, if_pos h]

/-- A top-level declaration of a new name is kept and bound. -/
theorem declareAll_cons_of_new (h : d.isLocal = false) (hnew : pkg.scope.lookup d.name = none) :
    pkg.declareAll u (d :: ds) =
      declareAll { pkg with defs := pkg.defs ++ [d.object pkg.ref], scope := pkg.scope.insert (d.object pkg.ref) }
        (d.defineIn u pkg.ref) ds := by
  rw [declareAll, if_neg (by simp [h]), Declaration.name_object, hnew, if_neg (by simp)]

/-- A top-level declaration of a bound name ends the check. -/
theorem declareAll_cons_of_bound (h : d.isLocal = false) (hbound : (pkg.scope.lookup d.name).isSome = true) :
    pkg.declareAll u (d :: ds) = (.error (.redeclared pkg.ref.path d.name), d.defineIn u pkg.ref) := by
  rw [declareAll, if_neg (by simp [h]), Declaration.name_object, if_pos hbound]

/-- **After some declarations were taken, the others are taken from there.** -/
theorem declareAll_append (h : pkg.declareAll u ds = (.ok mid, v)) (rest : List Declaration) :
    pkg.declareAll u (ds ++ rest) = mid.declareAll v rest := by
  induction ds generalizing pkg u with
  | nil =>
    obtain ⟨rfl, rfl⟩ : pkg = mid ∧ u = v := by simpa [declareAll] using h
    rfl
  | cons d ds ih =>
    rw [List.cons_append]
    cases hl : d.isLocal with
    | true =>
      rw [declareAll_cons_of_isLocal hl] at h ⊢
      exact ih h
    | false =>
      cases hbound : pkg.scope.lookup d.name with
      | none =>
        rw [declareAll_cons_of_new hl hbound] at h ⊢
        exact ih h
      | some o =>
        rw [declareAll_cons_of_bound hl (by rw [hbound]; rfl)] at h
        cases h

/-- What the scope binds after declarations were taken. -/
theorem isSome_lookup_of_declareAll (h : pkg.declareAll u ds = (.ok result, v)) {name : String} :
    (result.scope.lookup name).isSome = true ↔
      name ∈ Declaration.topNames ds ∨ (pkg.scope.lookup name).isSome = true := by
  obtain ⟨rfl, -⟩ := declareAll_eq_ok h
  show (Scope.lookup (List.foldl _ _ _) _).isSome = true ↔ _
  rw [PackageExport.lookup_foldl_insert, Option.isSome_or, Option.isSome_map, Bool.or_eq_true, List.find?_isSome]
  refine or_congr_left ?_
  simp [Declaration.topNames, Declaration.topLevel]

/-- **Declarations of new names, none of which comes again, can be taken.** -/
theorem exists_declareAll_eq_ok (hnodup : (Declaration.topNames ds).Nodup)
    (hnew : ∀ name ∈ Declaration.topNames ds, pkg.scope.lookup name = none) (u : Universe) :
    ∃ result v, pkg.declareAll u ds = (.ok result, v) := by
  induction ds generalizing pkg u with
  | nil => exact ⟨pkg, u, rfl⟩
  | cons d ds ih =>
    cases hl : d.isLocal with
    | true =>
      rw [Declaration.topNames_cons_of_isLocal hl] at hnodup hnew
      rw [declareAll_cons_of_isLocal hl]
      refine ih hnodup ?_ _
      exact hnew
    | false =>
      rw [Declaration.topNames_cons hl] at hnodup hnew
      rw [declareAll_cons_of_new hl (hnew d.name List.mem_cons_self)]
      obtain ⟨hd, hnodup⟩ := List.nodup_cons.1 hnodup
      refine ih hnodup (fun name hname => ?_) _
      have hne : name ≠ (d.object pkg.ref).name := by
        rw [Declaration.name_object]
        rintro rfl
        exact hd hname
      exact (Table.get?_insert_of_ne hne ..).trans (hnew name (List.mem_cons_of_mem _ hname))

/-- **Declarations define names of their own package only,** also if they end in a failure. -/
theorem lookup_declareAll_of_package_ne {n : TypeName} (h : n.package ≠ pkg.ref.path) :
    (pkg.declareAll u ds).2.lookup n = u.lookup n := by
  induction ds generalizing pkg u with
  | nil => rfl
  | cons d ds ih =>
    have hstep : (d.defineIn u pkg.ref).lookup n = u.lookup n := by
      rw [Declaration.lookup_defineIn, Declaration.definition?_of_package_ne h, Option.none_or]
    rw [declareAll]
    split
    · rw [ih, hstep]
      exact h
    · split
      · exact hstep
      · rw [ih, hstep]
        exact h

end CheckedPackage

/-! ## The outcome -/

namespace PackageExport

open Declaration (topNames topLevel FirstRepeat)

variable {e : PackageExport} {u v : Universe} {pkg : CheckedPackage}

theorem check_of_errors (h : e.errors ≠ []) : e.check u = (.error (.compile e.ref.path e.errors), u) :=
  if_neg (by simpa using h)

theorem check_of_no_errors (h : e.errors = []) : e.check u = (CheckedPackage.start e).declareAll u e.decls :=
  if_pos (by simpa using h)

/-- An export without errors passes if no top-level name comes again. -/
theorem exists_check_eq_ok (h : e.errors = []) (hnodup : (topNames e.decls).Nodup) (u : Universe) :
    ∃ pkg v, e.check u = (.ok pkg, v) := by
  rw [check_of_no_errors h]
  exact CheckedPackage.exists_declareAll_eq_ok hnodup (fun _ _ => rfl) u

/-- An export without errors is refused for the first top-level name that comes again. -/
theorem check_of_firstRepeat (h : e.errors = []) {name : String} (hname : FirstRepeat e.decls name) :
    (e.check u).1 = .error (.redeclared e.ref.path name) := by
  obtain ⟨before, d, after, hdecls, hl, rfl, hnodup, hmem⟩ := hname
  obtain ⟨mid, v, hmid⟩ : ∃ mid v, (CheckedPackage.start e).declareAll u before = (.ok mid, v) :=
    CheckedPackage.exists_declareAll_eq_ok hnodup (fun _ _ => rfl) u
  have hbound : (mid.scope.lookup d.name).isSome = true :=
    (CheckedPackage.isSome_lookup_of_declareAll hmid).2 (.inl hmem)
  have href : mid.ref = e.ref := congrArg CheckedPackage.ref (CheckedPackage.declareAll_eq_ok hmid).1
  rw [check_of_no_errors h, hdecls, CheckedPackage.declareAll_append hmid,
    CheckedPackage.declareAll_cons_of_bound hl hbound, href]

/-- Where no top-level name comes again, a top-level type stands for what its declaration says. -/
theorem definition?_of_nodup (hnodup : (topNames e.decls).Nodup) {name : String} {pos : Position} {t : Ty}
    {methods : List MethodDecl} (hd : .type name pos t methods false ∈ e.decls) :
    e.definition? ⟨e.ref.path, name⟩ = some ⟨t, methods⟩ := by
  have htop : ∀ {d : Declaration}, d ∈ e.decls → d.isLocal = false → d ∈ topLevel e.decls := fun hd hl =>
    List.mem_filter.2 ⟨hd, by simp [hl]⟩
  have hsome : (Declaration.type name pos t methods false).definition? e.ref ⟨e.ref.path, name⟩ = some ⟨t, methods⟩ :=
    Declaration.definition?_eq_some_iff.2 ⟨rfl, pos, rfl⟩
  cases hx : e.definition? ⟨e.ref.path, name⟩ with
  | none =>
    have hnone := List.findSome?_eq_none_iff.1 hx _ (List.mem_reverse.2 hd)
    cases hnone.symm.trans hsome
  | some x =>
    -- What counts comes from a declaration of this name, and there is one only.
    obtain ⟨c, hc, hcx⟩ := List.exists_of_findSome?_eq_some hx
    obtain ⟨-, pos', rfl⟩ := Declaration.definition?_eq_some_iff.1 hcx
    have hsame := List.inj_on_of_nodup_map hnodup (htop (List.mem_reverse.1 hc) rfl) (htop hd rfl) rfl
    rw [← hcx, hsame, hsome]

/-- What a package and a universe are to be after the check of an export in a universe. -/
structure ChecksInto (e : PackageExport) (u : Universe) (pkg : CheckedPackage) (v : Universe) : Prop where
  ref : pkg.ref = e.ref
  /-- Every declaration gives an object, in order. -/
  defs : pkg.defs = e.decls.map (·.object e.ref)
  /-- The scope binds the names of the top-level declarations, each to its object, and no others. -/
  scope : ∀ name o, pkg.scope.lookup name = some o ↔ ∃ d ∈ e.decls, d.isLocal = false ∧ d.name = name ∧ d.object e.ref = o
  /-- Of imports with one path the last one counts. -/
  imports : ∀ path, pkg.imports.get? path = e.imports.reverse.find? fun p => decide (p.path = path)
  /-- A top-level type stands for what its declaration says, with its methods in order. -/
  defined : ∀ name pos t methods, .type name pos t methods false ∈ e.decls →
    v.lookup ⟨e.ref.path, name⟩ = some ⟨t, methods⟩
  /-- All other names keep their meaning. -/
  kept : ∀ n, (∀ pos t methods, .type n.name pos t methods false ∉ e.decls) → v.lookup n = u.lookup n

theorem lookup_scope_eq_some_iff (hnodup : (topNames e.decls).Nodup) {name : String} {o : Object} :
    e.package.scope.lookup name = some o ↔ ∃ d ∈ e.decls, d.isLocal = false ∧ d.name = name ∧ d.object e.ref = o := by
  have hnodup : ((e.decls.filter fun d => !d.isLocal).reverse.map (·.name)).Nodup := by
    rw [List.map_reverse]
    exact List.nodup_reverse.2 hnodup
  rw [lookup_scope, Option.map_eq_some_iff]
  refine exists_congr fun d => ?_
  rw [find?_eq_some_iff_of_nodup hnodup, List.mem_reverse, List.mem_filter, Bool.not_eq_true', and_assoc, and_assoc]

/-- **An export that passes is checked into what its declarations say.** -/
theorem checksInto (hnodup : (topNames e.decls).Nodup) (h : e.check u = (.ok pkg, v)) : e.ChecksInto u pkg v := by
  obtain ⟨rfl, hv⟩ := check_eq_ok h
  refine ⟨rfl, rfl, fun name o => lookup_scope_eq_some_iff hnodup, fun path => ?_, fun name pos t methods hd => ?_,
    fun n hn => ?_⟩
  · rw [package, Table.ofList, Table.get?_insertAll, Table.get?_empty, Option.or_none, ← List.map_reverse, List.find?_map,
      Option.map_map]
    exact Option.map_id'
  · rw [hv, definition?_of_nodup hnodup hd, Option.some_or]
  · have hnone : e.definition? n = none := by
      refine List.findSome?_eq_none_iff.2 fun d hd => Option.eq_none_iff_forall_ne_some.2 fun x hx => ?_
      obtain ⟨-, pos, rfl⟩ := Declaration.definition?_eq_some_iff.1 hx
      exact hn pos x.underlying x.methods (List.mem_reverse.1 hd)
    rw [hv, hnone, Option.none_or]

/-- Without errors the check ends with a package or with the first top-level name that comes again. -/
theorem check_fst_of_no_errors (h : e.errors = []) (u : Universe) :
    ((topNames e.decls).Nodup ∧ ∃ pkg, (e.check u).1 = .ok pkg) ∨
      (¬ (topNames e.decls).Nodup ∧
        ∃ name, FirstRepeat e.decls name ∧ (e.check u).1 = .error (.redeclared e.ref.path name)) := by
  by_cases hnodup : (topNames e.decls).Nodup
  · obtain ⟨pkg, v, hpass⟩ := exists_check_eq_ok h hnodup u
    exact .inl ⟨hnodup, pkg, by rw [hpass]⟩
  · obtain ⟨name, hname⟩ := Declaration.exists_firstRepeat hnodup
    exact .inr ⟨hnodup, name, hname, check_of_firstRepeat h hname⟩

/-- In an export that passes no top-level name comes again. -/
theorem nodup_topNames_of_check (h : (e.check u).1 = .ok pkg) : (topNames e.decls).Nodup := by
  by_cases herrors : e.errors = []
  · rcases check_fst_of_no_errors herrors u with ⟨hnodup, -⟩ | ⟨-, name, -, hrefused⟩
    · exact hnodup
    · cases hrefused.symm.trans h
  · rw [check_of_errors herrors] at h
    cases h

theorem check_eq_compile_iff :
    (∃ package errors, (e.check u).1 = .error (.compile package errors)) ↔ e.errors ≠ [] := by
  constructor
  · rintro ⟨package, errors, hc⟩ herrors
    rcases check_fst_of_no_errors herrors u with ⟨-, pkg, hpass⟩ | ⟨-, name, -, hrefused⟩
    · cases hpass.symm.trans hc
    · cases hrefused.symm.trans hc
  · intro herrors
    exact ⟨_, _, by rw [check_of_errors herrors]⟩

theorem check_eq_redeclared_iff (h : e.errors = []) {package name : String} :
    (e.check u).1 = .error (.redeclared package name) ↔ package = e.ref.path ∧ FirstRepeat e.decls name := by
  constructor
  · intro hc
    rcases check_fst_of_no_errors h u with ⟨-, pkg, hpass⟩ | ⟨-, first, hfirst, hrefused⟩
    · cases hpass.symm.trans hc
    · cases hrefused.symm.trans hc
      exact ⟨rfl, hfirst⟩
  · rintro ⟨rfl, hname⟩
    exact check_of_firstRepeat h hname

/-- **A check leaves other packages alone,** whichever way it comes out. -/
theorem lookup_check_of_package_ne {n : TypeName} (h : n.package ≠ e.ref.path) :
    (e.check u).2.lookup n = u.lookup n := by
  unfold check
  split
  · exact CheckedPackage.lookup_declareAll_of_package_ne h
  · rfl

/-- **How the check of an export comes out.**  It fails for compile errors exactly if there are any, and then the universe
stays as it is.  Otherwise it fails for a redeclaration exactly if a top-level name is declared twice, and names the first
declaration that repeats an earlier one.  Otherwise it passes, and package and universe are what the declarations say.
However it comes out, names of other packages keep their meaning. -/
theorem check_outcome (e : PackageExport) (u : Universe) :
    ((∃ package errors, (e.check u).1 = .error (.compile package errors)) ↔ e.errors ≠ []) ∧
      (e.errors ≠ [] → e.check u = (.error (.compile e.ref.path e.errors), u)) ∧
      (e.errors = [] →
        ((∃ package name, (e.check u).1 = .error (.redeclared package name)) ↔ ¬ (topNames e.decls).Nodup) ∧
        (∀ package name, (e.check u).1 = .error (.redeclared package name) ↔
          package = e.ref.path ∧ FirstRepeat e.decls name) ∧
        ((topNames e.decls).Nodup → ∃ pkg v, e.check u = (.ok pkg, v) ∧ e.ChecksInto u pkg v)) ∧
      ∀ n, n.package ≠ e.ref.path → (e.check u).2.lookup n = u.lookup n := by
  refine ⟨check_eq_compile_iff, check_of_errors, fun herrors => ⟨⟨?_, ?_⟩, ?_, ?_⟩, fun n => lookup_check_of_package_ne⟩
  · rintro ⟨package, name, hc⟩ hnodup
    obtain ⟨pkg, v, hpass⟩ := exists_check_eq_ok herrors hnodup u
    rw [hpass] at hc
    cases hc
  · intro hrepeat
    obtain ⟨name, hname⟩ := Declaration.exists_firstRepeat hrepeat
    exact ⟨_, name, check_of_firstRepeat herrors hname⟩
  · exact fun package name => check_eq_redeclared_iff herrors
  · intro hnodup
    obtain ⟨pkg, v, hpass⟩ := exists_check_eq_ok herrors hnodup u
    exact ⟨pkg, v, hpass, checksInto hnodup hpass⟩

/-- A package that imports one path twice, under two names, and declares `Box` with a method.  In the body of a function
it declares another `Box`. -/
def boxes : PackageExport where
  ref := ⟨"box", "box"⟩
  imports := [⟨"fmt", "fmt"⟩, ⟨"io", "io"⟩, ⟨"fmt", "format"⟩]
  decls := [
    .type "Box" .unknown (.struct []) [⟨"Open", ⟨[], [], false⟩, true, .unknown⟩] false,
    .type "Box" .unknown (.basic .int) [] true,
    .func "New" .unknown ⟨[], [.named ⟨"box", "Box"⟩], false⟩]
  errors := []

/-- The same package with a variable `New` besides the function. -/
def clashingBoxes : PackageExport := { boxes with decls := boxes.decls ++ [.var "New" .unknown (.basic .int) false] }

/-- `Box` is defined as the top-level declaration says, and the later import counts.  With the variable the package is
refused, and `error` stands for what it stood for. -/
theorem boxes_outcome :
    (∃ pkg v, boxes.check .initial = (.ok pkg, v) ∧
        pkg.scope.lookup "Box" = some (.defined "Box" .unknown ⟨"box", "box"⟩) ∧
        pkg.imports.get? "fmt" = some ⟨"fmt", "format"⟩ ∧
        v.lookup ⟨"box", "Box"⟩ = some ⟨.struct [], [⟨"Open", ⟨[], [], false⟩, true, .unknown⟩]⟩) ∧
      (clashingBoxes.check .initial).1 = .error (.redeclared "box" "New") ∧
      (clashingBoxes.check .initial).2.lookup ⟨"", "error"⟩ = Universe.initial.lookup ⟨"", "error"⟩ ∧
      { boxes with errors := ["no such type"] }.check .initial = (.error (.compile "box" ["no such type"]), .initial) := by
  obtain ⟨-, -, hboxes, -⟩ := boxes.check_outcome .initial
  obtain ⟨-, -, hclashing, hothers⟩ := clashingBoxes.check_outcome .initial
  obtain ⟨-, herrors, -, -⟩ := check_outcome { boxes with errors := ["no such type"] } .initial
  obtain ⟨-, -, hpass⟩ := hboxes rfl
  obtain ⟨pkg, v, hcheck, hinto⟩ := hpass (by decide)
  refine ⟨⟨pkg, v, hcheck, ?_, ?_, ?_⟩, ?_, hothers _ (by decide), herrors (by decide)⟩
  · exact (hinto.scope _ _).2 ⟨_, List.mem_cons_self, rfl, rfl, rfl⟩
  · exact hinto.imports "fmt"
  · exact hinto.defined _ _ _ _ List.mem_cons_self
  · exact ((hclashing rfl).2.1 _ _).2 ⟨rfl, boxes.decls, _, [], rfl, rfl, rfl, by decide, by decide⟩

end PackageExport

end TypeAtlas
