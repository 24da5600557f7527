import TypeAtlas.Export.Check
import TypeAtlas.Proofs.Tables

/-!
# What checking an export gives

Whether an export passes the check does not depend on the universe (`PackageExport.check_fst`).  If it passes, the
package holds one object per declaration and binds the top-level ones (`PackageExport.package`), and the universe gains
the definitions of the export and nothing else (`PackageExport.check_eq_ok`).

A definition is always one of the package that declares it: an export never changes what a name of another package
stands for (`PackageExport.definition?_of_package_ne`).
-/

namespace TypeAtlas

/-! ## Look-ups in changed universes -/

namespace Universe

theorem ext_lookup {u v : Universe} (h : ∀ n, u.lookup n = v.lookup n) : u = v := by
  cases u
  cases v
  exact congrArg Universe.mk (Table.ext_get? h)

theorem lookup_define (u : Universe) (n m : TypeName) (t : Ty) :
    (u.define n t).lookup m = if m = n then some ⟨t, []⟩ else u.lookup m :=
  Table.get?_insert u.defs n m _

theorem lookup_addMethod (u : Universe) (n m : TypeName) (d : MethodDecl) :
    (u.addMethod n d).lookup m =
      if m = n then (u.lookup n).map fun x => { x with methods := x.methods ++ [d] } else u.lookup m := by
  unfold addMethod
  split
  case h_1 x hx =>
    rw [hx, Option.map_some]
    exact Table.get?_insert u.defs n m _
  case h_2 hx =>
    split
    case isTrue h => rw [h, hx, Option.map_none]
    case isFalse => rfl

/-- **A package's definitions are taken over, and nothing else changes.** -/
theorem lookup_adopt (u other : Universe) (package : String) (n : TypeName) :
    (u.adopt other package).lookup n =
      if n.package = package then (other.lookup n).or (u.lookup n) else u.lookup n := by
  have h : (u.adopt other package).lookup n = ((other.lookup n).filter fun _ => n.package == package).or (u.lookup n) := by
    have h := Table.get?_insertAll_entries (other.defs.filter fun (k : TypeName) _ => k.package == package) u.defs n
    rw [Table.get?_filter] at h
    exact h
  rw [h]
  by_cases hp : n.package = package
  · rw [if_pos hp, beq_iff_eq.2 hp]
    cases other.lookup n <;> rfl
  · rw [if_neg hp, beq_eq_false_iff_ne.2 hp]
    cases other.lookup n <;> rfl

end Universe

namespace Declaration

/-- What a top-level type declaration of a package makes of a name. -/
def definition? (owner : PackageRef) (n : TypeName) : Declaration → Option Definition
  | type name _ t methods false => if n = ⟨owner.path, name⟩ then some ⟨t, methods⟩ else none
  | _ => none

theorem lookup_foldl_addMethod (n m : TypeName) : ∀ (methods : List MethodDecl) (u : Universe),
    (methods.foldl (fun u d => u.addMethod n d) u).lookup m =
      if m = n then (u.lookup n).map fun x => { x with methods := x.methods ++ methods } else u.lookup m
  | [], u => by
    split
    case isTrue h => simp [h]
    case isFalse => rfl
  | d :: ds, u => by
    rw [List.foldl_cons, lookup_foldl_addMethod n m ds, Universe.lookup_addMethod, Universe.lookup_addMethod, if_pos rfl]
    split
    · simp [Function.comp_def]
    · rfl

/-- **Taking a declaration adds its definition.** -/
theorem lookup_defineIn (u : Universe) (owner : PackageRef) (n : TypeName) (d : Declaration) :
    (d.defineIn u owner).lookup n = (d.definition? owner n).or (u.lookup n) := by
  cases d with
  | type name pos t methods isLocal =>
    cases isLocal with
    | true => rfl
    | false =>
      rw [defineIn, definition?, lookup_foldl_addMethod, Universe.lookup_define, Universe.lookup_define, if_pos rfl]
      split
      · simp
      · rfl
  | _ => rfl

theorem definition?_eq_some_iff {owner : PackageRef} {n : TypeName} {d : Declaration} {x : Definition} :
    d.definition? owner n = some x ↔
      n.package = owner.path ∧ ∃ pos, d = .type n.name pos x.underlying x.methods false := by
  constructor
  · intro h
    unfold definition? at h
    split at h
    case h_1 name pos t methods =>
      split at h
      case isTrue hn =>
        cases h
        subst hn
        exact ⟨rfl, pos, rfl⟩
      case isFalse => cases h
    case h_2 => cases h
  · rintro ⟨hn, pos, rfl⟩
    have hname : n = ⟨owner.path, n.name⟩ := by rw [← hn]
    rw [definition?, if_pos hname]

theorem definition?_of_package_ne {owner : PackageRef} {n : TypeName} {d : Declaration} (h : n.package ≠ owner.path) :
    d.definition? owner n = none :=
  Option.eq_none_iff_forall_ne_some.2 fun _ hx => h (definition?_eq_some_iff.1 hx).1

theorem name_object (owner : PackageRef) (d : Declaration) : (d.object owner).name = d.name := by
  cases d with
  | type n pos t methods isLocal => cases isLocal <;> rfl
  | _ => rfl

/-- The type of a top-level defined type is its name. -/
theorem type_object_of_definedType {owner : PackageRef} {d : Declaration} (hl : d.isLocal = false)
    (hk : (d.object owner).kind = .definedType) : (d.object owner).type = .named ⟨owner.path, d.name⟩ := by
  cases d with
  | type n pos t methods isLocal =>
    obtain rfl : isLocal = false := hl
    rfl
  | _ => cases hk

end Declaration

/-! ## The package and its definitions -/

namespace PackageExport

/-- The package that an export describes: every declaration gives an object, and the top-level ones are bound. -/
def package (e : PackageExport) : CheckedPackage where
  ref := e.ref
  imports := Table.ofList (e.imports.map fun p => (p.path, p))
  defs := e.decls.map (·.object e.ref)
  scope := (e.decls.filter fun d => !d.isLocal).foldl (fun s d => s.insert (d.object e.ref)) .empty

/-- What an export makes of a name: the last of its declarations counts. -/
def definition? (e : PackageExport) (n : TypeName) : Option Definition :=
  e.decls.reverse.findSome? (·.definition? e.ref n)

theorem definition?_of_package_ne {e : PackageExport} {n : TypeName} (h : n.package ≠ e.ref.path) :
    e.definition? n = none :=
  List.findSome?_eq_none_iff.2 fun _ _ => Declaration.definition?_of_package_ne h

end PackageExport

namespace CheckedPackage

theorem declareAll_fst (u v : Universe) : ∀ (ds : List Declaration) (pkg : CheckedPackage),
    (pkg.declareAll u ds).1 = (pkg.declareAll v ds).1 := by
  intro ds
  induction ds generalizing u v with
  | nil => exact fun pkg => rfl
  | cons d ds ih =>
    intro pkg
    rw [declareAll, declareAll]
    split
    · exact ih _ _ _
    · split
      · rfl
      · exact ih _ _ _

theorem declareAll_eq_ok {u v : Universe} {pkg result : CheckedPackage} {ds : List Declaration}
    (h : pkg.declareAll u ds = (.ok result, v)) :
    result = { pkg with
      defs := pkg.defs ++ ds.map (·.object pkg.ref)
      scope := (ds.filter fun d => !d.isLocal).foldl (fun s d => s.insert (d.object pkg.ref)) pkg.scope } ∧
    ∀ n, v.lookup n = (ds.reverse.findSome? (·.definition? pkg.ref n)).or (u.lookup n) := by
  induction ds generalizing u pkg with
  | nil =>
    obtain ⟨rfl, rfl⟩ : pkg = result ∧ u = v := by simpa [declareAll] using h
    exact ⟨by simp, fun n => rfl⟩
  | cons d ds ih =>
    -- The definition of the first declaration is there before the others are taken.
    have hlookup : ∀ n, (ds.reverse.findSome? (·.definition? pkg.ref n)).or ((d.defineIn u pkg.ref).lookup n) =
        ((d :: ds).reverse.findSome? (·.definition? pkg.ref n)).or (u.lookup n) := by
      intro n
      rw [Declaration.lookup_defineIn, List.reverse_cons, List.findSome?_append, List.findSome?_singleton,
        Option.or_assoc]
    rw [declareAll] at h
    split at h
    case isTrue hl =>
      obtain ⟨rfl, hv⟩ := ih h
      refine ⟨?_, fun n => (hv n).trans (hlookup n)⟩
      rw [List.filter_cons_of_neg (by simp [hl])]
      simp
    case isFalse hl =>
      split at h
      · cases h
      · obtain ⟨rfl, hv⟩ := ih h
        refine ⟨?_, fun n => (hv n).trans (hlookup n)⟩
        rw [List.filter_cons_of_pos (by simp [hl])]
        simp

end CheckedPackage

namespace PackageExport

/-- **Whether an export passes, and with which package, does not depend on the universe.** -/
theorem check_fst (e : PackageExport) (u v : Universe) : (e.check u).1 = (e.check v).1 := by
  unfold check
  split
  · exact CheckedPackage.declareAll_fst u v e.decls _
  · rfl

/-- **What an export that passes gives:** its package, and its definitions before those of the universe. -/
theorem check_eq_ok {e : PackageExport} {u v : Universe} {pkg : CheckedPackage} (h : e.check u = (.ok pkg, v)) :
    pkg = e.package ∧ ∀ n, v.lookup n = (e.definition? n).or (u.lookup n) := by
  unfold check at h
  split at h
  · obtain ⟨rfl, hv⟩ := CheckedPackage.declareAll_eq_ok h
    exact ⟨rfl, hv⟩
  · cases h

/-- Of the declarations whose objects are bound in turn, the last one of a name counts. -/
theorem lookup_foldl_insert (owner : PackageRef) (name : String) : ∀ (ds : List Declaration) (s : Scope),
    (ds.foldl (fun s d => s.insert (d.object owner)) s).lookup name =
      ((ds.reverse.find? fun d => decide (d.name = name)).map (·.object owner)).or (s.lookup name)
  | [], s => rfl
  | d :: ds, s => by
    have hinsert : (s.insert (d.object owner)).lookup name =
        if name = d.name then some (d.object owner) else s.lookup name := by
      rw [← Declaration.name_object owner d]
      exact Table.get?_insert ..
    rw [List.foldl_cons, lookup_foldl_insert owner name ds, List.reverse_cons, List.find?_append, Option.map_or,
      Option.or_assoc, hinsert]
    by_cases hname : d.name = name
    · simp [hname]
    · simp [hname, Ne.symm hname]

/-- **The scope binds a name to the object of the last top-level declaration of the name.** -/
theorem lookup_scope (e : PackageExport) (name : String) :
    e.package.scope.lookup name =
      ((e.decls.filter fun d => !d.isLocal).reverse.find? fun d => decide (d.name = name)).map (·.object e.ref) := by
  rw [package, lookup_foldl_insert]
  exact Option.or_none

/-- The scope binds objects of top-level declarations. -/
theorem exists_declaration_of_binds {e : PackageExport} {o : Object} (h : e.package.scope.binds o = true) :
    ∃ d ∈ e.decls, d.isLocal = false ∧ o = d.object e.ref := by
  have h : e.package.scope.lookup o.name = some o := by simpa [Scope.binds] using h
  rw [lookup_scope] at h
  obtain ⟨d, hd, ho⟩ := Option.map_eq_some_iff.1 h
  obtain ⟨hmem, hlocal⟩ := List.mem_filter.1 (List.mem_reverse.1 (List.mem_of_find?_eq_some hd))
  exact ⟨d, hmem, by simpa using hlocal, ho.symm⟩

/-- **A defined type that the scope binds has its own name as its type.** -/
theorem type_of_binds {e : PackageExport} {o : Object} (h : e.package.scope.binds o = true) (hk : o.kind = .definedType) :
    o.type = .named ⟨e.ref.path, o.name⟩ := by
  obtain ⟨d, -, hl, rfl⟩ := exists_declaration_of_binds h
  rw [Declaration.name_object]
  exact Declaration.type_object_of_definedType hl hk

end PackageExport

end TypeAtlas
