import TypeAtlas.PackageRef
import TypeAtlas.Proofs.Tables

/-!
# Lists of packages without repetition

`PackageRef.sortUnique` sorts references to packages by path and then drops neighbours with one path.  Sorting keeps
references with one path in their order, and of neighbours the first one stays, so the result holds the first reference
to each path (`PackageRef.mem_sortUnique_iff`), in strictly increasing order of the paths
(`PackageRef.pairwise_sortUnique`).  So it makes no difference whether packages are left out before or after
(`PackageRef.sortUnique_filter`).
-/

namespace TypeAtlas

namespace PackageRef

/-! ## Sorting -/

theorem not_before_iff {p q : PackageRef} : (!q.before p) = true ↔ p.path ≤ q.path := by
  rw [before, Bool.not_eq_true', decide_eq_false_iff_not, String.not_lt]

theorem not_before_trans (p q r : PackageRef) (hpq : (!q.before p) = true) (hqr : (!r.before q) = true) :
    (!r.before p) = true :=
  not_before_iff.2 (String.le_trans (not_before_iff.1 hpq) (not_before_iff.1 hqr))

theorem not_before_total (p q : PackageRef) : (!q.before p || !p.before q) = true := by
  rw [Bool.or_eq_true, not_before_iff, not_before_iff]
  exact String.le_total p.path q.path

theorem pairwise_sort (ps : List PackageRef) : (sort ps).Pairwise fun p q => p.path ≤ q.path :=
  (List.pairwise_mergeSort not_before_trans not_before_total ps).imp fun h => not_before_iff.1 h

/-- **Sorting keeps the references with one path in their order.** -/
theorem filter_sort (path : String) (ps : List PackageRef) :
    (sort ps).filter (fun p => decide (p.path = path)) = ps.filter fun p => decide (p.path = path) := by
  have hsame : (ps.filter fun p => decide (p.path = path)).Pairwise fun p q => (!q.before p) = true := by
    refine List.pairwise_of_forall_mem_list fun p hp q hq => not_before_iff.2 ?_
    have hp : p.path = path := by simpa using (List.mem_filter.1 hp).2
    have hq : q.path = path := by simpa using (List.mem_filter.1 hq).2
    exact (hp.trans hq.symm) ▸ String.le_refl p.path
  have hsub : (ps.filter fun p => decide (p.path = path)).Sublist (sort ps) :=
    List.sublist_mergeSort not_before_trans not_before_total hsame List.filter_sublist
  have hlength := ((List.mergeSort_perm ps fun p q => !q.before p).filter fun p => decide (p.path = path)).length_eq
  have hfilter := hsub.filter fun p => decide (p.path = path)
  rw [List.filter_filter] at hfilter
  simp only [Bool.and_self] at hfilter
  exact (hfilter.eq_of_length hlength.symm).symm

/-! ## Dropping repetitions -/

/-- Of a path, the first reference stays. -/
theorem find?_dropAfter (path : String) (p : PackageRef) (qs : List PackageRef) :
    (p :: dropAfter p qs).find? (fun q => decide (q.path = path)) =
      (p :: qs).find? fun q => decide (q.path = path) := by
  induction qs generalizing p with
  | nil => rfl
  | cons q qs ih =>
    rw [dropAfter]
    split
    case isTrue hpq =>
      have hpq : p.path = q.path := by simpa [samePackage] using hpq
      rw [ih]
      by_cases hp : p.path = path
      · rw [List.find?_cons_of_pos (by simpa using hp), List.find?_cons_of_pos (by simpa using hp)]
      · rw [List.find?_cons_of_neg (by simpa using hp), List.find?_cons_of_neg (by simpa using hp),
          List.find?_cons_of_neg (by simpa [← hpq] using hp)]
    case isFalse => rw [List.find?_cons, ih, List.find?_cons (a := p)]

/-- In a sorted list, only references with larger paths stay after one that stays. -/
theorem pairwise_dropAfter {p : PackageRef} {qs : List PackageRef}
    (h : (p :: qs).Pairwise fun p q => p.path ≤ q.path) : (p :: dropAfter p qs).Pairwise fun p q => p.path < q.path := by
  induction qs generalizing p with
  | nil => exact List.pairwise_singleton _ p
  | cons q qs ih =>
    obtain ⟨hp, hqs⟩ := List.pairwise_cons.1 h
    rw [dropAfter]
    split
    case isTrue =>
      exact ih (List.pairwise_cons.2 ⟨fun r hr => hp r (List.mem_cons_of_mem q hr), (List.pairwise_cons.1 hqs).2⟩)
    case isFalse hne =>
      have hlt : p.path < q.path := by
        refine Std.lt_of_le_of_ne (hp q List.mem_cons_self) ?_
        simpa [samePackage] using hne
      refine List.pairwise_cons.2 ⟨fun r hr => ?_, ih hqs⟩
      rcases List.mem_cons.1 hr with rfl | hr
      · exact hlt
      · exact String.lt_trans hlt ((List.pairwise_cons.1 (ih hqs)).1 r hr)

/-! ## Both -/

/-- **The paths increase strictly.** -/
theorem pairwise_sortUnique (ps : List PackageRef) : (sortUnique ps).Pairwise fun p q => p.path < q.path := by
  have h := pairwise_sort ps
  unfold sortUnique
  cases hs : sort ps with
  | nil => exact .nil
  | cons p qs =>
    rw [hs] at h
    exact pairwise_dropAfter h

theorem find?_sortUnique (path : String) (ps : List PackageRef) :
    (sortUnique ps).find? (fun p => decide (p.path = path)) = ps.find? fun p => decide (p.path = path) := by
  have hsort : (sort ps).find? (fun p => decide (p.path = path)) = ps.find? fun p => decide (p.path = path) := by
    rw [← List.head?_filter, filter_sort, List.head?_filter]
  unfold sortUnique
  cases hs : sort ps with
  | nil =>
    rw [← hsort, hs]
    rfl
  | cons p qs =>
    rw [← hsort, hs]
    exact find?_dropAfter path p qs

/-- **The list holds the first reference to each path.** -/
theorem mem_sortUnique_iff {p : PackageRef} {ps : List PackageRef} :
    p ∈ sortUnique ps ↔ ps.find? (fun q => decide (q.path = p.path)) = some p := by
  have hnodup : ((sortUnique ps).map path).Nodup := List.pairwise_map.2 ((pairwise_sortUnique ps).imp Std.ne_of_lt)
  rw [← find?_sortUnique, find?_eq_some_iff_of_nodup hnodup, and_iff_left rfl]

/-- Lists with increasing paths and the same references are equal. -/
theorem eq_of_pairwise_lt {ps qs : List PackageRef} (hps : ps.Pairwise fun p q => p.path < q.path)
    (hqs : qs.Pairwise fun p q => p.path < q.path) (h : ∀ p, p ∈ ps ↔ p ∈ qs) : ps = qs := by
  have hnodup : ∀ {rs : List PackageRef}, (rs.Pairwise fun p q => p.path < q.path) → rs.Nodup := by
    intro rs hrs
    refine hrs.imp fun {p q} hlt => ?_
    rintro rfl
    exact String.lt_irrefl p.path hlt
  have hperm : ps.Perm qs := (List.perm_ext_iff_of_nodup (hnodup hps) (hnodup hqs)).2 h
  exact hperm.eq_of_pairwise (fun p q _ _ hpq hqp => absurd hqp (String.lt_asymm hpq)) hps hqs

/-- **Packages can be left out before or after.**  The reference that stands for a package stays the same, whatever its
name, because references with one path are kept or left out together. -/
theorem sortUnique_filter (keep : String → Bool) (ps : List PackageRef) :
    sortUnique (ps.filter fun p => keep p.path) = (sortUnique ps).filter fun p => keep p.path := by
  refine eq_of_pairwise_lt (pairwise_sortUnique _) ((pairwise_sortUnique ps).filter _) fun p => ?_
  rw [List.mem_filter, mem_sortUnique_iff, mem_sortUnique_iff, List.find?_filter]
  by_cases hp : keep p.path = true
  · have hsame : ∀ q : PackageRef, (keep q.path = true ∧ decide (q.path = p.path) = true) ↔ q.path = p.path := by
      intro q
      rw [decide_eq_true_eq]
      exact and_iff_right_of_imp fun hq => hq ▸ hp
    simp only [hsame, and_iff_left hp]
  · refine iff_of_false (fun h => ?_) fun h => hp h.2
    have hkept := List.find?_some h
    exact hp (of_decide_eq_true hkept).1

end PackageRef

end TypeAtlas
