import Mathlib.Algebra.BigOperators.Group.Finset.Basic
import TypeAtlas.Ty.Equality

/-!
# Counting arrivals up to one

A search that merges equal finds cannot tell how often something was found, only whether it was found never, once or
more often; where it was found once, it also knows how.  `Arrivals` is this kind of number.  Arrivals are added
(`AddCommMonoid`), and what is done with every single arrival respects sums as long as no arrival gets lost
(`Arrivals.follow_add`).

Two lists of arrivals by type count the same for a purpose if they count the same at every type that matters for it
(`Arrivals.total_congr`).
-/

namespace TypeAtlas

/-- How often something was found, as far as it matters: never, once and how, or more often. -/
inductive Arrivals (α : Type) where
  | never
  | once (how : α)
  | often

namespace Arrivals

variable {α β : Type}

/-- Never, once or more often in two places together. -/
def add : Arrivals α → Arrivals α → Arrivals α
  | never, y => y
  | x, never => x
  | _, _ => often

instance : Zero (Arrivals α) := ⟨never⟩

instance : Add (Arrivals α) := ⟨add⟩

instance : AddCommMonoid (Arrivals α) where
  zero_add x := by cases x <;> rfl
  add_zero x := by cases x <;> rfl
  add_comm x y := by cases x <;> cases y <;> rfl
  add_assoc x y z := by cases x <;> cases y <;> cases z <;> rfl
  nsmul := nsmulRec

theorem once_ne_zero (a : α) : once a ≠ 0 := nofun

theorem often_ne_zero : (often : Arrivals α) ≠ 0 := nofun

/-- **Two arrivals are more than one.** -/
theorem add_eq_often {x y : Arrivals α} (hx : x ≠ 0) (hy : y ≠ 0) : x + y = often := by
  cases x with
  | never => exact absurd rfl hx
  | once a => cases y with
    | never => exact absurd rfl hy
    | once b => rfl
    | often => rfl
  | often => cases y with
    | never => exact absurd rfl hy
    | once b => rfl
    | often => rfl

theorem add_eq_zero_iff {x y : Arrivals α} : x + y = 0 ↔ x = 0 ∧ y = 0 := by
  constructor
  · intro h
    by_cases hx : x = 0
    · rw [hx, zero_add] at h
      exact ⟨hx, h⟩
    · by_cases hy : y = 0
      · rw [hy, add_zero] at h
        exact ⟨h, hy⟩
      · rw [add_eq_often hx hy] at h
        exact absurd h often_ne_zero
  · rintro ⟨rfl, rfl⟩
    exact add_zero 0

/-- A sum counts something exactly if one of its parts does. -/
theorem sum_ne_zero_iff {xs : List (Arrivals α)} : xs.sum ≠ 0 ↔ ∃ x ∈ xs, x ≠ 0 := by
  induction xs with
  | nil => simp
  | cons x xs ih =>
    rw [List.sum_cons, Ne, add_eq_zero_iff, not_and_or, List.exists_mem_cons_iff]
    exact or_congr Iff.rfl ih

/-- A sum of arrivals, none of which is `0`, is one arrival only if it has one part. -/
theorem sum_eq_once_iff {xs : List (Arrivals α)} (h : ∀ x ∈ xs, x ≠ 0) {a : α} : xs.sum = once a ↔ xs = [once a] := by
  constructor
  · intro hs
    match xs, h with
    | [], _ => cases hs
    | [x], _ => rw [List.sum_singleton] at hs; rw [hs]
    | x :: y :: ys, h =>
      have hy : y + ys.sum ≠ 0 := fun he => h y (by simp) (add_eq_zero_iff.1 he).1
      rw [List.sum_cons, List.sum_cons, add_eq_often (h x (by simp)) hy] at hs
      cases hs
  · rintro rfl
    exact List.sum_singleton

theorem sum_flatMap {γ : Type} (g : γ → List (Arrivals α)) (xs : List γ) :
    (xs.flatMap g).sum = (xs.map fun x => (g x).sum).sum := by
  rw [List.flatMap_def, List.sum_flatten, List.map_map]
  rfl

/-- What the arrivals lead to, if each of them leads to `k`. -/
def follow (k : α → Arrivals β) : Arrivals α → Arrivals β
  | never => never
  | once a => k a
  | often => often

@[simp] theorem follow_zero (k : α → Arrivals β) : (0 : Arrivals α).follow k = 0 := rfl

theorem follow_ne_zero_iff {k : α → Arrivals β} (hk : ∀ a, k a ≠ 0) {x : Arrivals α} : x.follow k ≠ 0 ↔ x ≠ 0 := by
  constructor
  · rintro h rfl
    exact h (follow_zero k)
  · intro h
    cases x with
    | never => exact absurd rfl h
    | once a => exact hk a
    | often => exact often_ne_zero

/-- **Following arrivals respects sums,** if every arrival leads somewhere. -/
theorem follow_add {k : α → Arrivals β} (hk : ∀ a, k a ≠ 0) (x y : Arrivals α) :
    (x + y).follow k = x.follow k + y.follow k := by
  by_cases hx : x = 0
  · rw [hx, zero_add, follow_zero, zero_add]
  by_cases hy : y = 0
  · rw [hy, add_zero, follow_zero, add_zero]
  rw [add_eq_often hx hy, add_eq_often ((follow_ne_zero_iff hk).2 hx) ((follow_ne_zero_iff hk).2 hy)]
  rfl

/-- The only arrival, if there is only one. -/
def single? : Arrivals α → Option α
  | once a => some a
  | _ => none

theorem single?_eq_some_iff {x : Arrivals α} {a : α} : x.single? = some a ↔ x = once a := by
  cases x <;> simp [single?]

/-! ## Arrivals by type -/

/-- What arrivals lead to, if each of them leads to all of `ks`. -/
def spread (ks : List (α → Arrivals β)) (x : Arrivals α) : Arrivals β := (ks.map fun k => x.follow k).sum

theorem spread_zero (ks : List (α → Arrivals β)) : spread ks 0 = 0 := by
  induction ks with
  | nil => rfl
  | cons k ks ih => rw [spread, List.map_cons, List.sum_cons, follow_zero, zero_add]; exact ih

theorem spread_add {ks : List (α → Arrivals β)} (hk : ∀ k ∈ ks, ∀ a, k a ≠ 0) (x y : Arrivals α) :
    spread ks (x + y) = spread ks x + spread ks y := by
  rw [spread, spread, spread, ← List.sum_map_add]
  exact congrArg List.sum (List.map_congr_left fun k hm => follow_add (hk k hm) x y)

theorem spread_ne_zero_iff {ks : List (α → Arrivals β)} (hk : ∀ k ∈ ks, ∀ a, k a ≠ 0) {x : Arrivals α} :
    spread ks x ≠ 0 ↔ ks ≠ [] ∧ x ≠ 0 := by
  rw [spread, sum_ne_zero_iff]
  constructor
  · rintro ⟨y, hy, h⟩
    obtain ⟨k, hm, rfl⟩ := List.mem_map.1 hy
    exact ⟨List.ne_nil_of_mem hm, (follow_ne_zero_iff (hk k hm)).1 h⟩
  · rintro ⟨hne, hx⟩
    obtain ⟨k, hm⟩ := List.exists_mem_of_ne_nil ks hne
    exact ⟨x.follow k, List.mem_map_of_mem hm, (follow_ne_zero_iff (hk k hm)).2 hx⟩

/-- The arrivals at a type. -/
def tally (ws : List (Ty × Arrivals α)) (t : Ty) : Arrivals α := ((ws.filter fun w => w.1 = t).map Prod.snd).sum

/-- What all arrivals lead to, if those at a type lead to `ks` of it. -/
def total (ks : Ty → List (α → Arrivals β)) (ws : List (Ty × Arrivals α)) : Arrivals β :=
  (ws.map fun w => spread (ks w.1) w.2).sum

theorem tally_cons (w : Ty × Arrivals α) (ws : List (Ty × Arrivals α)) (t : Ty) :
    tally (w :: ws) t = (if w.1 = t then w.2 else 0) + tally ws t := by
  unfold tally
  by_cases h : w.1 = t
  · rw [List.filter_cons_of_pos (by simpa using h), List.map_cons, List.sum_cons, if_pos h]
  · rw [List.filter_cons_of_neg (by simpa using h), if_neg h, zero_add]

theorem tally_ne_zero_iff {ws : List (Ty × Arrivals α)} {t : Ty} :
    tally ws t ≠ 0 ↔ ∃ x, (t, x) ∈ ws ∧ x ≠ 0 := by
  rw [tally, sum_ne_zero_iff]
  constructor
  · rintro ⟨x, hx, h⟩
    obtain ⟨⟨s, y⟩, hw, rfl⟩ := List.mem_map.1 hx
    obtain ⟨hm, hs⟩ := List.mem_filter.1 hw
    obtain rfl : s = t := by simpa using hs
    exact ⟨y, hm, h⟩
  · rintro ⟨x, hx, h⟩
    exact ⟨x, List.mem_map.2 ⟨(t, x), List.mem_filter.2 ⟨hx, by simp⟩, rfl⟩, h⟩

theorem total_ne_zero_iff {ks : Ty → List (α → Arrivals β)} (hk : ∀ t, ∀ k ∈ ks t, ∀ a, k a ≠ 0)
    {ws : List (Ty × Arrivals α)} : total ks ws ≠ 0 ↔ ∃ t, tally ws t ≠ 0 ∧ ks t ≠ [] := by
  rw [total, sum_ne_zero_iff]
  constructor
  · rintro ⟨y, hy, h⟩
    obtain ⟨⟨t, x⟩, hw, rfl⟩ := List.mem_map.1 hy
    obtain ⟨hks, hx⟩ := (spread_ne_zero_iff (hk t)).1 h
    exact ⟨t, tally_ne_zero_iff.2 ⟨x, hw, hx⟩, hks⟩
  · rintro ⟨t, ht, hks⟩
    obtain ⟨x, hw, hx⟩ := tally_ne_zero_iff.1 ht
    exact ⟨_, List.mem_map_of_mem hw, (spread_ne_zero_iff (hk t)).2 ⟨hks, hx⟩⟩

/-- **A total is a sum over types.** -/
theorem total_eq_sum_tally {ks : Ty → List (α → Arrivals β)} (hk : ∀ t, ∀ k ∈ ks t, ∀ a, k a ≠ 0) {S : Finset Ty} :
    ∀ {ws : List (Ty × Arrivals α)}, (∀ w ∈ ws, w.1 ∈ S) →
      total ks ws = ∑ t ∈ S, spread (ks t) (tally ws t)
  | [], _ => (Finset.sum_eq_zero fun t _ => spread_zero (ks t)).symm
  | w :: ws, hS => by
    have ih : total ks ws = _ := total_eq_sum_tally hk fun v hv => hS v (List.mem_cons_of_mem w hv)
    have hone : spread (ks w.1) w.2 = ∑ t ∈ S, spread (ks t) (if w.1 = t then w.2 else 0) := by
      rw [Finset.sum_eq_single_of_mem w.1 (hS w List.mem_cons_self) fun t _ ht => by
        rw [if_neg (Ne.symm ht), spread_zero], if_pos rfl]
    rw [total, List.map_cons, List.sum_cons, ← total, ih, hone, ← Finset.sum_add_distrib]
    exact Finset.sum_congr rfl fun t _ => by rw [tally_cons, spread_add (hk t)]

/-- **Only the arrivals that lead somewhere count.** -/
theorem total_congr {ks : Ty → List (α → Arrivals β)} (hk : ∀ t, ∀ k ∈ ks t, ∀ a, k a ≠ 0)
    {vs ws : List (Ty × Arrivals α)} (h : ∀ t, ks t ≠ [] → tally vs t = tally ws t) : total ks vs = total ks ws := by
  let S : Finset Ty := (vs.map Prod.fst ++ ws.map Prod.fst).toFinset
  have hv : ∀ w ∈ vs, w.1 ∈ S := fun w hw =>
    List.mem_toFinset.2 (List.mem_append_left _ (List.mem_map_of_mem hw))
  have hw : ∀ w ∈ ws, w.1 ∈ S := fun w hw =>
    List.mem_toFinset.2 (List.mem_append_right _ (List.mem_map_of_mem hw))
  rw [total_eq_sum_tally hk hv, total_eq_sum_tally hk hw]
  refine Finset.sum_congr rfl fun t _ => ?_
  by_cases ht : ks t = []
  · rw [ht]
    rfl
  · rw [h t ht]

end Arrivals

end TypeAtlas
