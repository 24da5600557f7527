import Mathlib.Data.List.Nodup
import TypeAtlas.Table

/-!
# What the operations on tables answer

Every operation on a table is described by the look-ups in its result, so that later proofs never open a table.

* Writing many bindings: `get?_insertAll`, `get?_insertAll_entries`, `get?_foldl_insertIfNew`.
* Keeping and changing bindings: `get?_filter`, `get?_filterMap`, `get?_map`.
* Listing: `values_filterMap`, `mem_values_iff`, `mem_keys_iff`, `pairwise_keys`, `filter_entries`, `isEmpty_iff`.
* Counting: `size_insert`.

Lists whose items have different keys are looked up in the same way (`find?_eq_some_iff_of_nodup`).
-/

namespace TypeAtlas

theorem ne_of_compare_eq_lt {κ : Type} [Ord κ] [Std.TransOrd κ] {a b : κ} (h : compare a b = .lt) : a ≠ b := by
  rintro rfl
  have hself : compare a a = .eq := Std.ReflCmp.compare_self
  rw [hself] at h
  cases h

/-- Among items with different keys, a key finds the item that has it. -/
theorem find?_eq_some_iff_of_nodup {κ α : Type} [DecidableEq κ] {key : α → κ} {items : List α}
    (h : (items.map key).Nodup) {k : κ} {a : α} :
    items.find? (fun b => decide (key b = k)) = some a ↔ a ∈ items ∧ key a = k := by
  constructor
  · intro hfind
    exact ⟨List.mem_of_find?_eq_some hfind, by simpa using List.find?_some hfind⟩
  · rintro ⟨ha, rfl⟩
    obtain ⟨b, hb⟩ : ∃ b, items.find? (fun b => decide (key b = key a)) = some b :=
      Option.isSome_iff_exists.1 (List.find?_isSome.2 ⟨a, ha, decide_eq_true rfl⟩)
    have hkey : key b = key a := by simpa using List.find?_some hb
    rw [hb, List.inj_on_of_nodup_map h (List.mem_of_find?_eq_some hb) ha hkey]

namespace Table

variable {κ α β : Type} [Ord κ] [Std.TransOrd κ] [Std.LawfulEqOrd κ]

/-! ## Writing -/

/-- Of the bindings of a list, the first one of a key that was not bound before counts. -/
theorem get?_foldl_insertIfNew [DecidableEq κ] (key : β → κ) (value : β → α) (l : κ) :
    ∀ (bs : List β) (t : Table κ α), (bs.foldl (fun t b => t.insertIfNew (key b) (value b)) t).get? l =
      (t.get? l).or ((bs.find? fun b => decide (key b = l)).map value)
  | [], t => by simp
  | b :: bs, t => by
    rw [List.foldl_cons, get?_foldl_insertIfNew key value l bs, get?_insertIfNew, Option.or_assoc]
    congr 1
    by_cases h : key b = l
    · rw [if_pos h.symm, List.find?_cons_of_pos (by simpa using h)]
      rfl
    · rw [if_neg (Ne.symm h), List.find?_cons_of_neg (by simpa using h)]
      rfl

/-- Of the bindings of a list, the last one of a key counts. -/
theorem get?_insertAll [DecidableEq κ] (l : κ) : ∀ (bs : List (κ × α)) (t : Table κ α),
    (t.insertAll bs).get? l = ((bs.reverse.find? fun b => decide (b.1 = l)).map Prod.snd).or (t.get? l)
  | [], t => rfl
  | b :: bs, t => by
    have hinsert : (t.insert b.1 b.2).get? l = (([b].find? fun b => decide (b.1 = l)).map Prod.snd).or (t.get? l) := by
      rw [get?_insert]
      by_cases h : b.1 = l
      · rw [if_pos h.symm, List.find?_cons_of_pos (by simpa using h)]
        rfl
      · rw [if_neg (Ne.symm h), List.find?_cons_of_neg (by simpa using h)]
        rfl
    rw [List.reverse_cons, List.find?_append, Option.map_or, Option.or_assoc, ← hinsert]
    exact get?_insertAll l bs (t.insert b.1 b.2)

omit [Std.TransOrd κ] [Std.LawfulEqOrd κ] in
/-- A key is not bound in a list of larger keys. -/
theorem find?_eq_none_of_lt {k : κ} {bs : List (κ × α)} (h : ∀ b ∈ bs, compare k b.1 = .lt) : find? k bs = none := by
  induction bs with
  | nil => rfl
  | cons b bs ih =>
    have hb : ¬ compare k b.1 = .eq := by
      rw [h b List.mem_cons_self]
      decide
    rw [find?, if_neg hb]
    exact ih fun c hc => h c (List.mem_cons_of_mem b hc)

/-- Bindings in key order are all taken over, in place of earlier ones. -/
theorem get?_insertAll_of_sorted [DecidableEq κ] (l : κ) :
    ∀ {bs : List (κ × α)}, (bs.Pairwise fun x y => compare x.1 y.1 = .lt) → ∀ t : Table κ α,
      (t.insertAll bs).get? l = (find? l bs).or (t.get? l)
  | [], _, t => rfl
  | b :: bs, hs, t => by
    obtain ⟨hb, hbs⟩ := List.pairwise_cons.1 hs
    have ih := get?_insertAll_of_sorted l hbs (t.insert b.1 b.2)
    rw [insertAll, List.foldl_cons]
    rw [insertAll] at ih
    rw [ih, get?_insert, find?]
    by_cases h : l = b.1
    · rw [if_pos h, h, find?_eq_none_of_lt hb, if_pos Std.ReflCmp.compare_self]
      rfl
    · rw [if_neg h, if_neg fun hl => h (Std.LawfulEqCmp.eq_of_compare hl)]

/-- **Taking over a table: its bindings come first.** -/
theorem get?_insertAll_entries [DecidableEq κ] (s t : Table κ α) (l : κ) :
    (t.insertAll s.entries).get? l = (s.get? l).or (t.get? l) :=
  get?_insertAll_of_sorted l s.sorted t

/-! ## Keeping and changing -/

theorem get?_filter (p : κ → α → Bool) (t : Table κ α) (k : κ) :
    (t.filter p).get? k = (t.get? k).filter (p k) := by
  refine Option.ext fun a => ?_
  rw [Option.filter_eq_some_iff, ← mem_entries_iff, ← mem_entries_iff]
  exact List.mem_filter

theorem get?_filterMap (f : α → Option β) (t : Table κ α) (k : κ) :
    (t.filterMap f).get? k = (t.get? k).bind f := by
  refine Option.ext fun b => ?_
  rw [Option.bind_eq_some_iff, ← mem_entries_iff, filterMap, List.mem_filterMap]
  constructor
  · rintro ⟨⟨l, a⟩, he, h⟩
    obtain ⟨c, hc, h⟩ := Option.map_eq_some_iff.1 h
    cases h
    exact ⟨a, mem_entries_iff.1 he, hc⟩
  · rintro ⟨a, ha, hb⟩
    exact ⟨(k, a), mem_entries_iff.2 ha, by rw [hb]; rfl⟩

theorem get?_map (f : α → β) (t : Table κ α) (k : κ) : (t.map f).get? k = (t.get? k).map f := by
  refine Option.ext fun b => ?_
  rw [Option.map_eq_some_iff, ← mem_entries_iff, map, List.mem_map]
  constructor
  · rintro ⟨⟨l, a⟩, he, h⟩
    cases h
    exact ⟨a, mem_entries_iff.1 he, rfl⟩
  · rintro ⟨a, ha, rfl⟩
    exact ⟨(k, a), mem_entries_iff.2 ha, rfl⟩

/-! ## Listing -/

omit [Std.TransOrd κ] [Std.LawfulEqOrd κ] in
theorem keys_map (f : α → β) (t : Table κ α) : (t.map f).keys = t.keys := by
  rw [keys, keys, map, List.map_map]
  rfl

theorem mem_keys_iff {t : Table κ α} {k : κ} : k ∈ t.keys ↔ t.contains k = true := by
  rw [keys, List.mem_map, contains, Option.isSome_iff_exists]
  constructor
  · rintro ⟨⟨l, a⟩, he, rfl⟩
    exact ⟨a, mem_entries_iff.1 he⟩
  · rintro ⟨a, h⟩
    exact ⟨(k, a), mem_entries_iff.2 h, rfl⟩

omit [Std.TransOrd κ] [Std.LawfulEqOrd κ] in
theorem pairwise_keys (t : Table κ α) : t.keys.Pairwise fun k l => compare k l = .lt := List.pairwise_map.2 t.sorted

omit [Std.TransOrd κ] [Std.LawfulEqOrd κ] in
theorem values_filterMap (f : α → Option β) (t : Table κ α) : (t.filterMap f).values = t.values.filterMap f := by
  rw [values, values, filterMap, List.map_filterMap, List.filterMap_map]
  simp only [Option.map_map, Function.comp_def, Option.map_id']

/-- **The values are what the keys are bound to.** -/
theorem mem_values_iff {t : Table κ α} {a : α} : a ∈ t.values ↔ ∃ k, t.get? k = some a := by
  rw [values, List.mem_map]
  constructor
  · rintro ⟨⟨k, b⟩, he, rfl⟩
    exact ⟨k, mem_entries_iff.1 he⟩
  · rintro ⟨k, h⟩
    exact ⟨(k, a), mem_entries_iff.2 h, rfl⟩

theorem filter_eq_find? [BEq κ] [LawfulBEq κ] (k : κ) :
    ∀ {bs : List (κ × α)}, (bs.Pairwise fun x y => compare x.1 y.1 = .lt) →
      bs.filter (fun b => b.1 == k) = ((find? k bs).map fun a => (k, a)).toList
  | [], _ => rfl
  | b :: bs, hs => by
    obtain ⟨hb, hbs⟩ := List.pairwise_cons.1 hs
    by_cases hk : b.1 = k
    · subst hk
      have hlater : find? b.1 bs = none := find?_eq_none_of_lt hb
      rw [List.filter_cons_of_pos (by simp), filter_eq_find? b.1 hbs, hlater, find?, if_pos Std.ReflCmp.compare_self]
      rfl
    · have hne : ¬ compare k b.1 = .eq := fun h => hk (Std.LawfulEqCmp.eq_of_compare h).symm
      rw [List.filter_cons_of_neg (by simpa using hk), filter_eq_find? k hbs, find?, if_neg hne]

/-- **The entries of a key are its binding.** -/
theorem filter_entries [BEq κ] [LawfulBEq κ] (t : Table κ α) (k : κ) :
    t.entries.filter (fun e => e.1 == k) = ((t.get? k).map fun a => (k, a)).toList :=
  filter_eq_find? k t.sorted

theorem isEmpty_iff {t : Table κ α} : t.isEmpty = true ↔ ∀ k, t.get? k = none := by
  rw [isEmpty, List.isEmpty_iff]
  constructor
  · intro h k
    rw [get?, h]
    rfl
  · intro h
    refine List.eq_nil_iff_forall_not_mem.2 fun e he => ?_
    have hk := h e.1
    rw [mem_entries_iff.1 he] at hk
    cases hk

/-! ## Counting -/

omit [Std.LawfulEqOrd κ] in
theorem length_place {k : κ} {a : α} {bs : List (κ × α)} (hs : bs.Pairwise fun x y => compare x.1 y.1 = .lt) :
    (place k a bs).length = if (find? k bs).isNone then bs.length + 1 else bs.length := by
  induction bs with
  | nil => rfl
  | cons b bs ih =>
    obtain ⟨hb, hbs⟩ := List.pairwise_cons.1 hs
    rw [place, find?]
    split
    case h_1 hk =>
      -- The key is smaller than all others.
      have hlater : find? k bs = none := find?_eq_none_of_lt fun d hd => Std.TransCmp.lt_trans hk (hb d hd)
      simp [hk, hlater]
    case h_2 hk => simp [hk]
    case h_3 hk =>
      simp only [hk, List.length_cons, ih hbs, reduceCtorEq, if_false]
      split <;> rfl

/-- **An insertion adds a binding exactly if its key is new.** -/
theorem size_insert (t : Table κ α) (k : κ) (a : α) :
    (t.insert k a).size = if (t.get? k).isNone then t.size + 1 else t.size := length_place t.sorted

end Table

end TypeAtlas
