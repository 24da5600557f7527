import TypeAtlas.Proofs.Tables
import TypeAtlas.Entity.Catalog

/-!
# Catalogs stand for tables

A catalog has two levels, a counter of its own, and two ways to sort.  All of it stands for one table that leads from keys
to entities (`Catalog.Refines`).  To put an entity is to insert it there, and what is counted is the number of bindings
(`Refines.exchange`, `Refines.size_eq`).  In whatever order the entities are collected from the shelves, sorting them gives
the values of the table (`Refines.sortBy_key`), and for one package those of its keys (`Refines.sortBy_name`).

The table tells the whole catalog (`Refines.eq`), since no shelf is set up before something is put there.
-/

namespace TypeAtlas

namespace Catalog

variable {α : Type}

/-! ## Sorting -/

section Sorting

variable {κ : Type} [Ord κ] [Std.TransOrd κ] [Std.LawfulEqOrd κ] {f : α → κ} {es fs : List α}

omit [Std.TransOrd κ] [Std.LawfulEqOrd κ] in
theorem sortBy_perm (f : α → κ) (es : List α) : (sortBy f es).Perm es := List.mergeSort_perm _ _

/-- What differs in `f` is sorted into strictly increasing order. -/
theorem pairwise_sortBy (h : es.Pairwise fun a b => f a ≠ f b) :
    (sortBy f es).Pairwise fun a b => compare (f a) (f b) = .lt := by
  have hle : (sortBy f es).Pairwise fun a b => (compare (f a) (f b)).isLE = true :=
    List.pairwise_mergeSort (fun a b c => Std.TransCmp.isLE_trans)
      (fun a b => by
        rw [Std.OrientedOrd.eq_swap (a := f b)]
        cases compare (f a) (f b) <;> rfl) es
  have hne : (sortBy f es).Pairwise fun a b => f a ≠ f b :=
    ((sortBy_perm f es).pairwise_iff fun hab => Ne.symm hab).2 h
  refine (hle.and hne).imp fun {a b} hab => ?_
  cases hc : compare (f a) (f b) with
  | lt => rfl
  | eq => exact absurd (Std.LawfulEqCmp.eq_of_compare hc) hab.2
  | gt => simp [hc] at hab

/-- **In whatever order entities come, sorting puts them into the one strictly increasing order.** -/
theorem sortBy_eq_of_perm (hperm : es.Perm fs) (hfs : fs.Pairwise fun a b => compare (f a) (f b) = .lt) :
    sortBy f es = fs := by
  have hne : es.Pairwise fun a b => f a ≠ f b :=
    (hperm.pairwise_iff fun hab => Ne.symm hab).2 (hfs.imp ne_of_compare_eq_lt)
  refine ((sortBy_perm f es).trans hperm).eq_of_pairwise (fun a b _ _ hab hba => ?_) (pairwise_sortBy hne) hfs
  exact absurd hba (Std.OrientedCmp.not_lt_of_lt hab)

omit [Std.LawfulEqOrd κ] in
/-- Lists of the same entities, without repetition, differ in the order only. -/
theorem perm_of_mem_iff (hes : es.Pairwise fun a b => f a ≠ f b)
    (hfs : fs.Pairwise fun a b => compare (f a) (f b) = .lt) (h : ∀ e, e ∈ es ↔ e ∈ fs) : es.Perm fs := by
  have hes : es.Nodup := hes.imp fun hne heq => hne (congrArg f heq)
  have hfs : fs.Nodup := hfs.imp fun hlt heq => ne_of_compare_eq_lt hlt (congrArg f heq)
  exact (List.perm_ext_iff_of_nodup hes hfs).2 h

end Sorting

/-! ## Look-ups -/

variable [Keyed α] {c d : Catalog α} {t : Table EntityKey α}

omit [Keyed α] in
theorem mem_collected_iff {e : α} : e ∈ c.collected ↔ ∃ k, c.get? k = some e := by
  rw [collected, List.mem_flatMap]
  constructor
  · rintro ⟨s, hs, he⟩
    obtain ⟨path, hpath⟩ := Table.mem_values_iff.1 hs
    obtain ⟨name, hname⟩ := Table.mem_values_iff.1 he
    exact ⟨⟨path, name⟩, by rw [get?, shelf, hpath]; exact hname⟩
  · rintro ⟨k, hk⟩
    rw [get?, shelf] at hk
    cases hs : c.shelves.get? k.package with
    | none => rw [hs] at hk; cases hk
    | some s =>
      rw [hs] at hk
      exact ⟨s, Table.mem_values_iff.2 ⟨_, hs⟩, Table.mem_values_iff.2 ⟨_, hk⟩⟩

/-- **The entities that are listed are those that stand under some key.** -/
theorem mem_all_iff {e : α} : e ∈ c.all ↔ ∃ k, c.get? k = some e :=
  (sortBy_perm _ _).mem_iff.trans mem_collected_iff

theorem shelf_exchange (c : Catalog α) (e : α) (path : String) :
    (c.exchange e).2.shelf path =
      if path = (Keyed.key e).package then (c.shelf path).insert (Keyed.key e).name e else c.shelf path := by
  have hget := Table.get?_insert c.shelves (Keyed.key e).package path
    ((c.shelf (Keyed.key e).package).insert (Keyed.key e).name e)
  rw [shelf, exchange, hget]
  split
  case isTrue h => rw [h]; rfl
  case isFalse => rfl

/-- **A put changes what stands under one key.** -/
theorem get?_exchange (c : Catalog α) (e : α) (k : EntityKey) :
    (c.exchange e).2.get? k = if k = Keyed.key e then some e else c.get? k := by
  rw [get?, shelf_exchange]
  by_cases hpath : k.package = (Keyed.key e).package
  · have hkey : k = Keyed.key e ↔ k.name = (Keyed.key e).name :=
      ⟨congrArg EntityKey.name, fun hname => EntityKey.mk.injEq .. |>.mpr ⟨hpath, hname⟩⟩
    rw [if_pos hpath, Table.get?_insert]
    simp only [hkey, get?]
  · rw [if_neg hpath, if_neg fun h => hpath (congrArg EntityKey.package h), get?]

/-! ## Own keys -/

section OwnKeys

variable (h : ∀ k e, c.get? k = some e → Keyed.key e = k)
include h

/-- Entities that stand under their own keys have different keys. -/
theorem pairwise_collected : c.collected.Pairwise fun e f => Keyed.key e ≠ Keyed.key f := by
  have hkey : ∀ s ∈ c.shelves.entries, ∀ b ∈ s.2.entries, Keyed.key b.2 = ⟨s.1, b.1⟩ := by
    intro s hs b hb
    refine h ⟨s.1, b.1⟩ b.2 ?_
    rw [get?, shelf, Table.mem_entries_iff.1 hs]
    exact Table.mem_entries_iff.1 hb
  rw [collected, Table.values, List.flatMap_map]
  refine List.pairwise_flatMap.2 ⟨fun s hs => ?_, c.shelves.sorted.imp_of_mem fun {s s'} hs hs' hlt => ?_⟩
  · refine List.pairwise_map.2 (s.2.sorted.imp_of_mem fun {b b'} hb hb' hlt heq => ?_)
    rw [hkey s hs b hb, hkey s hs b' hb'] at heq
    exact ne_of_compare_eq_lt hlt (congrArg EntityKey.name heq)
  · intro e he f hf heq
    obtain ⟨b, hb, rfl⟩ := List.mem_map.1 he
    obtain ⟨b', hb', rfl⟩ := List.mem_map.1 hf
    rw [hkey s hs b hb, hkey s' hs' b' hb'] at heq
    exact ne_of_compare_eq_lt hlt (congrArg EntityKey.package heq)

/-- **The entities are listed with increasing keys,** if each stands under its own key. -/
theorem pairwise_key_all : c.all.Pairwise fun e f => compare (Keyed.key e) (Keyed.key f) = .lt :=
  pairwise_sortBy (pairwise_collected h)

end OwnKeys

/-! ## The table of a catalog -/

/-- Whether a catalog stands for a table of entities by key. -/
structure Refines (c : Catalog α) (t : Table EntityKey α) : Prop where
  get?_eq : ∀ k, c.get? k = t.get? k
  /-- What is counted is the number of bindings. -/
  size_eq : c.size = t.size
  /-- Each entity stands under its own key. -/
  key_eq : ∀ k e, c.get? k = some e → Keyed.key e = k
  /-- No shelf is empty. -/
  stocked : ∀ path shelf, c.shelves.get? path = some shelf → ∃ name e, shelf.get? name = some e

theorem refines_empty : (empty : Catalog α).Refines .empty where
  get?_eq _ := rfl
  size_eq := rfl
  key_eq _ _ h := nomatch h
  stocked _ _ h := nomatch h

namespace Refines

/-- **To put an entity is to insert it into the table.** -/
theorem exchange (h : c.Refines t) (e : α) :
    (c.exchange e).1 = t.get? (Keyed.key e) ∧ (c.exchange e).2.Refines (t.insert (Keyed.key e) e) := by
  have hreplaced : (c.exchange e).1 = t.get? (Keyed.key e) := h.get?_eq (Keyed.key e)
  refine ⟨hreplaced, ⟨fun k => ?_, ?_, fun k f hk => ?_, fun path shelf hshelf => ?_⟩⟩
  · rw [get?_exchange, Table.get?_insert, h.get?_eq]
  · rw [Table.size_insert, ← hreplaced, ← h.size_eq]
    rfl
  · rw [get?_exchange] at hk
    split at hk
    case isTrue hkey => rw [hkey, Option.some.inj hk]
    case isFalse => exact h.key_eq k f hk
  · rw [Catalog.exchange, Table.get?_insert] at hshelf
    split at hshelf
    case isTrue =>
      obtain rfl := Option.some.inj hshelf
      exact ⟨_, e, Table.get?_insert_self _ _ _⟩
    case isFalse => exact h.stocked path shelf hshelf

/-- **So it is with entities put in turn.** -/
theorem putAll (h : c.Refines t) (es : List α) :
    (c.putAll es).Refines (t.insertAll (es.map fun e => (Keyed.key e, e))) := by
  induction es generalizing c t with
  | nil => exact h
  | cons e es ih => exact ih (h.exchange e).2

variable (h : c.Refines t)
include h

theorem contains_eq (k : EntityKey) : c.contains k = t.contains k := by
  rw [contains, h.get?_eq, Table.contains]

/-- The table lists its entities with increasing keys. -/
theorem pairwise_entries : t.entries.Pairwise fun b b' => compare (Keyed.key b.2) (Keyed.key b'.2) = .lt := by
  refine t.sorted.imp_of_mem fun {b b'} hb hb' hlt => ?_
  rwa [h.key_eq b.1 b.2 ((h.get?_eq _).trans (Table.mem_entries_iff.1 hb)),
    h.key_eq b'.1 b'.2 ((h.get?_eq _).trans (Table.mem_entries_iff.1 hb'))]

theorem collected_perm : c.collected.Perm t.values := by
  refine perm_of_mem_iff (pairwise_collected h.key_eq) (List.pairwise_map.2 h.pairwise_entries) fun e => ?_
  rw [mem_collected_iff, Table.mem_values_iff]
  exact exists_congr fun k => by rw [h.get?_eq]

/-- **In whatever order the entities are collected, they are listed as the table lists them.** -/
theorem sortBy_key {es : List α} (hes : es.Perm c.collected) : sortBy Keyed.key es = t.values :=
  sortBy_eq_of_perm (hes.trans h.collected_perm) (List.pairwise_map.2 h.pairwise_entries)

theorem all_eq : c.all = t.values := h.sortBy_key (.refl _)

theorem size_eq_length : c.size = c.all.length := by
  rw [h.size_eq, h.all_eq, Table.values, List.length_map, Table.size]

/-- The shelf of a package holds what the table has under the keys of the package. -/
theorem shelf_perm (path : String) : (c.shelf path).values.Perm (t.filter fun k _ => k.package == path).values := by
  have hname : ∀ b ∈ (c.shelf path).entries, Keyed.key b.2 = ⟨path, b.1⟩ := fun b hb =>
    h.key_eq ⟨path, b.1⟩ b.2 (Table.mem_entries_iff.1 hb)
  have hshelf : (c.shelf path).values.Pairwise fun e f => Keyed.key e ≠ Keyed.key f := by
    refine List.pairwise_map.2 ((c.shelf path).sorted.imp_of_mem fun {b b'} hb hb' hlt heq => ?_)
    rw [hname b hb, hname b' hb'] at heq
    exact ne_of_compare_eq_lt hlt (congrArg EntityKey.name heq)
  refine perm_of_mem_iff hshelf (List.pairwise_map.2 (h.pairwise_entries.filter _)) fun e => ?_
  rw [Table.mem_values_iff, Table.mem_values_iff]
  constructor
  · rintro ⟨name, hget⟩
    refine ⟨⟨path, name⟩, ?_⟩
    rw [Table.get?_filter, ← h.get?_eq, get?, hget]
    simp
  · rintro ⟨k, hk⟩
    rw [Table.get?_filter, Option.filter_eq_some_iff, ← h.get?_eq] at hk
    obtain rfl : k.package = path := by simpa using hk.2
    exact ⟨k.name, hk.1⟩

/-- **The same is true of one package,** whose entities are sorted by name. -/
theorem sortBy_name {path : String} {es : List α} (hes : es.Perm (c.shelf path).values) :
    sortBy (fun e => (Keyed.key e).name) es = (t.filter fun k _ => k.package == path).values := by
  refine sortBy_eq_of_perm (hes.trans (h.shelf_perm path)) (List.pairwise_map.2 ?_)
  refine (h.pairwise_entries.filter _).imp_of_mem fun {b b'} hb hb' hlt => ?_
  have hpath : ∀ b ∈ t.entries.filter fun b => b.1.package == path, (Keyed.key b.2).package = path := by
    intro b hb
    rw [List.mem_filter] at hb
    rw [h.key_eq b.1 b.2 ((h.get?_eq _).trans (Table.mem_entries_iff.1 hb.1))]
    simpa using hb.2
  -- The paths agree, so the names decide.
  have hlt : (compare (Keyed.key b.2).package (Keyed.key b'.2).package).then
      (compare (Keyed.key b.2).name (Keyed.key b'.2).name) = .lt := hlt
  rwa [hpath b hb, hpath b' hb', Std.ReflOrd.compare_self, Ordering.eq_then] at hlt

theorem inPackage_eq (path : String) : c.inPackage path = (t.filter fun k _ => k.package == path).values :=
  h.sortBy_name (.refl _)

/-- **The table tells the catalog.** -/
theorem eq (hd : d.Refines t) : c = d := by
  have hget : ∀ k, c.get? k = d.get? k := fun k => (h.get?_eq k).trans (hd.get?_eq k).symm
  have hshelf : ∀ path, c.shelf path = d.shelf path := fun path => Table.ext_get? fun name => hget ⟨path, name⟩
  -- Where one catalog has a shelf, something stands on it, so the other one has a shelf too.
  have hset : ∀ {c d : Catalog α}, c.Refines t → (∀ path, c.shelf path = d.shelf path) → ∀ path s,
      c.shelves.get? path = some s → d.shelves.get? path = some s := by
    intro c d hc hshelf path s hs
    have hsame := hshelf path
    rw [shelf, shelf, hs] at hsame
    cases hs' : d.shelves.get? path with
    | some s' =>
      rw [hs'] at hsame
      exact congrArg some hsame.symm
    | none =>
      obtain ⟨name, e, he⟩ := hc.stocked path s hs
      rw [hs'] at hsame
      obtain rfl : s = .empty := hsame
      cases he
  have hshelves : c.shelves = d.shelves := Table.ext_get? fun path => Option.ext fun s =>
    ⟨hset h hshelf path s, hset hd (fun path => (hshelf path).symm) path s⟩
  have hcount : c.count = d.count := h.size_eq.trans hd.size_eq.symm
  cases c
  cases d
  exact Catalog.mk.injEq .. |>.mpr ⟨hshelves, hcount⟩

end Refines

end Catalog

end TypeAtlas
