import Mathlib.Data.Finset.Card
import TypeAtlas.Proofs.CatalogAgreement

/-!
# What a catalog holds after a sequence of puts

Entities are put into a catalog one after the other, in any order and with the same key any number of times.  The catalog
then is the map that leads from a key to the entity put last under it (`Catalog.LastPut`), and every question about it is
answered by that map: what stands under a key, what a further entity replaces, how many entities were counted, and which ones
are listed, for all packages or for one (`Catalog.BehavesAs`).

One put changes the map at one key (`Catalog.lastPut_concat`), and the catalog follows (`Catalog.Follows.exchange`).  Its
shelves, its counter and its lists follow as well, because they stand for one table (`Catalog.refines_afterPuts`).
-/

namespace TypeAtlas

namespace EntityKey

/-- Whether a key comes before another one: the paths of the packages decide, and in one package the names. -/
def Before (k l : EntityKey) : Prop := k.package < l.package ∨ k.package = l.package ∧ k.name < l.name

theorem compare_eq_lt_iff_before {k l : EntityKey} : compare k l = .lt ↔ k.Before l := by
  show (compare k.package l.package).then (compare k.name l.name) = .lt ↔ k.Before l
  rw [Ordering.then_eq_lt, Std.compare_eq_iff_eq]
  exact or_congr compareOfLessAndEq_eq_lt (and_congr_right fun _ => compareOfLessAndEq_eq_lt)

end EntityKey

namespace Catalog

variable {α : Type} [Keyed α] {c : Catalog α} {es : List α} {k : EntityKey} {e f : α}

/-! ## The entity put last -/

/-- Of entities put in turn, the last one with a key: no later one has it. -/
def LastPut (es : List α) (k : EntityKey) (e : α) : Prop :=
  ∃ before after, es = before ++ e :: after ∧ Keyed.key e = k ∧ ∀ f ∈ after, Keyed.key f ≠ k

theorem not_lastPut_nil : ¬ LastPut [] k e := by
  rintro ⟨before, after, hes, -⟩
  simp at hes

theorem LastPut.key_eq (h : LastPut es k e) : Keyed.key e = k := by
  obtain ⟨-, -, -, hkey, -⟩ := h
  exact hkey

/-- **One more put changes what was put last under its own key, and under no other.** -/
theorem lastPut_concat :
    LastPut (es ++ [f]) k e ↔ (Keyed.key f = k ∧ e = f) ∨ (Keyed.key f ≠ k ∧ LastPut es k e) := by
  constructor
  · rintro ⟨before, after, hes, hkey, hlater⟩
    -- The new entity is the last one itself, or it comes after it.
    rcases List.eq_nil_or_concat after with rfl | ⟨after, g, rfl⟩
    · obtain ⟨-, rfl⟩ := List.append_singleton_inj.1 hes
      exact .inl ⟨hkey, rfl⟩
    · rw [List.concat_eq_append, ← List.cons_append, ← List.append_assoc] at hes
      obtain ⟨hinit, rfl⟩ := List.append_singleton_inj.1 hes
      refine .inr ⟨hlater f (by simp), before, after, hinit, hkey, fun g hg => hlater g ?_⟩
      simp [hg]
  · rintro (⟨hkey, rfl⟩ | ⟨hne, before, after, rfl, hkey, hlater⟩)
    · exact ⟨es, [], rfl, hkey, by simp⟩
    · refine ⟨before, after ++ [f], by simp, hkey, fun g hg => ?_⟩
      rcases List.mem_append.1 hg with hg | hg
      · exact hlater g hg
      · exact List.mem_singleton.1 hg ▸ hne

/-- A key leads to an entity if some entity was put under it. -/
theorem exists_lastPut_iff : (∃ e, LastPut es k e) ↔ ∃ e ∈ es, Keyed.key e = k := by
  induction es using List.reverseRecOn with
  | nil => simp [not_lastPut_nil]
  | append_singleton es f ih =>
    by_cases hf : Keyed.key f = k
    · exact iff_of_true ⟨f, lastPut_concat.2 (.inl ⟨hf, rfl⟩)⟩ ⟨f, by simp, hf⟩
    · simp only [lastPut_concat, hf, false_and, false_or, ne_eq, not_false_eq_true, true_and, ih]
      simp [or_and_right, exists_or, hf]

/-! ## The catalog follows -/

/-- The catalog after entities were put in turn. -/
def afterPuts (es : List α) : Catalog α := es.foldl (fun c e => (c.exchange e).2) empty

/-- Whether each key of a catalog leads to the entity put last under it. -/
def Follows (c : Catalog α) (es : List α) : Prop := ∀ k e, c.get? k = some e ↔ LastPut es k e

theorem follows_empty : (empty : Catalog α).Follows [] := fun _ _ => iff_of_false (by rintro ⟨⟩) not_lastPut_nil

/-- **One more put is followed.** -/
theorem Follows.exchange (h : c.Follows es) (f : α) : (c.exchange f).2.Follows (es ++ [f]) := by
  intro k e
  rw [get?_exchange, lastPut_concat, ← h k e]
  by_cases hk : k = Keyed.key f
  · simp [hk, eq_comm]
  · simp [hk, Ne.symm hk]

/-- **So is a sequence of puts.** -/
theorem follows_afterPuts (es : List α) : (afterPuts es).Follows es := by
  induction es using List.reverseRecOn with
  | nil => exact follows_empty
  | append_singleton es e ih =>
    rw [afterPuts, List.foldl_concat]
    exact ih.exchange e

/-- **The catalog stands for the table of the entities that were put.** -/
theorem refines_afterPuts (es : List α) : (afterPuts es).Refines (.ofList (es.map fun e => (Keyed.key e, e))) :=
  refines_empty.putAll es

theorem Follows.contains_iff (h : c.Follows es) (k : EntityKey) : c.contains k = true ↔ ∃ e ∈ es, Keyed.key e = k := by
  rw [contains, Option.isSome_iff_exists, ← exists_lastPut_iff]
  exact exists_congr (h k)

theorem Follows.mem_all_iff (h : c.Follows es) (e : α) : e ∈ c.all ↔ LastPut es (Keyed.key e) e := by
  rw [Catalog.mem_all_iff]
  constructor
  · rintro ⟨k, hk⟩
    have hlast := (h k e).1 hk
    rwa [hlast.key_eq]
  · intro hlast
    exact ⟨Keyed.key e, (h _ e).2 hlast⟩

namespace Refines

variable {t : Table EntityKey α} (h : c.Refines t)
include h

theorem nodup_all : c.all.Nodup :=
  (pairwise_key_all h.key_eq).imp fun hlt heq => ne_of_compare_eq_lt hlt (congrArg Keyed.key heq)

theorem pairwise_all : c.all.Pairwise fun e f => (Keyed.key e).Before (Keyed.key f) :=
  (pairwise_key_all h.key_eq).imp EntityKey.compare_eq_lt_iff_before.1

/-- **As many entities are counted as there are keys under which something was put.** -/
theorem size_eq_card (hes : c.Follows es) : c.size = (es.map Keyed.key).toFinset.card := by
  have hnodup : t.keys.Nodup := t.pairwise_keys.imp ne_of_compare_eq_lt
  have hkeys : t.keys.toFinset = (es.map Keyed.key).toFinset := by
    ext k
    rw [List.mem_toFinset, List.mem_toFinset, List.mem_map, ← hes.contains_iff k, h.contains_eq, Table.mem_keys_iff]
  calc c.size = t.size := h.size_eq
    _ = t.keys.length := (List.length_map _).symm
    _ = t.keys.toFinset.card := (List.toFinset_card_of_nodup hnodup).symm
    _ = (es.map Keyed.key).toFinset.card := by rw [hkeys]

/-- The entities of one package are those of the whole list, in their order. -/
theorem inPackage_eq_filter (path : String) :
    c.inPackage path = c.all.filter fun e => decide ((Keyed.key e).package = path) := by
  rw [h.inPackage_eq, h.all_eq, Table.values, Table.values, Table.filter, List.filter_map]
  refine congrArg (List.map Prod.snd) (List.filter_congr fun b hb => ?_)
  rw [Function.comp_apply, h.key_eq b.1 b.2 ((h.get?_eq _).trans (Table.mem_entries_iff.1 hb))]
  rfl

end Refines

/-! ## All questions -/

/-- What is asked of a catalog into which entities were put in turn, and how the entities put last answer it. -/
structure BehavesAs (c : Catalog α) (es : List α) : Prop where
  /-- Under a key stands the entity put last under it. -/
  get?_iff : ∀ k e, c.get? k = some e ↔ LastPut es k e
  contains_iff : ∀ k, c.contains k = true ↔ ∃ e, LastPut es k e
  /-- A further entity replaces the one put last under its key. -/
  replaced_iff : ∀ e f, (c.exchange e).1 = some f ↔ LastPut es (Keyed.key e) f
  /-- The number of different keys was counted. -/
  size_eq : c.size = (es.map Keyed.key).toFinset.card
  isEmpty_iff : c.isEmpty = true ↔ es = []
  /-- The entities put last are listed, -/
  mem_all_iff : ∀ e, e ∈ c.all ↔ LastPut es (Keyed.key e) e
  /-- each of them once, -/
  nodup_all : c.all.Nodup
  /-- in strictly increasing order of their keys, -/
  pairwise_all : c.all.Pairwise fun e f => (Keyed.key e).Before (Keyed.key f)
  /-- and those of one package in the same order. -/
  inPackage_eq : ∀ path, c.inPackage path = c.all.filter fun e => decide ((Keyed.key e).package = path)
  /-- In whatever order the entities are taken from the shelves, all of them -/
  all_of_perm : ∀ fs : List α, fs.Perm c.collected → sortBy Keyed.key fs = c.all
  /-- or those of one package, the lists are the same. -/
  inPackage_of_perm : ∀ path, ∀ fs : List α, fs.Perm (c.shelf path).values →
    sortBy (fun e => (Keyed.key e).name) fs = c.inPackage path

/-- **A catalog is the map from keys to the entities put last.** -/
theorem afterPuts_behavesAs (es : List α) : (afterPuts es).BehavesAs es :=
  have h := follows_afterPuts es
  have ht := refines_afterPuts es
  { get?_iff := h
    contains_iff := fun k => by rw [h.contains_iff, exists_lastPut_iff]
    replaced_iff := fun e f => h (Keyed.key e) f
    size_eq := ht.size_eq_card h
    isEmpty_iff := by
      have hsize : (afterPuts es).count = (es.map Keyed.key).toFinset.card := ht.size_eq_card h
      rw [isEmpty, beq_iff_eq, hsize, Finset.card_eq_zero, List.toFinset_eq_empty_iff, List.map_eq_nil_iff]
    mem_all_iff := h.mem_all_iff
    nodup_all := ht.nodup_all
    pairwise_all := ht.pairwise_all
    inPackage_eq := ht.inPackage_eq_filter
    all_of_perm := fun _ hfs => (ht.sortBy_key hfs).trans ht.all_eq.symm
    inPackage_of_perm := fun path _ hfs => (ht.sortBy_name hfs).trans (ht.inPackage_eq path).symm }

end Catalog

end TypeAtlas
