import TypeAtlas.Proofs.EmbeddingPaths
import TypeAtlas.Proofs.Tables

/-!
# The method set is what the selector rule selects

The search for methods goes from depth to depth, leaves out defined types that it has seen, and merges equal types of a
depth.  The selector rule counts all embedding paths and leaves out none.  They agree, whichever way types embed one
another (`Universe.methodSet_iff_selects`).

* Merging keeps the count of a type: never, once or more often (`ReachedType.tally_mergeEqual`).
* Leaving out is harmless because it concerns only types that were reached at a smaller depth: whatever is found in
  them or below them was found before.  So the search needs to be right only about the types that it reaches for the
  first time, and for these it counts all paths (`Universe.Frontier`).
* One round keeps this up (`Universe.Frontier.step`), and when nothing is left to search, no name is left to occur
  (`Universe.Frontier.search`).
-/

namespace TypeAtlas

open Arrivals

namespace ReachedType

/-- What a reached type counts for. -/
def arrival (e : ReachedType) : Ty × Arrivals Bool := (e.type, if e.repeated then .often else .once e.indirect)

theorem arrival_ne_zero (e : ReachedType) : e.arrival.2 ≠ 0 := by
  unfold arrival
  split
  · exact often_ne_zero
  · exact once_ne_zero _

theorem tally_map_arrival_cons (e : ReachedType) (es : List ReachedType) (t : Ty) :
    tally ((e :: es).map arrival) t = (if e.type = t then e.arrival.2 else 0) + tally (es.map arrival) t :=
  tally_cons e.arrival (es.map arrival) t

theorem tally_ne_zero_iff_mem {es : List ReachedType} {t : Ty} :
    tally (es.map arrival) t ≠ 0 ↔ ∃ e ∈ es, e.type = t := by
  rw [tally_ne_zero_iff]
  constructor
  · rintro ⟨x, hx, -⟩
    obtain ⟨e, he, h⟩ := List.mem_map.1 hx
    exact ⟨e, he, congrArg Prod.fst h⟩
  · rintro ⟨e, he, rfl⟩
    exact ⟨_, List.mem_map_of_mem he, e.arrival_ne_zero⟩

theorem tally_keepFirst (t : Ty) : ∀ (es : List ReachedType) (kept : List Ty),
    tally ((keepFirst kept es).map arrival) t = if t ∈ kept then 0 else tally (es.map arrival) t
  | [], kept => (ite_self _).symm
  | e :: es, kept => by
    rw [keepFirst, tally_map_arrival_cons]
    split
    case isTrue he =>
      rw [tally_keepFirst t es kept]
      split
      · rfl
      case isFalse ht =>
        rw [if_neg fun h : e.type = t => ht (h ▸ he), zero_add]
    case isFalse he =>
      rw [tally_map_arrival_cons, tally_keepFirst t es (e.type :: kept)]
      by_cases ht : e.type = t
      · subst ht
        rw [if_pos List.mem_cons_self, if_neg he, add_zero, if_pos rfl, if_pos rfl]
        -- The mark stands for the later arrivals that are dropped.
        cases ha : es.any fun d => decide (d.type = e.type) with
        | true =>
          have hlater : tally (es.map arrival) e.type ≠ 0 :=
            tally_ne_zero_iff_mem.2 (by simpa using ha)
          rw [add_eq_often e.arrival_ne_zero hlater]
          simp [arrival]
        | false =>
          have hlater : tally (es.map arrival) e.type = 0 := by
            refine Classical.not_not.1 fun h => ?_
            obtain ⟨d, hd, h⟩ := tally_ne_zero_iff_mem.1 h
            have := List.any_eq_false.1 ha d hd
            simp [h] at this
          rw [hlater, add_zero]
          simp [arrival]
      · have hmem : (t ∈ e.type :: kept) ↔ t ∈ kept := by
          rw [List.mem_cons, or_iff_right (Ne.symm ht)]
        rw [if_neg ht, if_neg ht, zero_add, zero_add]
        exact if_congr hmem rfl rfl

/-- **Merging keeps the count of every type.** -/
theorem tally_mergeEqual (es : List ReachedType) (t : Ty) :
    tally ((mergeEqual es).map arrival) t = tally (es.map arrival) t := by
  rw [mergeEqual, tally_keepFirst, if_neg List.not_mem_nil]

theorem tally_fresh (seen : List TypeName) (t : Ty) : ∀ es : List ReachedType,
    tally ((fresh seen es).map arrival) t = if t.seenIn seen then 0 else tally (es.map arrival) t
  | [] => (ite_self _).symm
  | e :: es => by
    have ih := tally_fresh seen t es
    rw [fresh] at ih ⊢
    rw [tally_map_arrival_cons]
    by_cases he : e.type.seenIn seen <;> by_cases ht : t.seenIn seen
    · rw [List.filter_cons_of_neg (by simp [he]), ih, if_pos ht, if_pos ht]
    · rw [List.filter_cons_of_neg (by simp [he]), ih, if_neg ht, if_neg ht,
        if_neg fun h : e.type = t => ht (h ▸ he), zero_add]
    · rw [List.filter_cons_of_pos (by simp [he]), tally_map_arrival_cons, ih, if_pos ht, if_pos ht,
        if_neg fun h : e.type = t => he (h ▸ ht), add_zero]
    · rw [List.filter_cons_of_pos (by simp [he]), tally_map_arrival_cons, ih, if_neg ht, if_neg ht]

/-- What a reached type embeds counts as going across its fields. -/
theorem map_arrival_embedded (u : Universe) (e : ReachedType) :
    (e.embedded u).map arrival = u.across e.arrival := by
  rw [embedded, Universe.across, List.map_map]
  refine List.map_congr_left fun f _ => ?_
  cases hr : e.repeated <;> simp [arrival, through, follow, hr]

/-- **One round goes across all embedded fields.** -/
theorem tally_advance (u : Universe) (es : List ReachedType) (t : Ty) :
    tally ((advance u es).map arrival) t = Arrivals.total (u.ways t) (es.map arrival) := by
  rw [advance, tally_mergeEqual, ← tally_flatMap_across, List.map_flatMap, List.flatMap_map]
  simp only [map_arrival_embedded]

end ReachedType

/-- What a candidate counts for: a selection, or as much as a collision if it cannot be selected. -/
def Candidate.arrival (c : Candidate) : Arrivals Selection := if c.selectable then .once c.selection else .often

theorem Candidate.arrival_ne_zero (c : Candidate) : c.arrival ≠ 0 := by
  unfold arrival
  split
  · exact once_ne_zero _
  · exact often_ne_zero

namespace Level

/-- What is found at one depth under a name.  A field counts as much as a collision. -/
def arrivals (l : Level) (name : String) : Arrivals Selection :=
  ((l.candidates.filter fun c => c.selection.name == name).map Candidate.arrival).sum +
    ((l.fields.filter (· == name)).map fun _ => .often).sum

theorem mem_names_iff {l : Level} {name : String} : name ∈ l.names ↔ l.arrivals name ≠ 0 := by
  rw [arrivals, Ne, add_eq_zero_iff, not_and_or, ← Ne, ← Ne, sum_ne_zero_iff, sum_ne_zero_iff, names, List.mem_append]
  refine or_congr ?_ ?_
  · constructor
    · intro h
      obtain ⟨c, hc, hn⟩ := List.mem_map.1 h
      exact ⟨c.arrival, List.mem_map_of_mem (List.mem_filter.2 ⟨hc, by simpa using hn⟩), c.arrival_ne_zero⟩
    · rintro ⟨x, hx, -⟩
      obtain ⟨c, hc, -⟩ := List.mem_map.1 hx
      obtain ⟨hc, hn⟩ := List.mem_filter.1 hc
      exact List.mem_map.2 ⟨c, hc, by simpa using hn⟩
  · constructor
    · intro h
      exact ⟨.often, List.mem_map.2 ⟨name, List.mem_filter.2 ⟨h, by simp⟩, rfl⟩, often_ne_zero⟩
    · rintro ⟨x, hx, -⟩
      obtain ⟨n, hn, -⟩ := List.mem_map.1 hx
      obtain ⟨hm, he⟩ := List.mem_filter.1 hn
      obtain rfl : n = name := by simpa using he
      exact hm

/-- **A name selects the only arrival under it.** -/
theorem settle_eq_single? (l : Level) (name : String) : l.settle name = (l.arrivals name).single? := by
  unfold settle arrivals
  by_cases hf : name ∈ l.fields
  · rw [if_pos hf]
    obtain ⟨n, ns, hns⟩ : ∃ n ns, l.fields.filter (· == name) = n :: ns :=
      List.exists_cons_of_ne_nil (List.ne_nil_of_mem (List.mem_filter.2 ⟨hf, by simp⟩))
    -- A field is there, so the sum is more than one arrival whatever else there is.
    have hoften : ∀ x y : Arrivals Selection, (x + (.often + y)).single? = none := by
      intro x y
      cases x <;> cases y <;> rfl
    rw [hns, List.map_cons, List.sum_cons, hoften]
  · have hnil : l.fields.filter (· == name) = [] :=
      List.filter_eq_nil_iff.2 fun n hn he => hf ((by simpa using he : n = name) ▸ hn)
    rw [if_neg hf, hnil, List.map_nil, List.sum_nil, add_zero]
    split
    case h_1 c hc =>
      rw [hc, List.map_cons, List.map_nil, List.sum_singleton, Candidate.arrival]
      split <;> rfl
    case h_2 hne =>
      match hcs : l.candidates.filter fun c => c.selection.name == name with
      | [] => rw [hcs]; rfl
      | [c] => exact absurd hcs (hne c)
      | c :: d :: cs =>
        rw [hcs]
        have hrest : d.arrival + (cs.map Candidate.arrival).sum ≠ 0 := fun h =>
          d.arrival_ne_zero (add_eq_zero_iff.1 h).1
        rw [List.map_cons, List.map_cons, List.sum_cons, List.sum_cons, add_eq_often c.arrival_ne_zero hrest]
        rfl

/-- What one reached type contributes to a level. -/
theorem map_arrival_candidates (u : Universe) (depth : Nat) (e : ReachedType) :
    (e.declared u depth ++ e.required u depth).map (fun c => (c.selection.name, c.arrival)) ++
        (e.fields u).map (fun f => (f.name, .often)) =
      (u.findings depth e.type).map fun x => (x.1, e.arrival.2.follow x.2) := by
  unfold Universe.findings ReachedType.declared ReachedType.required
  simp only [List.map_append, List.map_map]
  congr 2
  · cases e.type.asNamed? with
    | none => rfl
    | some n =>
      simp only [List.map_map]
      refine List.map_congr_left fun m _ => ?_
      cases hr : e.repeated <;> simp [ReachedType.arrival, Candidate.arrival, follow, hr]
  · cases u.interfaceOf? e.type with
    | none => rfl
    | some i =>
      simp only [List.map_map]
      refine List.map_congr_left fun m _ => ?_
      cases hr : e.repeated <;> simp [ReachedType.arrival, Candidate.arrival, follow, hr]
  · funext f
    cases hr : e.repeated <;> simp [ReachedType.arrival, follow, hr]

/-- **A level counts what is found in the types it is made of.** -/
theorem arrivals_ofEmbeddings (u : Universe) (depth : Nat) (es : List ReachedType) (name : String) :
    (ofEmbeddings u depth es).arrivals name = Arrivals.total (u.findingsOf depth name) (es.map ReachedType.arrival) := by
  have one : ∀ e : ReachedType,
      (((e.declared u depth ++ e.required u depth).filter fun c => c.selection.name == name).map
          Candidate.arrival).sum +
        ((((e.fields u).map (·.name)).filter (· == name)).map fun _ => Arrivals.often).sum =
      spread (u.findingsOf depth name e.type) e.arrival.2 := by
    intro e
    have h := congrArg (fun l => ((l.filter fun x => x.1 == name).map Prod.snd).sum)
      (map_arrival_candidates u depth e)
    simp only [List.filter_append, List.filter_map, List.map_append, List.map_map, List.sum_append] at h
    rw [spread, Universe.findingsOf, List.map_map, List.filter_map, List.map_map, List.filter_append, List.map_append,
      List.sum_append]
    exact h
  unfold arrivals ofEmbeddings Arrivals.total
  rw [List.filter_flatMap, List.map_flatMap, sum_flatMap, List.filter_flatMap, List.map_flatMap, sum_flatMap,
    ← List.sum_map_add, List.map_map]
  exact congrArg List.sum (List.map_congr_left fun e _ => one e)

theorem get?_addTo (l : Level) (settled : Table String (Option Selection)) (name : String) :
    (l.addTo settled).get? name = (settled.get? name).or (if name ∈ l.names then some (l.settle name) else none) := by
  rw [addTo, Table.get?_foldl_insertIfNew (fun n => n) l.settle name l.names settled]
  congr 1
  cases hf : l.names.find? fun n => decide (n = name) with
  | some n =>
    obtain rfl : n = name := by simpa using List.find?_some hf
    rw [if_pos (List.mem_of_find?_eq_some hf)]
    rfl
  | none =>
    have h : name ∉ l.names := fun h => by simpa using List.find?_eq_none.1 hf name h
    rw [if_neg h]
    rfl

/-- A name that does not occur selects nothing, so a level that comes first is told by what it settles. -/
theorem bind_get?_addTo_empty (l : Level) (name : String) : ((l.addTo .empty).get? name).bind id = l.settle name := by
  rw [get?_addTo, Table.get?_empty, Option.none_or]
  split
  case isTrue => rfl
  case isFalse h =>
    have hzero : l.arrivals name = 0 := Classical.not_not.1 fun hne => h (mem_names_iff.2 hne)
    rw [settle_eq_single?, hzero]
    rfl

end Level

namespace Universe

/-- Whether a depth is the smallest one where a name occurs. -/
def FirstOccurs (u : Universe) (t : Ty) (depth : Nat) (name : String) : Prop :=
  u.occurring t depth name ≠ 0 ∧ ∀ k < depth, u.occurring t k name = 0

theorem exists_firstOccurs {u : Universe} {t : Ty} {d : Nat} {name : String} (h : u.occurring t d name ≠ 0) :
    ∃ k ≤ d, u.FirstOccurs t k name := by
  induction d using Nat.strongRecOn with
  | ind d ih =>
    by_cases hk : ∃ k < d, u.occurring t k name ≠ 0
    · obtain ⟨k, hlt, hne⟩ := hk
      obtain ⟨j, hj, hf⟩ := ih k hlt hne
      exact ⟨j, by omega, hf⟩
    · exact ⟨d, le_rfl, h, fun k hlt => Classical.not_not.1 fun hne => hk ⟨k, hlt, hne⟩⟩

/-- The state of the search for the methods of `t` before depth `d`.  The search knows which names were reached, it
counts all paths to the types that are reached for the first time, and it has settled the names that occurred. -/
structure Frontier (u : Universe) (t : Ty) (d : Nat) (seen : List TypeName) (current : List ReachedType)
    (settled : Table String (Option Selection)) : Prop where
  mem_seen : ∀ n, n ∈ seen ↔ ∃ k < d, tally (u.reach t k) (.named n) ≠ 0
  tally_new : ∀ s, (∀ k < d, tally (u.reach t k) s = 0) → tally (current.map ReachedType.arrival) s = tally (u.reach t d) s
  get?_settled : ∀ name r, settled.get? name = some r ↔
    ∃ k < d, u.FirstOccurs t k name ∧ r = (u.occurring t k name).single?

namespace Frontier

variable {u : Universe} {t : Ty} {d : Nat} {seen : List TypeName} {current : List ReachedType}
  {settled : Table String (Option Selection)}

/-- What was seen before is no type that is reached for the first time. -/
theorem tally_fresh (F : Frontier u t d seen current settled) {s : Ty} (hs : ∀ k < d, tally (u.reach t k) s = 0) :
    tally ((ReachedType.fresh seen current).map ReachedType.arrival) s = tally (u.reach t d) s := by
  rw [ReachedType.tally_fresh, ← F.tally_new s hs]
  refine if_neg fun hseen => ?_
  cases hn : s.asNamed? with
  | none => simp [Ty.seenIn, hn] at hseen
  | some n =>
    obtain rfl := Ty.eq_named_of_asNamed? hn
    obtain ⟨k, hk, hr⟩ := (F.mem_seen n).1 (by simpa [Ty.seenIn, hn] using hseen)
    exact hr (hs k hk)

/-- A type with a way to a type that is reached for the first time is reached for the first time itself. -/
theorem new_of_ways {r s : Ty} {k : Nat} (hs : ∀ j < k + 1, tally (u.reach t j) s = 0) (hw : u.ways s r ≠ []) :
    ∀ j < k, tally (u.reach t j) r = 0 := by
  intro j hj
  refine Classical.not_not.1 fun hr => ?_
  exact tally_reach_succ_ne_zero_iff.2 ⟨r, hr, hw⟩ (hs (j + 1) (by omega))

/-- A type in which a name is found that did not occur before is reached for the first time. -/
theorem new_of_found {s : Ty} {k : Nat} {name : String} (hn : ∀ j < k, u.occurring t j name = 0)
    (hs : name ∈ (u.findings 0 s).map Prod.fst) : ∀ j < k, tally (u.reach t j) s = 0 := by
  intro j hj
  refine Classical.not_not.1 fun hr => ?_
  exact occurring_ne_zero_iff.2 ⟨s, hr, hs⟩ (hn j hj)

/-- **The search finds all of a name that did not occur before.** -/
theorem arrivals_level (F : Frontier u t d seen current settled) {name : String}
    (hn : ∀ k < d, u.occurring t k name = 0) :
    (Level.ofEmbeddings u d (ReachedType.fresh seen current)).arrivals name = u.occurring t d name := by
  rw [Level.arrivals_ofEmbeddings]
  refine total_congr findingsOf_ne_zero fun s hs => F.tally_fresh (new_of_found hn ?_)
  exact Classical.not_not.1 fun h => hs (findingsOf_eq_nil_iff.2 h)

theorem get?_level (F : Frontier u t d seen current settled) (name : String) (r : Option Selection) :
    ((Level.ofEmbeddings u d (ReachedType.fresh seen current)).addTo settled).get? name = some r ↔
      ∃ k < d + 1, u.FirstOccurs t k name ∧ r = (u.occurring t k name).single? := by
  rw [Level.get?_addTo]
  by_cases hn : ∀ k < d, u.occurring t k name = 0
  · -- The name occurs at this depth for the first time, if at all.
    have hnone : settled.get? name = none := by
      refine Option.eq_none_iff_forall_ne_some.2 fun q hq => ?_
      obtain ⟨k, hk, hf, -⟩ := (F.get?_settled name q).1 hq
      exact hf.1 (hn k hk)
    have hmem : name ∈ (Level.ofEmbeddings u d (ReachedType.fresh seen current)).names ↔ _ := Level.mem_names_iff
    rw [F.arrivals_level hn] at hmem
    rw [hnone, Option.none_or, Level.settle_eq_single?, F.arrivals_level hn]
    constructor
    · intro h
      split at h
      case isTrue ho => exact ⟨d, by omega, ⟨hmem.1 ho, hn⟩, (Option.some.inj h).symm⟩
      case isFalse => cases h
    · rintro ⟨k, hk, hf, rfl⟩
      obtain rfl : k = d := by
        rcases Nat.lt_or_ge k d with hlt | hge
        · exact absurd (hn k hlt) hf.1
        · omega
      rw [if_pos (hmem.2 hf.1)]
  · -- The name occurred before and stays settled.
    obtain ⟨k, hk, hne⟩ : ∃ k < d, u.occurring t k name ≠ 0 := by
      simpa using hn
    obtain ⟨j, hj, hf⟩ := exists_firstOccurs hne
    have hsome := (F.get?_settled name _).2 ⟨j, by omega, hf, rfl⟩
    rw [hsome, Option.some_or, ← hsome, F.get?_settled]
    constructor
    · rintro ⟨i, hi, h⟩
      exact ⟨i, by omega, h⟩
    · rintro ⟨i, hi, hfi, h⟩
      rcases Nat.lt_or_ge i d with hlt | hge
      · exact ⟨i, hlt, hfi, h⟩
      · exact absurd (hfi.2 j (by omega)) hf.1

/-- **One round of the search goes one depth on.** -/
theorem step (F : Frontier u t d seen current settled) :
    Frontier u t (d + 1) (ReachedType.names (ReachedType.fresh seen current) ++ seen)
      (ReachedType.advance u (ReachedType.fresh seen current))
      ((Level.ofEmbeddings u d (ReachedType.fresh seen current)).addTo settled) where
  mem_seen n := by
    have hnew : n ∉ seen → ∀ k < d, tally (u.reach t k) (.named n) = 0 := fun h k hk =>
      Classical.not_not.1 fun hr => h ((F.mem_seen n).2 ⟨k, hk, hr⟩)
    rw [List.mem_append]
    constructor
    · rintro (hn | hn)
      · obtain ⟨e, he, hn⟩ := List.mem_filterMap.1 hn
        have hseen : n ∉ seen := by
          simpa [Ty.seenIn, hn] using (List.mem_filter.1 he).2
        refine ⟨d, by omega, ?_⟩
        rw [← F.tally_fresh (hnew hseen)]
        exact ReachedType.tally_ne_zero_iff_mem.2 ⟨e, he, Ty.eq_named_of_asNamed? hn⟩
      · obtain ⟨k, hk, hr⟩ := (F.mem_seen n).1 hn
        exact ⟨k, by omega, hr⟩
    · rintro ⟨k, hk, hr⟩
      by_cases hseen : n ∈ seen
      · exact .inr hseen
      · obtain rfl : k = d := by
          rcases Nat.lt_or_ge k d with hlt | hge
          · exact absurd (hnew hseen k hlt) hr
          · omega
        rw [← F.tally_fresh (hnew hseen)] at hr
        obtain ⟨e, he, ht⟩ := ReachedType.tally_ne_zero_iff_mem.1 hr
        exact .inl (List.mem_filterMap.2 ⟨e, he, by rw [ht]; rfl⟩)
  tally_new s hs := by
    rw [ReachedType.tally_advance, reach_succ, tally_flatMap_across]
    exact total_congr ways_ne_zero fun r hw => F.tally_fresh (new_of_ways hs hw)
  get?_settled := F.get?_level

/-- Where nothing is left to search, no type is left to be reached for the first time. -/
theorem tally_eq_zero (F : Frontier u t d seen [] settled) (k : Nat) :
    ∀ s, (∀ j < d + k, tally (u.reach t j) s = 0) → tally (u.reach t (d + k)) s = 0 := by
  induction k with
  | zero => exact fun s hs => (F.tally_new s hs).symm
  | succ k ih =>
    intro s hs
    refine Classical.not_not.1 fun hr => ?_
    obtain ⟨r, hr, hw⟩ := tally_reach_succ_ne_zero_iff.1 hr
    exact hr (ih r (new_of_ways hs hw))

/-- **The search settles exactly the names that occur, each at the smallest depth.** -/
theorem search (F : Frontier u t d seen current settled) (name : String) (r : Option Selection) :
    (u.search d seen current settled).get? name = some r ↔
      ∃ k, u.FirstOccurs t k name ∧ r = (u.occurring t k name).single? := by
  fun_induction Universe.search u d seen current settled with
  | case1 d seen settled =>
    rw [F.get?_settled]
    constructor
    · rintro ⟨k, -, h⟩
      exact ⟨k, h⟩
    · rintro ⟨k, hf, h⟩
      refine ⟨k, ?_, hf, h⟩
      refine Nat.lt_of_not_le fun hle => ?_
      obtain ⟨i, rfl⟩ := Nat.exists_eq_add_of_le hle
      obtain ⟨s, hr, hs⟩ := occurring_ne_zero_iff.1 hf.1
      exact hr (F.tally_eq_zero i s (new_of_found hf.2 hs))
  | case2 d seen settled e es fresh ih => exact ih F.step

/-- The search starts at the type itself. -/
theorem start (u : Universe) (t : Ty) : Frontier u t 0 [] [⟨t.deref, t.isPointer, false⟩] .empty where
  mem_seen n := by simp
  tally_new s _ := by simp [ReachedType.arrival, reach, embeddingPaths, EmbeddingPath.target, EmbeddingPath.crossesPointer]
  get?_settled name r := by simp

end Frontier

/-- What a name that occurs selects, told by its occurrences. -/
theorem firstOccurs_and_single?_iff {u : Universe} {t : Ty} {d : Nat} {name : String} {s : Selection} :
    u.FirstOccurs t d name ∧ some s = (u.occurring t d name).single? ↔
      (∀ k < d, u.occurrences t.deref k name = []) ∧
        ∃ o, u.occurrences t.deref d name = [o] ∧ o.selection? t.isPointer d = some s := by
  have hne : ∀ k, ∀ x ∈ (u.occurrences t.deref k name).map (Occurrence.arrival t.isPointer k), x ≠ 0 := by
    intro k x hx
    obtain ⟨o, -, rfl⟩ := List.mem_map.1 hx
    exact o.arrival_ne_zero _ _
  have hzero : ∀ k, u.occurring t k name = 0 ↔ u.occurrences t.deref k name = [] := by
    intro k
    rw [← sum_arrival_occurrences]
    constructor
    · intro h
      refine List.eq_nil_iff_forall_not_mem.2 fun o ho => ?_
      exact sum_ne_zero_iff.2 ⟨_, List.mem_map_of_mem ho, hne k _ (List.mem_map_of_mem ho)⟩ h
    · intro h
      rw [h]
      rfl
  have hone : u.occurring t d name = .once s ↔
      ∃ o, u.occurrences t.deref d name = [o] ∧ o.selection? t.isPointer d = some s := by
    rw [← sum_arrival_occurrences, sum_eq_once_iff (hne d), List.map_eq_singleton_iff]
    simp only [Occurrence.arrival_eq_once_iff]
  rw [eq_comm, single?_eq_some_iff, hone, FirstOccurs]
  simp only [hzero]
  constructor
  · rintro ⟨⟨-, hk⟩, ho⟩
    exact ⟨hk, ho⟩
  · rintro ⟨hk, o, ho, hs⟩
    refine ⟨⟨fun h => ?_, hk⟩, o, ho, hs⟩
    rw [(hzero d).1 h] at ho
    cases ho

theorem interfaceOf?_eq_some_iff {u : Universe} {t : Ty} {i : InterfaceType} :
    u.interfaceOf? t = some i ↔ u.underlying t = .interface i := by
  refine ⟨Ty.eq_interface_of_asInterface?, fun h => ?_⟩
  rw [interfaceOf?, h]
  rfl

theorem interfaceOf?_eq_none_iff {u : Universe} {t : Ty} :
    u.interfaceOf? t = none ↔ ∀ i, u.underlying t ≠ .interface i := by
  rw [Option.eq_none_iff_forall_ne_some]
  exact forall_congr' fun i => not_congr interfaceOf?_eq_some_iff

/-- **What a name selects from a type that is no pointer to an interface** is told by its occurrences. -/
theorem get?_methodSet_iff {u : Universe} {t : Ty} (h : t.isPointer = true → u.interfaceOf? t.deref = none)
    {name : String} {s : Selection} : (u.methodSet t).get? name = some s ↔ u.Selects t name s := by
  have hguard : ¬ (t.isPointer && (u.interfaceOf? t.deref).isSome) = true := by
    rw [Bool.and_eq_true]
    rintro ⟨hp, hi⟩
    rw [h hp] at hi
    cases hi
  rw [methodSet, if_neg hguard, Table.get?_filterMap, Option.bind_eq_some_iff]
  simp only [id_eq, exists_eq_right, (Frontier.start u t).search, firstOccurs_and_single?_iff, Selects]
  refine exists_congr fun d => ?_
  rw [exists_and_left]

/-- **The method set is what the selector rule selects.**  A pointer to an interface has no methods.  Any other type
has exactly the methods that are found, by counting all embedding paths, once at the smallest depth of their name. -/
theorem methodSet_iff_selects (u : Universe) (t : Ty) :
    (t.isPointer = true ∧ (∃ i, u.underlying t.deref = .interface i) → u.methodSet t = .empty) ∧
      (¬ (t.isPointer = true ∧ ∃ i, u.underlying t.deref = .interface i) →
        ∀ name s, (u.methodSet t).get? name = some s ↔ u.Selects t name s) := by
  constructor
  · rintro ⟨hp, i, hi⟩
    have hguard : (t.isPointer && (u.interfaceOf? t.deref).isSome) = true := by
      rw [hp, interfaceOf?_eq_some_iff.2 hi]
      rfl
    rw [methodSet, if_pos hguard]
  · intro h name s
    exact get?_methodSet_iff fun hp => interfaceOf?_eq_none_iff.2 fun i hi => h ⟨hp, i, hi⟩

/-- A struct `Top` that embeds `Left` and a pointer to `Right`, both of which embed `Base` and `Top` again. -/
def diamond : Universe :=
  let base : Ty := .named ⟨"p", "Base"⟩
  let top : Ty := .named ⟨"p", "Top"⟩
  let side : Ty := .struct [⟨"Base", base, true⟩, ⟨"Top", .pointer top, true⟩]
  let method (name : String) : MethodDecl := ⟨name, ⟨[], [], false⟩, true, .unknown⟩
  (((((((initial.define ⟨"p", "Base"⟩ (.struct [])).addMethod ⟨"p", "Base"⟩ (method "Low")).define ⟨"p", "Left"⟩
    side).addMethod ⟨"p", "Left"⟩ (method "Beside")).define ⟨"p", "Right"⟩ side).addMethod ⟨"p", "Right"⟩
      (method "Across")).define ⟨"p", "Top"⟩
        (.struct [⟨"Left", .named ⟨"p", "Left"⟩, true⟩, ⟨"Right", .pointer (.named ⟨"p", "Right"⟩), true⟩]))

/-- From `Top` in the diamond, `Across` is selected across the pointer, `Low` is reached on two paths and selects
nothing, and a pointer to `error` has no methods. -/
theorem diamond_methodSet :
    (diamond.methodSet (.named ⟨"p", "Top"⟩)).get? "Across" =
        some ⟨"Across", ⟨[], [], false⟩, some ⟨"p", "Right"⟩, true, 1⟩ ∧
      (diamond.methodSet (.named ⟨"p", "Top"⟩)).get? "Low" = none ∧
      diamond.methodSet (.pointer .error) = .empty := by
  have hp : ¬ ((Ty.named ⟨"p", "Top"⟩).isPointer = true ∧
      ∃ i, diamond.underlying (Ty.named ⟨"p", "Top"⟩).deref = .interface i) := by
    rintro ⟨h, -⟩
    cases h
  have hselects := (methodSet_iff_selects diamond (.named ⟨"p", "Top"⟩)).2 hp
  refine ⟨(hselects _ _).2 ⟨1, _, fun k hk => ?_, rfl, rfl⟩, ?_, ?_⟩
  · obtain rfl : k = 0 := by omega
    rfl
  · refine Option.eq_none_iff_forall_ne_some.2 fun s hs => ?_
    obtain ⟨d, o, hk, ho, -⟩ := (hselects _ _).1 hs
    match d with
    | 0 => cases ho
    | 1 => cases ho
    | 2 => cases ho
    | d + 3 => cases hk 2 (by omega)
  · exact (methodSet_iff_selects diamond (.pointer .error)).1 ⟨rfl, errorInterface, rfl⟩

end Universe

end TypeAtlas
