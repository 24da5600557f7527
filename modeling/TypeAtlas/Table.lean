/-!
# Tables: finite maps in key order

A `Table κ α` is a finite map whose entries stand in strictly increasing order of their keys.  The order is part
of the type, so a table has one representation only: two tables that answer every look-up alike are equal
(`Table.ext_get?`), and listing a table (`keys`, `values`, `entries`) needs no sorting.

* `get?_insert`, `get?_insertIfNew`: a look-up after an insertion.
* `mem_entries_iff`: the entries are exactly the bindings.
-/

namespace TypeAtlas

/-- A finite map from `κ` to `α`, listed in strictly increasing key order. -/
structure Table (κ α : Type) [Ord κ] where
  /-- The bindings, in key order. -/
  entries : List (κ × α)
  /-- Keys increase strictly, so no key is bound twice. -/
  sorted : entries.Pairwise fun a b => compare a.1 b.1 = .lt

namespace Table

variable {κ α β : Type} [Ord κ]

/-- **A table is its list of entries.** -/
theorem ext_entries {s t : Table κ α} (h : s.entries = t.entries) : s = t := by
  cases s; cases t; cases h; rfl

instance [DecidableEq κ] [DecidableEq α] : DecidableEq (Table κ α) := fun s t =>
  decidable_of_iff (s.entries = t.entries) ⟨ext_entries, congrArg entries⟩

/-- The table without bindings. -/
def empty : Table κ α := ⟨[], .nil⟩

instance : EmptyCollection (Table κ α) := ⟨empty⟩

instance : Inhabited (Table κ α) := ⟨empty⟩

/-- The value bound to `k` in a list of bindings: the first one counts. -/
def find? (k : κ) : List (κ × α) → Option α
  | [] => none
  | e :: es => if compare k e.1 = .eq then some e.2 else find? k es

/-- Bind `k` to `a` in a sorted list of bindings, in place of an earlier binding of `k`. -/
def place (k : κ) (a : α) : List (κ × α) → List (κ × α)
  | [] => [(k, a)]
  | e :: es =>
    match compare k e.1 with
    | .lt => (k, a) :: e :: es
    | .eq => (k, a) :: es
    | .gt => e :: place k a es

/-- A binding after `place` is the new one or an old one. -/
theorem eq_or_mem_of_mem_place {k : κ} {a : α} {e : κ × α} :
    ∀ {es : List (κ × α)}, e ∈ place k a es → e = (k, a) ∨ e ∈ es
  | [], h => .inl (List.mem_singleton.1 h)
  | d :: ds, h => by
    unfold place at h
    split at h
    · exact List.mem_cons.1 h
    · exact (List.mem_cons.1 h).imp_right (List.mem_cons_of_mem d)
    · rcases List.mem_cons.1 h with rfl | h
      · exact .inr List.mem_cons_self
      · exact (eq_or_mem_of_mem_place h).imp_right (List.mem_cons_of_mem d)

/-- **Placing a binding keeps the keys increasing.** -/
theorem sorted_place [Std.TransOrd κ] [Std.LawfulEqOrd κ] (k : κ) (a : α) :
    ∀ {es : List (κ × α)}, (es.Pairwise fun x y => compare x.1 y.1 = .lt) →
      (place k a es).Pairwise fun x y => compare x.1 y.1 = .lt
  | [], _ => List.pairwise_singleton _ _
  | e :: es, h => by
    obtain ⟨he, hes⟩ := List.pairwise_cons.1 h
    unfold place
    split
    case h_1 hk =>
      refine List.pairwise_cons.2 ⟨fun d hd => ?_, h⟩
      rcases List.mem_cons.1 hd with rfl | hd
      · exact hk
      · exact Std.TransCmp.lt_trans hk (he d hd)
    case h_2 hk =>
      have hk := Std.LawfulEqCmp.eq_of_compare hk
      exact List.pairwise_cons.2 ⟨fun d hd => hk ▸ he d hd, hes⟩
    case h_3 hk =>
      refine List.pairwise_cons.2 ⟨fun d hd => ?_, sorted_place k a hes⟩
      rcases eq_or_mem_of_mem_place hd with rfl | hd
      · exact Std.OrientedCmp.gt_iff_lt.1 hk
      · exact he d hd

/-- The value bound to `k`. -/
def get? (t : Table κ α) (k : κ) : Option α := find? k t.entries

/-- Whether `k` is bound. -/
def contains (t : Table κ α) (k : κ) : Bool := (t.get? k).isSome

/-- The bound keys, increasing. -/
def keys (t : Table κ α) : List κ := t.entries.map Prod.fst

/-- The values, in key order. -/
def values (t : Table κ α) : List α := t.entries.map Prod.snd

/-- The number of bindings. -/
def size (t : Table κ α) : Nat := t.entries.length

/-- Whether there is no binding. -/
def isEmpty (t : Table κ α) : Bool := t.entries.isEmpty

/-- The bindings that `p` accepts. -/
def filter (p : κ → α → Bool) (t : Table κ α) : Table κ α :=
  ⟨t.entries.filter fun e => p e.1 e.2, t.sorted.filter _⟩

/-- The same keys, each bound to `f` of its value. -/
def map (f : α → β) (t : Table κ α) : Table κ β :=
  ⟨t.entries.map fun e => (e.1, f e.2), List.pairwise_map.2 t.sorted⟩

/-- The keys whose value `f` keeps, each bound to what `f` makes of it. -/
def filterMap (f : α → Option β) (t : Table κ α) : Table κ β :=
  ⟨t.entries.filterMap fun e => (f e.2).map fun b => (e.1, b), by
    refine List.Pairwise.filterMap _ (fun a a' h b hb b' hb' => ?_) t.sorted
    obtain ⟨_, _, rfl⟩ := Option.map_eq_some_iff.1 hb
    obtain ⟨_, _, rfl⟩ := Option.map_eq_some_iff.1 hb'
    exact h⟩

section Insertion

variable [Std.TransOrd κ] [Std.LawfulEqOrd κ]

/-- Bind `k` to `a`, in place of an earlier binding of `k`. -/
def insert (t : Table κ α) (k : κ) (a : α) : Table κ α :=
  ⟨place k a t.entries, sorted_place k a t.sorted⟩

/-- Bind `k` to `a` unless `k` is bound already. -/
def insertIfNew (t : Table κ α) (k : κ) (a : α) : Table κ α :=
  if t.contains k then t else t.insert k a

/-- Bind every key of a list in turn: the last binding of a key stays. -/
def insertAll (t : Table κ α) (bindings : List (κ × α)) : Table κ α :=
  bindings.foldl (fun t e => t.insert e.1 e.2) t

/-- The table of a list of bindings: the last binding of a key counts. -/
def ofList (bindings : List (κ × α)) : Table κ α := empty.insertAll bindings

end Insertion

/-! ## Look-ups -/

@[simp] theorem get?_empty (k : κ) : (empty : Table κ α).get? k = none := rfl

theorem find?_eq_some_mem [Std.LawfulEqOrd κ] {k : κ} {a : α} :
    ∀ {es : List (κ × α)}, find? k es = some a → (k, a) ∈ es
  | e :: es, h => by
    unfold find? at h
    split at h
    case isTrue hk =>
      cases h
      rw [Std.LawfulEqCmp.eq_of_compare hk]
      exact List.mem_cons_self
    case isFalse => exact List.mem_cons_of_mem e (find?_eq_some_mem h)

theorem find?_of_mem [Std.TransOrd κ] {k : κ} {a : α} :
    ∀ {es : List (κ × α)}, (es.Pairwise fun x y => compare x.1 y.1 = .lt) → (k, a) ∈ es →
      find? k es = some a
  | e :: es, hs, h => by
    obtain ⟨he, hes⟩ := List.pairwise_cons.1 hs
    unfold find?
    rcases List.mem_cons.1 h with rfl | h
    · rw [if_pos Std.ReflCmp.compare_self]
    · have hk : compare k e.1 = .gt := Std.OrientedCmp.gt_iff_lt.2 (he _ h)
      rw [if_neg (by rw [hk]; decide)]
      exact find?_of_mem hes h

/-- **The entries are exactly the bindings.** -/
theorem mem_entries_iff [Std.TransOrd κ] [Std.LawfulEqOrd κ] {t : Table κ α} {k : κ} {a : α} :
    (k, a) ∈ t.entries ↔ t.get? k = some a :=
  ⟨find?_of_mem t.sorted, find?_eq_some_mem⟩

theorem find?_place_self [Std.ReflOrd κ] (k : κ) (a : α) :
    ∀ es : List (κ × α), find? k (place k a es) = some a
  | [] => by simp [place, find?]
  | e :: es => by
    unfold place
    split
    · simp [find?]
    · simp [find?]
    case h_3 hk =>
      rw [find?, if_neg (by rw [hk]; decide)]
      exact find?_place_self k a es

theorem find?_place_of_ne [Std.LawfulEqOrd κ] {k l : κ} (h : l ≠ k) (a : α) :
    ∀ es : List (κ × α), find? l (place k a es) = find? l es
  | [] => by
    show (if compare l k = .eq then some a else none) = none
    exact if_neg fun hl => h (Std.LawfulEqCmp.eq_of_compare hl)
  | e :: es => by
    have hl : ¬ compare l k = .eq := fun hl => h (Std.LawfulEqCmp.eq_of_compare hl)
    unfold place
    split
    · rw [find?, if_neg hl]
    case h_2 hk =>
      rw [find?, if_neg hl, find?, ← Std.LawfulEqCmp.eq_of_compare hk, if_neg hl]
    · rw [find?, find?, find?_place_of_ne h a es]

section Insertion

variable [Std.TransOrd κ] [Std.LawfulEqOrd κ]

@[simp] theorem get?_insert_self (t : Table κ α) (k : κ) (a : α) : (t.insert k a).get? k = some a :=
  find?_place_self k a t.entries

theorem get?_insert_of_ne {k l : κ} (h : l ≠ k) (t : Table κ α) (a : α) :
    (t.insert k a).get? l = t.get? l :=
  find?_place_of_ne h a t.entries

theorem get?_insert [DecidableEq κ] (t : Table κ α) (k l : κ) (a : α) :
    (t.insert k a).get? l = if l = k then some a else t.get? l := by
  split
  case isTrue h => rw [h, get?_insert_self]
  case isFalse h => exact get?_insert_of_ne h t a

/-- **A binding that is there already stays.** -/
theorem get?_insertIfNew [DecidableEq κ] (t : Table κ α) (k l : κ) (a : α) :
    (t.insertIfNew k a).get? l = (t.get? l).or (if l = k then some a else none) := by
  unfold insertIfNew contains
  split
  case isTrue h =>
    by_cases hl : l = k
    · obtain ⟨b, hb⟩ := Option.isSome_iff_exists.1 h
      rw [hl, hb, Option.some_or]
    · rw [if_neg hl, Option.or_none]
  case isFalse h =>
    rw [get?_insert]
    by_cases hl : l = k
    · rw [if_pos hl, if_pos hl, hl, Option.not_isSome_iff_eq_none.1 h, Option.none_or]
    · rw [if_neg hl, if_neg hl, Option.or_none]

end Insertion

/-- **Equal look-ups, equal tables.** -/
theorem ext_get? [Std.TransOrd κ] [Std.LawfulEqOrd κ] {s t : Table κ α}
    (h : ∀ k, s.get? k = t.get? k) : s = t := by
  have hm : ∀ e, e ∈ s.entries ↔ e ∈ t.entries := fun e => by
    rw [mem_entries_iff (k := e.1) (a := e.2), mem_entries_iff, h]
  have asymm : ∀ {a b : κ × α}, compare a.1 b.1 = .lt → ¬ compare b.1 a.1 = .lt :=
    Std.OrientedCmp.not_lt_of_lt
  have nodup : ∀ {r : Table κ α}, r.entries.Nodup := fun {r} =>
    r.sorted.imp fun {a b} hab he => by subst he; exact asymm hab hab
  have hp : s.entries.Perm t.entries := (List.perm_ext_iff_of_nodup nodup nodup).2 hm
  exact ext_entries (hp.eq_of_pairwise (fun a b _ _ h₁ h₂ => absurd h₂ (asymm h₁)) s.sorted t.sorted)

end Table

end TypeAtlas
