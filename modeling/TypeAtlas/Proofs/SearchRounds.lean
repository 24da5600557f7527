import Mathlib.Logic.Function.Iterate
import TypeAtlas.Proofs.DefinitionChains
import TypeAtlas.Proofs.SearchExtent
import TypeAtlas.Proofs.SelectorRule

/-!
# How many rounds the search for methods takes

The methods of an interface and the method set of a type are found by loops (`InterfaceSearch`, `MethodSearch`).  Only names
are remembered as seen, so anonymous types are gone into whenever they are met, and a name brings up types of any size.  Still
each round sees a defined name for the first time, or goes on with smaller types and the same names left to see
(`InterfaceSearch.measure`, `MethodSearch.measure`).  So both loops end on every universe, whatever embeds itself or runs in
a circle, and they need no bound on their rounds.

How many rounds there are can be told in advance.  Behind each name stands a type of some size, and a name is gone into once
(`Universe.bulk`).  What the loop has yet to go through and what is behind the names not yet seen get smaller together with
each round, so the number of rounds is at most the size of the argument and of all that is behind a name
(`InterfaceSearch.ends`, `MethodSearch.ends`).

A bound there is all the same: definitions are followed for `Universe.chainLimit` links.  If every chain that the search meets
ends within the limit or never, it finds what it would find if chains were followed to their ends
(`Universe.FollowedThrough.resembles`).  A chain that ends later may hide methods (`Universe.ladder`).
-/

namespace TypeAtlas

/-! ## Loops -/

/-- What a loop does in one round, when it is over, and what comes out. -/
structure Loop (σ ρ : Type) where
  round : σ → σ
  isDone : σ → Bool
  result : σ → ρ

namespace Loop

variable {σ ρ : Type} {loop : Loop σ ρ}

/-- How a loop ends that starts from a state. -/
structure Ends (loop : Loop σ ρ) (measure : σ → Nat × Nat) (bound : Nat) (start : σ) (r : ρ) : Prop where
  /-- Every round of the loop, from whatever state, makes the measure smaller. -/
  decreases : ∀ s, loop.isDone s = false → Prod.Lex (· < ·) (· < ·) (measure (loop.round s)) (measure s)
  /-- The loop is over after a number of rounds. -/
  isDone : ∀ n, bound ≤ n → loop.isDone (loop.round^[n] start) = true
  /-- No number of rounds lets it come out with anything else. -/
  result : ∀ n, loop.isDone (loop.round^[n] start) = true → loop.result (loop.round^[n] start) = r

/-- A loop with a potential is over after that many rounds. -/
theorem isDone_iterate {potential : σ → Nat} (hround : ∀ s, loop.isDone s = false → potential (loop.round s) < potential s)
    (hstay : ∀ s, loop.isDone s = true → loop.round s = s) {n : Nat} :
    ∀ {s : σ}, potential s ≤ n → loop.isDone (loop.round^[n] s) = true := by
  induction n with
  | zero =>
    intro s hs
    cases hdone : loop.isDone s with
    | true => exact hdone
    | false => exact absurd (hround s hdone) (by omega)
  | succ n ih =>
    intro s hs
    cases hdone : loop.isDone s with
    | true => rwa [Function.iterate_fixed (hstay s hdone)]
    | false =>
      have hlt := hround s hdone
      exact ih (by omega)

/-- To show how a loop ends: a potential that gets smaller with each round, and an outcome that does not change. -/
theorem Ends.of_potential {measure : σ → Nat × Nat} (potential : σ → Nat) (outcome : σ → ρ)
    (hmeasure : ∀ s, loop.isDone s = false → Prod.Lex (· < ·) (· < ·) (measure (loop.round s)) (measure s))
    (hround : ∀ s, loop.isDone s = false → potential (loop.round s) < potential s)
    (hstay : ∀ s, loop.isDone s = true → loop.round s = s) (houtcome : ∀ s, outcome (loop.round s) = outcome s)
    (hresult : ∀ s, loop.isDone s = true → outcome s = loop.result s) (start : σ) :
    loop.Ends measure (potential start) start (outcome start) where
  decreases := hmeasure
  isDone _ hn := isDone_iterate hround hstay hn
  result n hdone := by
    have hkept : outcome ∘ loop.round^[n] = outcome := Function.iterate_invariant (funext houtcome) n
    rw [← hresult _ hdone]
    exact congrFun hkept start

end Loop

/-! ## What is behind the names -/

theorem Ty.sizeAll_le_of_sublist {ss ts : List Ty} (h : ss.Sublist ts) : Ty.sizeAll ss ≤ Ty.sizeAll ts := by
  induction h with
  | slnil => exact Nat.le_refl _
  | cons t _ ih =>
    rw [Ty.sizeAll]
    omega
  | cons_cons t _ ih =>
    rw [Ty.sizeAll, Ty.sizeAll]
    omega

namespace Universe

/-- The size of what is behind the defined names that are not in a list. -/
def bulk (u : Universe) (seen : List TypeName) : Nat :=
  Ty.sizeAll ((u.defs.keys.filter fun n => decide (n ∉ seen)).map fun n => u.underlying (.named n))

theorem filter_keys_cons (u : Universe) (n : TypeName) (seen : List TypeName) :
    (u.defs.keys.filter fun k => decide (k ∉ n :: seen)) =
      (u.defs.keys.filter fun k => decide (k ∉ seen)).filter fun k => decide (k ≠ n) := by
  rw [List.filter_filter]
  refine List.filter_congr fun k _ => ?_
  simp only [List.mem_cons, not_or, Bool.decide_and]

theorem bulk_cons_le (u : Universe) (n : TypeName) (seen : List TypeName) : u.bulk (n :: seen) ≤ u.bulk seen := by
  rw [bulk, filter_keys_cons]
  exact Ty.sizeAll_le_of_sublist (List.filter_sublist.map _)

theorem sizeAll_filter_ne_add_le (behind : TypeName → Ty) {n : TypeName} {names : List TypeName} (hn : n ∈ names) :
    Ty.sizeAll ((names.filter fun k => decide (k ≠ n)).map behind) + (behind n).size ≤ Ty.sizeAll (names.map behind) := by
  induction names with
  | nil => cases hn
  | cons m names ih =>
    by_cases hm : m = n
    · have hle := Ty.sizeAll_le_of_sublist ((names.filter_sublist (p := fun k => decide (k ≠ n))).map behind)
      rw [hm, List.filter_cons_of_neg (by simp), List.map_cons, Ty.sizeAll]
      omega
    · have hle := ih ((List.mem_cons.1 hn).resolve_left fun h => hm h.symm)
      rw [List.filter_cons_of_pos (by simpa using hm), List.map_cons, List.map_cons, Ty.sizeAll, Ty.sizeAll]
      omega

/-- **Seeing a defined name for the first time takes what is behind it off the bulk.** -/
theorem bulk_cons_add_le {u : Universe} {n : TypeName} {d : Definition} {seen : List TypeName}
    (hd : u.lookup n = some d) (hn : n ∉ seen) : u.bulk (n :: seen) + (u.underlying (.named n)).size ≤ u.bulk seen := by
  rw [bulk, bulk, filter_keys_cons]
  exact sizeAll_filter_ne_add_le _ (List.mem_filter.2 ⟨mem_keys_of_lookup hd, decide_eq_true hn⟩)

end Universe

/-! ## The methods of an interface -/

/-- A search through embedded interfaces: the types it has yet to go through, the names it saw, the methods it found. -/
structure InterfaceSearch where
  pending : List Ty
  visited : List TypeName
  found : Table String Signature

namespace InterfaceSearch

/-- The search that starts from an interface. -/
def ofInterface (i : InterfaceType) : InterfaceSearch := ⟨i.embeds, [], Universe.addListed .empty i.methods⟩

/-- Go through the first type. -/
def round (u : Universe) (s : InterfaceSearch) : InterfaceSearch :=
  match s.pending with
  | [] => s
  | t :: rest =>
    if t.seenIn s.visited then { s with pending := rest }
    else
      match u.interfaceOf? t with
      | some i => ⟨i.embeds ++ rest, t.asNamed?.toList ++ s.visited, Universe.addListed s.found i.methods⟩
      | none => { s with pending := rest, visited := t.asNamed?.toList ++ s.visited }

/-- The search as a loop. -/
def loop (u : Universe) : Loop InterfaceSearch (Table String Signature) := ⟨round u, (·.pending.isEmpty), found⟩

/-- The names left to see, then the size of the types to go through. -/
def measure (u : Universe) (s : InterfaceSearch) : Nat × Nat := (u.unseen s.visited, Ty.sizeAll s.pending)

/-- The size of the types to go through and of what is behind the names left to see. -/
def potential (u : Universe) (s : InterfaceSearch) : Nat := Ty.sizeAll s.pending + u.bulk s.visited

variable {u : Universe} {s : InterfaceSearch}

theorem round_of_done (h : s.pending.isEmpty = true) : s.round u = s := by
  rw [round, List.isEmpty_iff.1 h]

/-- What a round may do. -/
theorem round_cases (h : s.pending.isEmpty = false) :
    ∃ t rest, s.pending = t :: rest ∧
      ((t.seenIn s.visited = true ∧ s.round u = { s with pending := rest }) ∨
        (t.seenIn s.visited = false ∧ u.interfaceOf? t = none ∧
          s.round u = { s with pending := rest, visited := t.asNamed?.toList ++ s.visited }) ∨
        ∃ i, t.seenIn s.visited = false ∧ u.interfaceOf? t = some i ∧
          s.round u = ⟨i.embeds ++ rest, t.asNamed?.toList ++ s.visited, Universe.addListed s.found i.methods⟩) := by
  obtain ⟨t, rest, hpending⟩ := List.exists_cons_of_ne_nil (List.isEmpty_eq_false_iff.1 h)
  refine ⟨t, rest, hpending, ?_⟩
  unfold round
  rw [hpending]
  dsimp only
  cases hseen : t.seenIn s.visited with
  | true => exact .inl ⟨rfl, rfl⟩
  | false =>
    cases hi : u.interfaceOf? t with
    | none => exact .inr (.inl ⟨rfl, rfl, rfl⟩)
    | some i => exact .inr (.inr ⟨i, rfl, rfl, rfl⟩)

theorem measure_round (h : s.pending.isEmpty = false) :
    Prod.Lex (· < ·) (· < ·) (measure u (s.round u)) (measure u s) := by
  obtain ⟨t, rest, hpending, ⟨-, hround⟩ | ⟨-, -, hround⟩ | ⟨i, hseen, hi, hround⟩⟩ := round_cases (u := u) h
  · rw [hround, measure, measure, hpending]
    exact u.skip_decreases t rest [] s.visited
  · rw [hround, measure, measure, hpending]
    exact u.skip_decreases t rest _ s.visited
  · rw [hround, measure, measure, hpending]
    exact Universe.expand_decreases (by simp [hseen]) hi

/-- **With each round there is less to go through, counting what is behind the names left to see.** -/
theorem potential_round (h : s.pending.isEmpty = false) : potential u (s.round u) < potential u s := by
  obtain ⟨t, rest, hpending, hcases⟩ := round_cases (u := u) h
  have hpos := t.size_pos
  have hbulk : u.bulk (t.asNamed?.toList ++ s.visited) ≤ u.bulk s.visited := by
    cases t.asNamed? with
    | none => exact Nat.le_refl _
    | some n => exact u.bulk_cons_le n s.visited
  rcases hcases with ⟨-, hround⟩ | ⟨-, -, hround⟩ | ⟨i, hseen, hi, hround⟩
  · rw [hround, potential, potential, hpending, Ty.sizeAll]
    dsimp only
    omega
  · rw [hround, potential, potential, hpending, Ty.sizeAll]
    dsimp only
    omega
  · have hembeds := i.sizeAll_embeds_lt
    have hbehind := Ty.eq_interface_of_asInterface? hi
    rw [hround, potential, potential, hpending, Ty.sizeAll, Ty.sizeAll_append]
    cases hn : t.asNamed? with
    | none =>
      rw [Universe.underlying_of_asNamed?_eq_none hn] at hbehind
      rw [hbehind]
      simp only [Option.toList_none, List.nil_append]
      omega
    | some n =>
      obtain rfl := Ty.eq_named_of_asNamed? hn
      cases hd : u.lookup n with
      | none => simp [Universe.underlying_of_undefined hd] at hbehind
      | some d =>
        have htaken := Universe.bulk_cons_add_le hd (by simpa [Ty.seenIn, Ty.asNamed?] using hseen)
        rw [hbehind] at htaken
        simp only [Option.toList_some, List.cons_append, List.nil_append]
        omega

/-- The methods that the search is going to find. -/
def outcome (u : Universe) (s : InterfaceSearch) : Table String Signature := u.collect s.pending s.visited s.found

theorem outcome_round (u : Universe) (s : InterfaceSearch) : outcome u (s.round u) = outcome u s := by
  cases h : s.pending.isEmpty with
  | true => rw [round_of_done h]
  | false =>
    obtain ⟨t, rest, hpending, ⟨hseen, hround⟩ | ⟨hseen, hi, hround⟩ | ⟨i, hseen, hi, hround⟩⟩ := round_cases (u := u) h
    · rw [hround, outcome, outcome, hpending, Universe.collect_of_seen hseen]
    · rw [hround, outcome, outcome, hpending, Universe.collect_of_interfaceOf?_eq_none hseen hi]
    · rw [hround, outcome, outcome, hpending, Universe.collect_of_interfaceOf? hseen hi]

/-- **The search for the methods of an interface ends.** -/
theorem ends (u : Universe) (i : InterfaceType) :
    (loop u).Ends (measure u) (Ty.sizeAll i.embeds + u.bulk []) (ofInterface i) (u.interfaceMethods i) := by
  refine Loop.Ends.of_potential (potential u) (outcome u) (fun _ h => measure_round h) (fun _ h => potential_round h)
    (fun _ h => round_of_done h) (outcome_round u) (fun s h => ?_) (ofInterface i)
  rw [outcome, List.isEmpty_iff.1 h, Universe.collect_nil]
  rfl

end InterfaceSearch

/-! ## The method set of a type -/

namespace ReachedType

/-- Merging equal types leaves every type once. -/
theorem nodup_keepFirst (es : List ReachedType) (kept : List Ty) :
    ((keepFirst kept es).map type).Nodup ∧ ∀ t ∈ (keepFirst kept es).map type, t ∉ kept := by
  induction es generalizing kept with
  | nil => exact ⟨List.nodup_nil, fun t ht => by cases ht⟩
  | cons e es ih =>
    rw [keepFirst]
    split
    case isTrue => exact ih kept
    case isFalse hkept =>
      obtain ⟨hnodup, hnew⟩ := ih (e.type :: kept)
      rw [List.map_cons]
      refine ⟨List.nodup_cons.2 ⟨fun hmem => hnew _ hmem List.mem_cons_self, hnodup⟩, fun t ht => ?_⟩
      rcases List.mem_cons.1 ht with rfl | ht
      · exact hkept
      · exact fun hmem => hnew t ht (List.mem_cons_of_mem _ hmem)

theorem nodup_advance (u : Universe) (es : List ReachedType) : ((advance u es).map type).Nodup :=
  (nodup_keepFirst _ []).1

theorem names_cons (e : ReachedType) (es : List ReachedType) : names (e :: es) = e.type.asNamed?.toList ++ names es := by
  unfold names
  cases h : e.type.asNamed? <;> simp [h]

/-- **What fresh types embed is smaller than they are, counting what is behind the names left to see.**  Different types have
different names, so what is behind a name is counted once. -/
theorem total_flatMap_embedded_add_bulk_le {u : Universe} {seen : List TypeName} {es : List ReachedType}
    (hnodup : (es.map type).Nodup) (hfresh : ∀ e ∈ es, e.type.seenIn seen = false) :
    total (es.flatMap (embedded u)) + es.length + u.bulk (names es ++ seen) ≤ total es + u.bulk seen := by
  induction es with
  | nil => exact Nat.le_of_eq (by simp [total, names])
  | cons e es ih =>
    obtain ⟨hnew, hnodup⟩ := List.nodup_cons.1 hnodup
    have hrest := ih hnodup fun d hd => hfresh d (List.mem_cons_of_mem e hd)
    have hembedded := e.total_embedded_lt_behind u
    have hpos := e.type.size_pos
    rw [List.flatMap_cons, total_append, total_cons, List.length_cons, names_cons]
    cases hn : e.type.asNamed? with
    | none =>
      rw [Universe.underlying_of_asNamed?_eq_none hn] at hembedded
      rw [Option.toList_none, List.nil_append]
      omega
    | some n =>
      have hname := Ty.eq_named_of_asNamed? hn
      rw [Option.toList_some, List.singleton_append, List.cons_append]
      cases hd : u.lookup n with
      | none =>
        rw [hname, Universe.underlying_of_undefined hd, ← hname] at hembedded
        have hbulk := u.bulk_cons_le n (names es ++ seen)
        omega
      | some d =>
        have hunseen : n ∉ names es ++ seen := by
          intro hmem
          rcases List.mem_append.1 hmem with hmem | hmem
          · obtain ⟨c, hc, hcn⟩ := List.mem_filterMap.1 hmem
            refine hnew (List.mem_map.2 ⟨c, hc, ?_⟩)
            rw [Ty.eq_named_of_asNamed? hcn, hname]
          · have hseen := hfresh e List.mem_cons_self
            rw [Ty.seenIn, hn] at hseen
            simp [hmem] at hseen
        have hbulk := Universe.bulk_cons_add_le hd hunseen
        rw [← hname] at hbulk
        omega

end ReachedType

/-- A search for methods, depth by depth: the types it has come to, the names it saw, and what it settled. -/
structure MethodSearch where
  depth : Nat
  seen : List TypeName
  current : List ReachedType
  settled : Table String (Option Selection)
  /-- No type is to be searched twice. -/
  distinct : (current.map ReachedType.type).Nodup

namespace MethodSearch

/-- The search that starts from a type. -/
def ofType (t : Ty) : MethodSearch := ⟨0, [], [⟨t.deref, t.isPointer, false⟩], .empty, List.nodup_singleton _⟩

/-- Search one depth. -/
def round (u : Universe) (s : MethodSearch) : MethodSearch :=
  if s.current.isEmpty then s
  else
    let fresh := ReachedType.fresh s.seen s.current
    { depth := s.depth + 1
      seen := ReachedType.names fresh ++ s.seen
      current := ReachedType.advance u fresh
      settled := (Level.ofEmbeddings u s.depth fresh).addTo s.settled
      distinct := ReachedType.nodup_advance u fresh }

/-- The search as a loop. -/
def loop (u : Universe) : Loop MethodSearch MethodSet := ⟨round u, (·.current.isEmpty), (·.settled.filterMap id)⟩

/-- The names left to see, then the size of the types to search. -/
def measure (u : Universe) (s : MethodSearch) : Nat × Nat := (u.unseen s.seen, ReachedType.total s.current)

/-- The size of the types to search and of what is behind the names left to see. -/
def potential (u : Universe) (s : MethodSearch) : Nat := ReachedType.total s.current + u.bulk s.seen

variable {u : Universe} {s : MethodSearch}

theorem round_of_done (h : s.current.isEmpty = true) : s.round u = s := by
  rw [round, if_pos h]

theorem measure_round (h : s.current.isEmpty = false) :
    Prod.Lex (· < ·) (· < ·) (measure u (s.round u)) (measure u s) := by
  obtain ⟨e, es, hcurrent⟩ := List.exists_cons_of_ne_nil (List.isEmpty_eq_false_iff.1 h)
  rw [round, if_neg (by simp [h]), measure, measure]
  dsimp only
  rw [hcurrent]
  exact ReachedType.advance_decreases u s.seen e es

/-- **With each round there is less to search, counting what is behind the names left to see.** -/
theorem potential_round (h : s.current.isEmpty = false) : potential u (s.round u) < potential u s := by
  have hdistinct : ((ReachedType.fresh s.seen s.current).map ReachedType.type).Nodup :=
    s.distinct.sublist (List.filter_sublist.map _)
  have hle := ReachedType.total_flatMap_embedded_add_bulk_le (u := u) hdistinct fun e he => by
    simpa using (List.mem_filter.1 he).2
  have hmerge := ReachedType.total_keepFirst_le [] ((ReachedType.fresh s.seen s.current).flatMap (ReachedType.embedded u))
  have hfilter : ReachedType.total (ReachedType.fresh s.seen s.current) ≤ ReachedType.total s.current :=
    ReachedType.total_filter_le _ _
  rw [round, if_neg (by simp [h]), potential, potential]
  dsimp only [ReachedType.advance, ReachedType.mergeEqual]
  cases hfresh : ReachedType.fresh s.seen s.current with
  | nil =>
    obtain ⟨e, es, hcurrent⟩ := List.exists_cons_of_ne_nil (List.isEmpty_eq_false_iff.1 h)
    have hpos := e.type.size_pos
    rw [hcurrent, ReachedType.total_cons]
    simp only [List.flatMap_nil, ReachedType.keepFirst, ReachedType.total, ReachedType.names, List.filterMap_nil,
      List.nil_append]
    omega
  | cons d ds =>
    rw [hfresh] at hle hmerge hfilter
    rw [List.length_cons] at hle
    omega

/-- What the search is going to settle. -/
def outcome (u : Universe) (s : MethodSearch) : MethodSet := (u.search s.depth s.seen s.current s.settled).filterMap id

theorem outcome_of_done (h : s.current.isEmpty = true) : outcome u s = s.settled.filterMap id := by
  rw [outcome, List.isEmpty_iff.1 h, Universe.search]

theorem outcome_round (u : Universe) (s : MethodSearch) : outcome u (s.round u) = outcome u s := by
  cases h : s.current.isEmpty with
  | true => rw [round_of_done h]
  | false =>
    obtain ⟨e, es, hcurrent⟩ := List.exists_cons_of_ne_nil (List.isEmpty_eq_false_iff.1 h)
    rw [round, if_neg (by simp [h]), outcome, outcome]
    dsimp only
    rw [hcurrent]
    conv_rhs => rw [Universe.search]

/-- **The search for the method set of a type ends.**  There is none to begin with for a pointer to an interface. -/
theorem ends {t : Ty} (h : (t.isPointer && (u.interfaceOf? t.deref).isSome) = false) :
    (loop u).Ends (measure u) (t.deref.size + u.bulk []) (ofType t) (u.methodSet t) := by
  rw [Universe.methodSet, if_neg (by simp [h])]
  exact Loop.Ends.of_potential (potential u) (outcome u) (fun _ h => measure_round h) (fun _ h => potential_round h)
    (fun _ h => round_of_done h) (outcome_round u) (fun _ h => outcome_of_done h) (ofType t)

end MethodSearch

/-! ## The limit on chains of definitions -/

namespace Universe

variable {u v : Universe}

/-- A search that meets no chain beyond the limit takes from the types it meets what it would take without the limit. -/
theorem FollowedThrough.resembles (h : u.FollowedThrough v) {t : Ty} (ht : ∀ s, u.Meets t s → u.WithinLimit s) :
    u.Resembles (u.Meets t) v where
  declaredOn n _ := h.declaredOn n
  interfaceOf? s hs := (h.behind_eq (ht s hs)).1
  asStruct? s hs := (h.behind_eq (ht s hs)).2
  embeds _ _ hs hi _ he := hs.embed hi he
  fields _ _ hs hfs _ hf hembedded := hs.field hfs hf hembedded

/-- **The searches end, and only the length of chains of definitions is limited.**  Each round of the search for the methods
of an interface, and of the search for a method set, leaves fewer names to see, or as many and smaller types.  After a number
of rounds that is told by the sizes of the argument and of what the universe defines, the searches are over, and no bound on
the rounds changes what they find.  A pointer to an interface is not searched.  Chains of definitions are followed for a
limited number of links; this changes nothing unless the search meets a type whose chain ends beyond the limit. -/
theorem searches_end (u : Universe) :
    (∀ i, (InterfaceSearch.loop u).Ends (InterfaceSearch.measure u) (Ty.sizeAll i.embeds + u.bulk []) (.ofInterface i)
      (u.interfaceMethods i)) ∧
    (∀ t, ((t.isPointer && (u.interfaceOf? t.deref).isSome) = true ∧ u.methodSet t = .empty) ∨
      (MethodSearch.loop u).Ends (MethodSearch.measure u) (t.deref.size + u.bulk []) (.ofType t) (u.methodSet t)) ∧
    ∃ v, u.FollowedThrough v ∧
      (∀ i, (∀ s, u.Meets (.interface i) s → u.WithinLimit s) → u.interfaceMethods i = v.interfaceMethods i) ∧
      ∀ t, (∀ s, u.Meets t.deref s → u.WithinLimit s) → u.methodSet t = v.methodSet t := by
  have hthrough := u.followedThrough_shortened
  refine ⟨InterfaceSearch.ends u, fun t => ?_, u.shortened, hthrough, fun i hi => ?_, fun t ht => ?_⟩
  · cases h : t.isPointer && (u.interfaceOf? t.deref).isSome with
    | true => exact .inl ⟨rfl, by rw [methodSet, if_pos h]⟩
    | false => exact .inr (MethodSearch.ends h)
  · exact ((hthrough.resembles hi).interfaceMethods_eq fun e he => .embed .start rfl he).symm
  · exact ((hthrough.resembles ht).methodSet_eq .start).symm

/-- Structs that embed one another, interfaces that embed one another, names that define one another, and an anonymous struct
with a name that is not defined. -/
def tangle : Universe :=
  initial
    |>.define ⟨"p", "A"⟩ (.struct [⟨"B", .pointer (.named ⟨"p", "B"⟩), true⟩, ⟨"I", .named ⟨"p", "I"⟩, true⟩])
    |>.define ⟨"p", "B"⟩ (.struct [⟨"A", .named ⟨"p", "A"⟩, true⟩, ⟨"", .struct [⟨"X", .named ⟨"q", "X"⟩, true⟩], true⟩])
    |>.define ⟨"p", "I"⟩ (.interface ⟨[⟨"Read", ⟨[], [], false⟩⟩], [.named ⟨"p", "J"⟩, .named ⟨"p", "C"⟩]⟩)
    |>.define ⟨"p", "J"⟩ (.interface ⟨[], [.interface ⟨[], [.named ⟨"p", "I"⟩]⟩]⟩)
    |>.define ⟨"p", "C"⟩ (.named ⟨"p", "D"⟩)
    |>.define ⟨"p", "D"⟩ (.named ⟨"p", "C"⟩)

/-- The searches end there.  With few names no chain ends beyond the limit, so they find what they would find without it. -/
theorem tangle_searched :
    tangle.Endless (.named ⟨"p", "C"⟩) ∧
      (MethodSearch.loop tangle).Ends (MethodSearch.measure tangle) 19 (.ofType (.named ⟨"p", "A"⟩))
        (tangle.methodSet (.named ⟨"p", "A"⟩)) ∧
      ∃ v, tangle.FollowedThrough v ∧ ∀ t, tangle.methodSet t = v.methodSet t := by
  obtain ⟨-, hends, v, hthrough, -, hsame⟩ := searches_end tangle
  refine ⟨fun k s hk => ?_, ?_, v, hthrough, fun t => hsame t fun s _ => withinLimit_of_size_le (by decide +kernel) s⟩
  · -- Two links lead back to the name, so its distance to the end would be two less than it is.
    have hC : tangle.lookup ⟨"p", "C"⟩ = some ⟨.named ⟨"p", "D"⟩, []⟩ := by decide +kernel
    have hD : tangle.lookup ⟨"p", "D"⟩ = some ⟨.named ⟨"p", "C"⟩, []⟩ := by decide +kernel
    obtain ⟨l, rfl, hl⟩ := hk.of_lookup hC
    obtain ⟨m, rfl, hm⟩ := hl.of_lookup hD
    obtain ⟨hlength, -⟩ := hk.unique hm
    omega
  · rcases hends (.named ⟨"p", "A"⟩) with ⟨hpointer, -⟩ | hends
    · cases hpointer
    · have hbound : (Ty.named ⟨"p", "A"⟩).deref.size + tangle.bulk [] = 19 := by decide +kernel
      rwa [hbound] at hends

/-- The names of a chain. -/
def rung (k : Nat) : TypeName := ⟨"p", String.ofList (List.replicate (k + 1) 'T')⟩

theorem rung_inj {j k : Nat} (h : rung j = rung k) : j = k := by
  have hlength := congrArg (fun n => n.name.toList.length) h
  simpa [rung] using hlength

/-- An interface with one method. -/
def ladderFoot : InterfaceType := ⟨[⟨"Read", ⟨[], [], false⟩⟩], []⟩

/-- The first name is the interface, and every further one is defined by the one before it. -/
def ladder : Nat → Universe
  | 0 => initial.define (rung 0) (.interface ladderFoot)
  | k + 1 => (ladder k).define (rung (k + 1)) (.named (rung k))

theorem lookup_ladder_zero (k : Nat) : (ladder k).lookup (rung 0) = some ⟨.interface ladderFoot, []⟩ := by
  induction k with
  | zero => rw [ladder, lookup_define, if_pos rfl]
  | succ k ih => rw [ladder, lookup_define, if_neg fun h => absurd (rung_inj h) (by omega), ih]

theorem lookup_ladder_succ {j k : Nat} (h : j < k) : (ladder k).lookup (rung (j + 1)) = some ⟨.named (rung j), []⟩ := by
  induction k with
  | zero => cases h
  | succ k ih =>
    rw [ladder, lookup_define]
    by_cases hj : j = k
    · rw [hj, if_pos rfl]
    · rw [if_neg fun h => hj (by have := rung_inj h; omega), ih (by omega)]

/-- The chain of a name has one more link than that of the name before. -/
theorem endsAt_ladder {j k : Nat} (h : j ≤ k) : (ladder k).EndsAt (j + 1) (.named (rung j)) (.interface ladderFoot) := by
  induction j with
  | zero =>
    refine .step (lookup_ladder_zero k) (endsAt_zero ?_)
    rintro ⟨n, d, hn, -⟩
    cases hn
  | succ j ih => exact .step (lookup_ladder_succ h) (ih (by omega))

/-- The method set of a name without methods of its own and without a struct behind it. -/
theorem methodSet_of_asStruct?_eq_none {n : TypeName} (hn : u.declaredOn n = [])
    (hs : (u.underlying (.named n)).asStruct? = none) :
    u.methodSet (.named n) =
      ((⟨ReachedType.required u 0 ⟨.named n, false, false⟩, []⟩ : Level).addTo .empty).filterMap id := by
  have hfresh : ReachedType.fresh [] [⟨.named n, false, false⟩] = [⟨.named n, false, false⟩] := rfl
  have hfields : ReachedType.fields u ⟨.named n, false, false⟩ = [] := by
    rw [ReachedType.fields, hs]
    rfl
  have hdone : ReachedType.advance u [⟨.named n, false, false⟩] = [] := by
    rw [ReachedType.advance, List.flatMap_singleton, ReachedType.embedded, hfields]
    rfl
  have hlevel : Level.ofEmbeddings u 0 [⟨.named n, false, false⟩] =
      ⟨ReachedType.required u 0 ⟨.named n, false, false⟩, []⟩ := by
    rw [Level.ofEmbeddings, List.flatMap_singleton, List.flatMap_singleton, hfields, ReachedType.declared]
    dsimp only [Ty.asNamed?]
    rw [hn]
    rfl
  rw [methodSet, if_neg (by simp [Ty.isPointer]), search]
  dsimp only [Ty.deref, Ty.isPointer]
  rw [hfresh, hdone, search, hlevel]

theorem methods_of_named {n m : TypeName} (hn : u.declaredOn n = []) (hm : u.underlying (.named n) = .named m) :
    u.methodSet (.named n) = .empty ∧ u.interfaceMethods ⟨[], [.named n]⟩ = .empty := by
  have hnone : u.interfaceOf? (.named n) = none := by
    rw [interfaceOf?, hm]
    rfl
  constructor
  · rw [methodSet_of_asStruct?_eq_none hn (by rw [hm]; rfl), ReachedType.required, hnone]
    rfl
  · rw [interfaceMethods, collect_of_interfaceOf?_eq_none rfl hnone, collect_nil]
    rfl

theorem methods_of_ladderFoot {n : TypeName} (hn : u.declaredOn n = [])
    (hi : u.underlying (.named n) = .interface ladderFoot) :
    (u.methodSet (.named n)).get? "Read" = some ⟨"Read", ⟨[], [], false⟩, some n, false, 0⟩ ∧
      (u.interfaceMethods ⟨[], [.named n]⟩).get? "Read" = some ⟨[], [], false⟩ := by
  have hsome : u.interfaceOf? (.named n) = some ladderFoot := by
    rw [interfaceOf?, hi]
    rfl
  have hasked : (u.interfaceMethods ladderFoot).entries = [("Read", ⟨[], [], false⟩)] := by
    rw [interfaceMethods, ladderFoot, collect_nil]
    rfl
  constructor
  · rw [methodSet_of_asStruct?_eq_none hn (by rw [hi]; rfl), ReachedType.required, hsome]
    dsimp only [Ty.asNamed?]
    rw [hasked, Table.get?_filterMap, Level.get?_addTo]
    simp [Level.names, Level.settle]
  · rw [interfaceMethods, collect_of_interfaceOf? rfl hsome, ladderFoot, List.append_nil, collect_nil]
    rfl

theorem declaredOn_ladder (k : Nat) : (ladder k).declaredOn (rung k) = [] := by
  cases k with
  | zero => rw [declaredOn, lookup_ladder_zero]
  | succ k => rw [declaredOn, lookup_ladder_succ (Nat.lt_succ_self k)]

theorem methods_ladder {k : Nat} (h : chainLimit ≤ k) :
    (ladder k).methodSet (.named (rung k)) = .empty ∧ (ladder k).interfaceMethods ⟨[], [.named (rung k)]⟩ = .empty := by
  obtain ⟨n, -, hn, -⟩ : (ladder k).IsDefinedName ((ladder k).follow chainLimit (.named (rung k))) := by
    refine isDefinedName_follow fun l s hl => ?_
    obtain ⟨rfl, -⟩ := (endsAt_ladder (Nat.le_refl k)).unique hl
    omega
  exact methods_of_named (declaredOn_ladder k) hn

/-- **A chain beyond the limit hides methods.**  The interface behind the last name is 65 links away, so its method is not
found, neither for the name nor where the name is embedded.  Without the limit it would be found. -/
theorem long_chain_hides_method :
    (ladder 64).EndsAt 65 (.named (rung 64)) (.interface ladderFoot) ∧
      ((ladder 64).methodSet (.named (rung 64)) = .empty ∧
        (ladder 64).interfaceMethods ⟨[], [.named (rung 64)]⟩ = .empty) ∧
      ∀ v, (ladder 64).FollowedThrough v →
        (v.methodSet (.named (rung 64))).get? "Read" = some ⟨"Read", ⟨[], [], false⟩, some (rung 64), false, 0⟩ ∧
          (v.interfaceMethods ⟨[], [.named (rung 64)]⟩).get? "Read" = some ⟨[], [], false⟩ := by
  have hends := endsAt_ladder (Nat.le_refl 64)
  exact ⟨hends, methods_ladder (Nat.le_refl chainLimit), fun v hv =>
    methods_of_ladderFoot ((hv.declaredOn _).trans (declaredOn_ladder 64)) (hv.ends _ _ _ hends)⟩

end Universe

end TypeAtlas
