import Mathlib.Data.Finset.Card
import TypeAtlas.Proofs.Extraction
import TypeAtlas.Proofs.SearchRounds

/-!
# The type behind every type of a chain

A type whose chain of definitions ends within `Universe.chainLimit` links has the end of the chain behind it, and so has every
type along the chain, since its own chain is the rest of the first one (`Universe.EndsAt.along`).  What kind of entity a
defined type is depends on the type behind it alone (`Object.classifiesAs`), so all of them are of one kind.

A chain that does not end in time is left at a defined name, exactly `Universe.chainLimit` links away
(`Universe.links_follow`).  Either it ends later, or it never ends; and a chain that never ends runs in a circle, because there
are finitely many names for it to come to (`Universe.endless_iff_cyclic`).
-/

namespace TypeAtlas

/-! ## The kind of a defined type -/

/-- The kinds of entities. -/
inductive EntityKind where
  | aggregate
  | interface
  | namedType
  | typeAlias
deriving DecidableEq

/-- What kind of entity a defined type is that has a type behind it. -/
def EntityKind.ofUnderlying : Ty → EntityKind
  | .struct _ => aggregate
  | .interface _ => interface
  | _ => namedType

/-- The kind of an entity. -/
def Entity.kind : Entity → EntityKind
  | aggregate _ => .aggregate
  | interface _ => .interface
  | namedType _ => .namedType
  | typeAlias _ => .typeAlias

/-- An object is an entity of a kind, and of no other one. -/
structure Object.ClassifiesAs (o : Object) (u : Universe) (package : PackageRef) (kind : EntityKind) : Prop where
  entity : (Entity.ofObject? u package o).map Entity.kind = some kind
  aggregate : (Aggregate.ofObject? u package o).isSome = decide (kind = .aggregate)
  interface : (Interface.ofObject? u package o).isSome = decide (kind = .interface)
  namedType : (NamedType.ofObject? u package o).isSome = decide (kind = .namedType)

/-- **The type behind a defined type tells what kind of entity it is.** -/
theorem Object.classifiesAs (u : Universe) (package : PackageRef) {o : Object} (ho : o.kind = .definedType) :
    o.ClassifiesAs u package (.ofUnderlying (u.underlying o.type)) := by
  have halias : TypeAlias.ofObject? package o = none := by simp [TypeAlias.ofObject?, Object.isAlias, ho]
  cases hs : u.underlying o.type <;>
    constructor <;>
    simp [Entity.ofObject?, halias, Aggregate.ofObject?, Interface.ofObject?, NamedType.ofObject?, ho, hs,
      EntityKind.ofUnderlying, Entity.kind]

namespace Universe

variable {u : Universe} {j k : Nat} {t s r : Ty}

/-! ## Along a chain -/

/-- **The chain of a type along a chain is the rest of it.** -/
theorem EndsAt.along (h : u.EndsAt k t s) (hr : u.Links j t r) : ∃ l, k = j + l ∧ u.EndsAt l r s := by
  induction hr generalizing k with
  | refl t => exact ⟨k, by omega, h⟩
  | step hd _ ih =>
    obtain ⟨m, rfl, hrest⟩ := h.of_lookup hd
    obtain ⟨l, rfl, hl⟩ := ih hrest
    exact ⟨l, by omega, hl⟩

/-- Following a chain in two parts. -/
theorem follow_add (u : Universe) (j k : Nat) (t : Ty) : u.follow (j + k) t = u.follow k (u.follow j t) := by
  induction j generalizing t with
  | zero => rw [Nat.zero_add, follow]
  | succ j ih =>
    by_cases hname : u.IsDefinedName t
    · obtain ⟨n, d, rfl, hd⟩ := hname
      rw [Nat.succ_add, follow_succ_named hd, follow_succ_named hd, ih]
    · rw [follow_of_not_isDefinedName hname, follow_of_not_isDefinedName hname, follow_of_not_isDefinedName hname]

/-- **If following a chain stops at a defined name, it has gone along as many links as it may.** -/
theorem links_follow {limit : Nat} (h : u.IsDefinedName (u.follow limit t)) : u.Links limit t (u.follow limit t) := by
  induction limit generalizing t with
  | zero => exact .refl t
  | succ limit ih =>
    have hname : u.IsDefinedName t := by
      refine Classical.byContradiction fun hend => hend ?_
      rwa [follow_of_not_isDefinedName hend] at h
    obtain ⟨n, d, rfl, hd⟩ := hname
    rw [follow_succ_named hd] at h ⊢
    exact .step hd (ih h)

/-! ## Circles -/

/-- The chain of a type comes to a name that it comes to again. -/
def Cyclic (u : Universe) (t : Ty) : Prop :=
  ∃ j k n, u.Links j t (.named n) ∧ u.Links (k + 1) (.named n) (.named n)

/-- A chain that runs in a circle does not end: a name on the circle would be at two distances from the end. -/
theorem Cyclic.endless (h : u.Cyclic t) : u.Endless t := by
  intro l s hends
  obtain ⟨j, k, n, hto, haround⟩ := h
  obtain ⟨m, -, hm⟩ := hends.along hto
  obtain ⟨m', hlength, hm'⟩ := hm.along haround
  obtain ⟨rfl, -⟩ := hm.unique hm'
  omega

/-- An endless chain comes to some type twice, since it comes to defined names only. -/
theorem Endless.exists_follow_eq (h : u.Endless t) : ∃ i j, i < j ∧ u.follow i t = u.follow j t := by
  have hmem : ∀ k ∈ Finset.range (u.size + 1), u.follow k t ∈ (u.defs.keys.map Ty.named).toFinset := by
    intro k _
    obtain ⟨n, d, hn, hd⟩ := (h.follow k).isDefinedName
    rw [List.mem_toFinset, hn]
    exact List.mem_map_of_mem (mem_keys_of_lookup hd)
  have hcard : (u.defs.keys.map Ty.named).toFinset.card < (Finset.range (u.size + 1)).card := by
    refine Nat.lt_of_le_of_lt (List.toFinset_card_le _) ?_
    rw [List.length_map, Table.keys, List.length_map, Finset.card_range]
    exact Nat.lt_succ_self _
  obtain ⟨i, -, j, -, hne, heq⟩ := Finset.exists_ne_map_eq_of_card_lt_of_maps_to hcard hmem
  rcases Nat.lt_or_gt_of_ne hne with hlt | hlt
  · exact ⟨i, j, hlt, heq⟩
  · exact ⟨j, i, hlt, heq.symm⟩

/-- **A chain never ends if and only if it runs in a circle.** -/
theorem endless_iff_cyclic : u.Endless t ↔ u.Cyclic t := by
  refine ⟨fun h => ?_, Cyclic.endless⟩
  obtain ⟨i, j, hlt, heq⟩ := h.exists_follow_eq
  have hto := links_follow (h.follow i).isDefinedName
  have haround := links_follow ((h.follow i).follow (j - i)).isDefinedName
  rw [← follow_add, Nat.add_sub_cancel' (Nat.le_of_lt hlt), ← heq] at haround
  obtain ⟨n, -, hn, -⟩ := (h.follow i).isDefinedName
  rw [hn] at hto haround
  exact ⟨i, j - i - 1, n, hto, by rwa [Nat.sub_add_cancel (by omega)]⟩

/-! ## What is behind a type -/

/-- A type is behind all types along the chain of another one. -/
structure SettlesOn (u : Universe) (t s : Ty) : Prop where
  underlying_eq : u.underlying t = s
  /-- The answer is the same wherever on the chain it is asked for. -/
  along : ∀ j r, u.Links j t r → u.underlying r = s
  /-- To ask again changes nothing. -/
  idempotent : ∀ j r, u.Links j t r → u.underlying (u.underlying r) = u.underlying r
  /-- The defined types along the chain are entities of one kind, in whatever package they are declared. -/
  classified : ∀ j r, u.Links j t r → ∀ (o : Object) (package : PackageRef), o.kind = .definedType → o.type = r →
    o.ClassifiesAs u package (.ofUnderlying s)

/-- **A chain that ends in time settles on its end.** -/
theorem EndsAt.settlesOn (h : u.EndsAt k t s) (hk : k ≤ chainLimit) : u.SettlesOn t s := by
  have halong : ∀ j r, u.Links j t r → u.underlying r = s := by
    intro j r hr
    obtain ⟨l, rfl, hl⟩ := h.along hr
    exact follow_of_endsAt hl (by omega)
  refine ⟨halong 0 t (.refl t), halong, fun j r hr => ?_, fun j r hr o package ho htype => ?_⟩
  · rw [halong j r hr]
    exact follow_of_not_isDefinedName h.isEnd chainLimit
  · rw [← halong j r hr, ← htype]
    exact o.classifiesAs u package ho

/-- **What is behind a type.**  If its chain ends within the limit, it is the end of the chain, for the type itself and all
types along the chain.  It is a defined name if and only if the chain is longer or runs in a circle, and then it is the name
that the last link within the limit leads to. -/
theorem underlying_settles (u : Universe) (t : Ty) :
    (∀ k s, u.EndsAt k t s → k ≤ chainLimit → u.SettlesOn t s) ∧
      (u.IsDefinedName (u.underlying t) ↔ (∃ k s, u.EndsAt k t s ∧ chainLimit < k) ∨ u.Cyclic t) ∧
      (u.IsDefinedName (u.underlying t) → u.Links chainLimit t (u.underlying t)) := by
  refine ⟨fun k s hends hk => hends.settlesOn hk, ⟨fun hname => ?_, fun hlong => ?_⟩, links_follow⟩
  · by_cases hends : ∃ k s, u.EndsAt k t s
    · obtain ⟨k, s, hends⟩ := hends
      refine .inl ⟨k, s, hends, Nat.lt_of_not_le fun hk => hends.isEnd ?_⟩
      rwa [(hends.settlesOn hk).underlying_eq] at hname
    · exact .inr (endless_iff_cyclic.1 fun k s hk => hends ⟨k, s, hk⟩)
  · refine isDefinedName_follow fun l r hl => ?_
    rcases hlong with ⟨k, s, hends, hk⟩ | hcyclic
    · obtain ⟨rfl, -⟩ := hends.unique hl
      exact hk
    · exact absurd hl (hcyclic.endless l r)

/-- A chain of 64 links is followed to the interface at its end, one more link is too many, and behind names that define one
another there is a name. -/
theorem ladder_settles :
    (ladder 64).SettlesOn (.named (rung 63)) (.interface ladderFoot) ∧
      (ladder 64).IsDefinedName ((ladder 64).underlying (.named (rung 64))) ∧
      tangle.IsDefinedName (tangle.underlying (.named ⟨"p", "C"⟩)) := by
  obtain ⟨hsettles, -, -⟩ := underlying_settles (ladder 64) (.named (rung 63))
  obtain ⟨-, hlong, -⟩ := underlying_settles (ladder 64) (.named (rung 64))
  obtain ⟨-, hcircle, -⟩ := underlying_settles tangle (.named ⟨"p", "C"⟩)
  have hC : tangle.lookup ⟨"p", "C"⟩ = some ⟨.named ⟨"p", "D"⟩, []⟩ := rfl
  have hD : tangle.lookup ⟨"p", "D"⟩ = some ⟨.named ⟨"p", "C"⟩, []⟩ := rfl
  refine ⟨hsettles 64 _ (endsAt_ladder (Nat.le_succ 63)) (Nat.le_refl 64), hlong.2 (.inl ?_), hcircle.2 (.inr ?_)⟩
  · exact ⟨65, _, endsAt_ladder (Nat.le_refl 64), Nat.lt_succ_self 64⟩
  · exact ⟨0, 1, _, .refl _, .step hC (.step hD (.refl _))⟩

end Universe

end TypeAtlas
