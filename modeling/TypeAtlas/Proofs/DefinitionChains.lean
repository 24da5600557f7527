import Mathlib.Data.List.Perm.Subperm
import TypeAtlas.Proofs.Tables
import TypeAtlas.Universe.InterfaceMethods

/-!
# Chains of definitions

A name may be defined by another name, that by a third one, and so on (`Universe.Links`).  The chain ends at a type that is
not a defined name (`Universe.EndsAt`), or it runs into a circle and never ends (`Universe.Endless`).

The type behind a type is the end of its chain if this has at most `Universe.chainLimit` links (`Universe.follow_of_endsAt`),
and otherwise a name on the way (`Universe.isDefinedName_follow`).

What would be behind a type without the limit is said by a universe that follows chains through to their ends
(`Universe.FollowedThrough`).  There is one: a chain that ends visits no name twice, so it has no more links than there are
names (`Universe.EndsAt.le_size`), and it can be replaced by a single link (`Universe.shortened`).
-/

namespace TypeAtlas

namespace Universe

variable {u : Universe} {k l : Nat} {t s r : Ty} {n : TypeName} {d : Definition}

/-- A number of definitions leads from a type to another. -/
inductive Links (u : Universe) : Nat → Ty → Ty → Prop where
  | refl (t : Ty) : Links u 0 t t
  | step {k : Nat} {n : TypeName} {d : Definition} {s : Ty} :
      u.lookup n = some d → Links u k d.underlying s → Links u (k + 1) (.named n) s

/-- Whether a type is a name with a definition. -/
def IsDefinedName (u : Universe) (t : Ty) : Prop := ∃ n d, t = .named n ∧ u.lookup n = some d

/-- The chain of a type has a number of links and ends at another type. -/
structure EndsAt (u : Universe) (k : Nat) (t s : Ty) : Prop where
  links : u.Links k t s
  isEnd : ¬ u.IsDefinedName s

/-- The chain of a type goes on for ever. -/
def Endless (u : Universe) (t : Ty) : Prop := ∀ k s, ¬ u.EndsAt k t s

theorem endsAt_zero (h : ¬ u.IsDefinedName t) : u.EndsAt 0 t t := ⟨.refl t, h⟩

theorem EndsAt.step (hd : u.lookup n = some d) (h : u.EndsAt k d.underlying s) : u.EndsAt (k + 1) (.named n) s :=
  ⟨.step hd h.links, h.isEnd⟩

/-- The chain of a defined name is that of what defines it, with one more link. -/
theorem EndsAt.of_lookup (hd : u.lookup n = some d) (h : u.EndsAt k (.named n) s) :
    ∃ l, k = l + 1 ∧ u.EndsAt l d.underlying s := by
  obtain ⟨hlinks, hend⟩ := h
  cases hlinks with
  | refl => exact absurd ⟨n, d, rfl, hd⟩ hend
  | step hd' hlinks =>
    obtain rfl := Option.some.inj (hd'.symm.trans hd)
    exact ⟨_, rfl, hlinks, hend⟩

/-- **A chain has one end.** -/
theorem EndsAt.unique (h : u.EndsAt k t s) (h' : u.EndsAt l t r) : k = l ∧ s = r := by
  obtain ⟨hlinks, hend⟩ := h
  induction hlinks generalizing l with
  | refl t =>
    obtain ⟨hlinks', -⟩ := h'
    cases hlinks' with
    | refl => exact ⟨rfl, rfl⟩
    | step hd _ => exact absurd ⟨_, _, rfl, hd⟩ hend
  | step hd _ ih =>
    obtain ⟨m, rfl, hrest⟩ := h'.of_lookup hd
    obtain ⟨rfl, rfl⟩ := ih hrest hend
    exact ⟨rfl, rfl⟩

theorem Endless.isDefinedName (h : u.Endless t) : u.IsDefinedName t :=
  Classical.byContradiction fun hend => h 0 t (endsAt_zero hend)

theorem Endless.underlying (hd : u.lookup n = some d) (h : u.Endless (.named n)) : u.Endless d.underlying :=
  fun k s hends => h (k + 1) s (hends.step hd)

/-! ## Following a chain -/

theorem follow_succ_named (hd : u.lookup n = some d) (limit : Nat) :
    u.follow (limit + 1) (.named n) = u.follow limit d.underlying := by
  simp only [follow, hd]

theorem follow_of_not_isDefinedName (h : ¬ u.IsDefinedName t) (limit : Nat) : u.follow limit t = t := by
  cases limit with
  | zero => rfl
  | succ limit =>
    cases t with
    | named n =>
      cases hd : u.lookup n with
      | none => simp only [follow, hd]
      | some d => exact absurd ⟨n, d, rfl, hd⟩ h
    | _ => rfl

/-- **A chain that is not too long is followed to its end.** -/
theorem follow_of_endsAt {limit : Nat} (h : u.EndsAt k t s) (hk : k ≤ limit) : u.follow limit t = s := by
  obtain ⟨hlinks, hend⟩ := h
  induction hlinks generalizing limit with
  | refl t => exact follow_of_not_isDefinedName hend limit
  | step hd _ ih =>
    obtain ⟨limit, rfl⟩ : ∃ m, limit = m + 1 := ⟨limit - 1, by omega⟩
    rw [follow_succ_named hd]
    exact ih (by omega) hend

/-- **A chain that is longer, or endless, is left at a defined name.** -/
theorem isDefinedName_follow {limit : Nat} (h : ∀ k s, u.EndsAt k t s → limit < k) :
    u.IsDefinedName (u.follow limit t) := by
  have hname : u.IsDefinedName t :=
    Classical.byContradiction fun hend => absurd (h 0 t (endsAt_zero hend)) (Nat.not_lt_zero limit)
  induction limit generalizing t with
  | zero => exact hname
  | succ limit ih =>
    obtain ⟨n, d, rfl, hd⟩ := hname
    have hnext : ∀ k s, u.EndsAt k d.underlying s → limit < k := fun k s hends =>
      Nat.lt_of_succ_lt_succ (h (k + 1) s (hends.step hd))
    rw [follow_succ_named hd]
    refine ih hnext (Classical.byContradiction fun hend => ?_)
    exact absurd (hnext 0 _ (endsAt_zero hend)) (Nat.not_lt_zero limit)

/-- Going along an endless chain comes to no end. -/
theorem Endless.follow (h : u.Endless t) (limit : Nat) : u.Endless (u.follow limit t) := by
  induction limit generalizing t with
  | zero => exact h
  | succ limit ih =>
    obtain ⟨n, d, rfl, hd⟩ := h.isDefinedName
    rw [follow_succ_named hd]
    exact ih (h.underlying hd)

/-- The names on a chain that ends are different, since each has a distance of its own to the end. -/
theorem EndsAt.exists_names (h : u.EndsAt k t s) :
    ∃ names : List TypeName, names.length = k ∧ names.Nodup ∧
      ∀ n ∈ names, n ∈ u.defs.keys ∧ ∃ j ≤ k, u.EndsAt j (.named n) s := by
  obtain ⟨hlinks, hend⟩ := h
  induction hlinks with
  | refl t => exact ⟨[], rfl, List.nodup_nil, fun n hn => by cases hn⟩
  | @step k n d s hd hlinks ih =>
    obtain ⟨names, hlength, hnodup, hnames⟩ := ih hend
    have hends : u.EndsAt (k + 1) (.named n) s := ⟨.step hd hlinks, hend⟩
    have hnew : n ∉ names := by
      intro hmem
      obtain ⟨-, j, hj, hends'⟩ := hnames n hmem
      obtain ⟨rfl, -⟩ := hends.unique hends'
      omega
    refine ⟨n :: names, by rw [List.length_cons, hlength], List.nodup_cons.2 ⟨hnew, hnodup⟩, fun m hm => ?_⟩
    rcases List.mem_cons.1 hm with rfl | hm
    · exact ⟨mem_keys_of_lookup hd, k + 1, Nat.le_refl _, hends⟩
    · obtain ⟨hkey, j, hj, hends'⟩ := hnames m hm
      exact ⟨hkey, j, by omega, hends'⟩

/-- **A chain that ends has no more links than there are names.** -/
theorem EndsAt.le_size (h : u.EndsAt k t s) : k ≤ u.size := by
  obtain ⟨names, rfl, hnodup, hnames⟩ := h.exists_names
  have hle := (List.subperm_of_subset hnodup fun n hn => (hnames n hn).1).length_le
  rwa [Table.keys, List.length_map] at hle

/-! ## Without a limit -/

/-- What a universe is that has the methods of another one and follows every chain to its end, however long it is.  Behind a
type with an endless chain there is some name. -/
structure FollowedThrough (u v : Universe) : Prop where
  declaredOn : ∀ n, v.declaredOn n = u.declaredOn n
  ends : ∀ k t s, u.EndsAt k t s → v.underlying t = s
  endless : ∀ t, u.Endless t → ∃ n, v.underlying t = .named n

/-- The chain of a type ends within the limit, or never. -/
def WithinLimit (u : Universe) (t : Ty) : Prop := ∀ k s, u.EndsAt k t s → k ≤ chainLimit

/-- In a universe with few names no chain is too long. -/
theorem withinLimit_of_size_le (h : u.size ≤ chainLimit) (t : Ty) : u.WithinLimit t :=
  fun _ _ hends => Nat.le_trans hends.le_size h

/-- What is behind a type whose chain is not too long: the same type, or some name in both universes. -/
theorem FollowedThrough.underlying_eq {v : Universe} (h : u.FollowedThrough v) (ht : u.WithinLimit t) :
    v.underlying t = u.underlying t ∨ ∃ m n, v.underlying t = .named m ∧ u.underlying t = .named n := by
  by_cases hends : ∃ k s, u.EndsAt k t s
  · obtain ⟨k, s, hends⟩ := hends
    exact .inl ((h.ends k t s hends).trans (follow_of_endsAt hends (ht k s hends)).symm)
  · have hendless : u.Endless t := fun k s hk => hends ⟨k, s, hk⟩
    obtain ⟨m, hm⟩ := h.endless t hendless
    obtain ⟨n, -, hn, -⟩ := (hendless.follow chainLimit).isDefinedName
    exact .inr ⟨m, n, hm, hn⟩

/-- **The same interface or struct is behind a type whose chain is not too long.** -/
theorem FollowedThrough.behind_eq {v : Universe} (h : u.FollowedThrough v) (ht : u.WithinLimit t) :
    v.interfaceOf? t = u.interfaceOf? t ∧ (v.underlying t).asStruct? = (u.underlying t).asStruct? := by
  rw [interfaceOf?, interfaceOf?]
  rcases h.underlying_eq ht with heq | ⟨m, n, hm, hn⟩
  · rw [heq]
    exact ⟨rfl, rfl⟩
  · rw [hm, hn]
    exact ⟨rfl, rfl⟩

/-- The universe in which every name is defined by the end of its chain.  Names with an endless chain stay so. -/
def shortened (u : Universe) : Universe :=
  ⟨u.defs.map fun d => { d with underlying := u.follow u.size d.underlying }⟩

theorem lookup_shortened (u : Universe) (n : TypeName) :
    u.shortened.lookup n = (u.lookup n).map fun d => { d with underlying := u.follow u.size d.underlying } :=
  Table.get?_map _ _ _

theorem declaredOn_shortened (u : Universe) (n : TypeName) : u.shortened.declaredOn n = u.declaredOn n := by
  rw [declaredOn, declaredOn, lookup_shortened]
  cases u.lookup n <;> rfl

theorem isDefinedName_shortened : u.shortened.IsDefinedName t ↔ u.IsDefinedName t := by
  refine exists_congr fun n => ?_
  rw [lookup_shortened]
  cases u.lookup n <;> simp

/-- **A chain has the same end in the shortened universe, after one link at most.** -/
theorem EndsAt.shortened (h : u.EndsAt k t s) : ∃ l ≤ 1, u.shortened.EndsAt l t s := by
  have hend : ¬ u.shortened.IsDefinedName s := fun hname => h.isEnd (isDefinedName_shortened.1 hname)
  by_cases hname : u.IsDefinedName t
  · obtain ⟨n, d, rfl, hd⟩ := hname
    obtain ⟨j, rfl, hrest⟩ := h.of_lookup hd
    have hlookup : u.shortened.lookup n = some { d with underlying := s } := by
      rw [lookup_shortened, hd, Option.map_some, follow_of_endsAt hrest hrest.le_size]
    exact ⟨1, Nat.le_refl 1, .step hlookup (.refl s), hend⟩
  · obtain ⟨-, rfl⟩ := h.unique (endsAt_zero hname)
    exact ⟨0, Nat.zero_le 1, .refl _, hend⟩

/-- An endless chain is endless in the shortened universe. -/
theorem Endless.follow_shortened (h : u.Endless t) (limit : Nat) : u.Endless (u.shortened.follow limit t) := by
  induction limit generalizing t with
  | zero => exact h
  | succ limit ih =>
    obtain ⟨n, d, rfl, hd⟩ := h.isDefinedName
    have hlookup : u.shortened.lookup n = some { d with underlying := u.follow u.size d.underlying } := by
      rw [lookup_shortened, hd, Option.map_some]
    rw [follow_succ_named hlookup]
    exact ih ((h.underlying hd).follow u.size)

/-- **Every universe can be followed through.** -/
theorem followedThrough_shortened (u : Universe) : u.FollowedThrough u.shortened where
  declaredOn := u.declaredOn_shortened
  ends k t s hends := by
    obtain ⟨l, hl, hshort⟩ := hends.shortened
    exact follow_of_endsAt hshort (Nat.le_trans hl (by decide))
  endless t hendless := by
    obtain ⟨n, -, hn, -⟩ := (hendless.follow_shortened chainLimit).isDefinedName
    exact ⟨n, hn⟩

end Universe

end TypeAtlas
