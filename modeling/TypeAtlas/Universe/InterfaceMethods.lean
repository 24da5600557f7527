import TypeAtlas.Universe.Basic

/-!
# The methods of an interface

An interface asks for its own methods and for those of the interfaces that it embeds, at any depth.  The embedded
types are visited depth first, in order; a name is visited once, so interfaces that embed one another are no
obstacle; where a method is listed more than once, the first listing counts.

The search ends without a limit of its own: each visit either sees a defined name for the first time or goes from an
anonymous interface to its parts (`Universe.collect`).
-/

namespace TypeAtlas

namespace Universe

/-- Add the methods that an interface lists, unless methods of that name were found before. -/
def addListed (found : Table String Signature) (methods : List MethodSpec) : Table String Signature :=
  methods.foldl (fun t m => t.insertIfNew m.name m.signature) found

/-- The interface behind a type. -/
def interfaceOf? (u : Universe) (t : Ty) : Option InterfaceType := (u.underlying t).asInterface?

/-- Going from an unseen type to what the interface behind it embeds either sees a defined name for the first time or
makes the types smaller. -/
theorem expand_decreases {u : Universe} {t : Ty} {i : InterfaceType} {rest : List Ty} {visited : List TypeName}
    (hv : ¬ t.seenIn visited) (hi : u.interfaceOf? t = some i) :
    Prod.Lex (· < ·) (· < ·) (u.unseen (t.asNamed?.toList ++ visited), Ty.sizeAll (i.embeds ++ rest))
      (u.unseen visited, Ty.sizeAll (t :: rest)) := by
  cases hn : t.asNamed? with
  | some n =>
    obtain rfl := Ty.eq_named_of_asNamed? hn
    refine Prod.Lex.left _ _ ?_
    cases hd : u.lookup n with
    | none => simp [interfaceOf?, underlying_of_undefined hd, Ty.asInterface?] at hi
    | some d => exact unseen_append_lt hd (by simp) (by simpa [Ty.seenIn, Ty.asNamed?] using hv)
  | none =>
    rw [interfaceOf?, underlying_of_asNamed?_eq_none hn] at hi
    obtain rfl := Ty.eq_interface_of_asInterface? hi
    have := i.sizeAll_embeds_lt
    refine Prod.Lex.right _ ?_
    simp only [Ty.sizeAll_append, Ty.sizeAll]
    omega

/-- Leaving a type aside makes the types smaller. -/
theorem skip_decreases (u : Universe) (t : Ty) (rest : List Ty) (names visited : List TypeName) :
    Prod.Lex (· < ·) (· < ·) (u.unseen (names ++ visited), Ty.sizeAll rest)
      (u.unseen visited, Ty.sizeAll (t :: rest)) := by
  rcases Nat.lt_or_eq_of_le (u.unseen_append_le names visited) with h | h
  · exact Prod.Lex.left _ _ h
  · rw [h]
    have := t.size_pos
    exact Prod.Lex.right _ (by simp only [Ty.sizeAll]; omega)

/-- Add the methods of the interfaces behind `pending`, and of what they embed.  The names in `visited` are left out.
-/
def collect (u : Universe) (pending : List Ty) (visited : List TypeName) (found : Table String Signature) :
    Table String Signature :=
  match pending with
  | [] => found
  | t :: rest =>
    if _ : t.seenIn visited then u.collect rest visited found
    else
      match _ : u.interfaceOf? t with
      | some i => u.collect (i.embeds ++ rest) (t.asNamed?.toList ++ visited) (addListed found i.methods)
      | none => u.collect rest (t.asNamed?.toList ++ visited) found
termination_by (u.unseen visited, Ty.sizeAll pending)
decreasing_by
  · exact u.skip_decreases t rest [] visited
  · exact expand_decreases ‹_› ‹_›
  · exact u.skip_decreases t rest _ visited

theorem collect_nil (u : Universe) (visited : List TypeName) (found : Table String Signature) :
    u.collect [] visited found = found := by
  rw [collect]

theorem collect_of_seen {u : Universe} {t : Ty} {visited : List TypeName} (hv : t.seenIn visited = true)
    (rest : List Ty) (found : Table String Signature) :
    u.collect (t :: rest) visited found = u.collect rest visited found := by
  rw [collect, dif_pos hv]

theorem collect_of_interfaceOf? {u : Universe} {t : Ty} {i : InterfaceType} {visited : List TypeName}
    (hv : t.seenIn visited = false) (hi : u.interfaceOf? t = some i) (rest : List Ty) (found : Table String Signature) :
    u.collect (t :: rest) visited found =
      u.collect (i.embeds ++ rest) (t.asNamed?.toList ++ visited) (addListed found i.methods) := by
  rw [collect, dif_neg (by simp [hv])]
  split
  case h_1 j hj =>
    obtain rfl : j = i := Option.some.inj (hj.symm.trans hi)
    rfl
  case h_2 hj => exact absurd (hj.symm.trans hi) (by simp)

theorem collect_of_interfaceOf?_eq_none {u : Universe} {t : Ty} {visited : List TypeName}
    (hv : t.seenIn visited = false) (hi : u.interfaceOf? t = none) (rest : List Ty) (found : Table String Signature) :
    u.collect (t :: rest) visited found = u.collect rest (t.asNamed?.toList ++ visited) found := by
  rw [collect, dif_neg (by simp [hv])]
  split
  case h_1 j hj => exact absurd (hj.symm.trans hi) (by simp)
  case h_2 => rfl

/-- The methods that an interface asks for, by name. -/
def interfaceMethods (u : Universe) (i : InterfaceType) : Table String Signature :=
  u.collect i.embeds [] (addListed .empty i.methods)

end Universe

end TypeAtlas
