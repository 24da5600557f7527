import TypeAtlas.Proofs.Tables
import TypeAtlas.Universe.InterfaceMethods

/-!
# The methods of an interface are those of the interfaces it reaches

An interface embeds the interfaces behind the types that it lists as embedded, and reaches those that they embed, at any
depth and in any circle.  The collected methods are exactly the ones that some reached interface lists
(`Universe.contains_interfaceMethods_iff`), and each has a signature that is listed for it
(`Universe.listed_of_get?_interfaceMethods`).  Where the interface lists a method itself, its own first signature counts
(`Universe.get?_interfaceMethods_of_find?`).

The search leaves out names that it has visited.  That loses nothing: a visited type has its methods collected, and what
it embeds is visited or still pending (`Universe.Covers`).
-/

namespace TypeAtlas

namespace Universe

/-- Which interfaces an interface reaches through what it embeds, itself included. -/
inductive Reaches (u : Universe) : InterfaceType → InterfaceType → Prop where
  | refl (i : InterfaceType) : Reaches u i i
  | step {i j k : InterfaceType} {t : Ty} : t ∈ i.embeds → u.interfaceOf? t = some j → Reaches u j k → Reaches u i k

/-- One more embedded interface at the end. -/
theorem Reaches.embed {u : Universe} {i j k : InterfaceType} {t : Ty} (h : u.Reaches i j) (ht : t ∈ j.embeds)
    (hk : u.interfaceOf? t = some k) : u.Reaches i k := by
  induction h with
  | refl i => exact .step ht hk (.refl k)
  | step hs hj _ ih => exact .step hs hj (ih ht)

/-- Interfaces that embed one another alone reach no others. -/
theorem Reaches.mem_of_closed {u : Universe} {all : List InterfaceType}
    (hall : ∀ i ∈ all, ∀ t ∈ i.embeds, ∀ j ∈ u.interfaceOf? t, j ∈ all) {i j : InterfaceType} (h : u.Reaches i j)
    (hi : i ∈ all) : j ∈ all := by
  induction h with
  | refl i => exact hi
  | step ht hj _ ih => exact ih (hall _ hi _ ht _ hj)

/-- Whether an interface, or one that it reaches, lists a method of a name with a signature. -/
def Listed (u : Universe) (i : InterfaceType) (name : String) (s : Signature) : Prop :=
  ∃ j, u.Reaches i j ∧ ⟨name, s⟩ ∈ j.methods

/-- Whether an interface, or one that it reaches, lists a method of a name. -/
def Lists (u : Universe) (i : InterfaceType) (name : String) : Prop := ∃ s, u.Listed i name s

theorem get?_addListed (found : Table String Signature) (methods : List MethodSpec) (name : String) :
    (addListed found methods).get? name =
      (found.get? name).or ((methods.find? fun m => decide (m.name = name)).map MethodSpec.signature) :=
  Table.get?_foldl_insertIfNew MethodSpec.name MethodSpec.signature name methods found

theorem listed_or_of_get?_addListed {found : Table String Signature} {methods : List MethodSpec} {name : String}
    {s : Signature} (h : (addListed found methods).get? name = some s) :
    found.get? name = some s ∨ ⟨name, s⟩ ∈ methods := by
  rw [get?_addListed, Option.or_eq_some_iff] at h
  rcases h with h | ⟨-, h⟩
  · exact .inl h
  · obtain ⟨⟨n, q⟩, hm, rfl⟩ := Option.map_eq_some_iff.1 h
    obtain rfl : n = name := by simpa using List.find?_some hm
    exact .inr (List.mem_of_find?_eq_some hm)

theorem contains_addListed {found : Table String Signature} {methods : List MethodSpec} {name : String}
    (h : found.contains name = true ∨ ∃ m ∈ methods, m.name = name) : (addListed found methods).contains name = true := by
  rw [Table.contains, get?_addListed, Option.isSome_or, Bool.or_eq_true]
  rcases h with h | ⟨m, hm, rfl⟩
  · exact .inl h
  · refine .inr ?_
    rw [Option.isSome_map]
    exact List.find?_isSome.2 ⟨m, hm, by simp⟩

/-! ## Nothing else is collected -/

theorem listed_of_get?_collect {u : Universe} {i : InterfaceType} {pending : List Ty} {visited : List TypeName}
    {found : Table String Signature} {name : String} {s : Signature}
    (hp : ∀ t ∈ pending, ∀ j, u.interfaceOf? t = some j → u.Reaches i j)
    (hf : ∀ s, found.get? name = some s → u.Listed i name s)
    (h : (u.collect pending visited found).get? name = some s) : u.Listed i name s := by
  fun_induction u.collect pending visited found with
  | case1 visited found => exact hf s h
  | case2 visited found t rest hv ih => exact ih (fun e he => hp e (List.mem_cons_of_mem t he)) hf h
  | case3 visited found t rest hv j hj ih =>
    have hr : u.Reaches i j := hp t List.mem_cons_self j hj
    refine ih (fun e he k hk => ?_) (fun q hq => ?_) h
    · rcases List.mem_append.1 he with he | he
      · exact hr.embed he hk
      · exact hp e (List.mem_cons_of_mem t he) k hk
    · rcases listed_or_of_get?_addListed hq with hq | hq
      · exact hf q hq
      · exact ⟨j, hr, hq⟩
  | case4 visited found t rest hv hn ih => exact ih (fun e he => hp e (List.mem_cons_of_mem t he)) hf h

/-- **A collected signature is listed by an interface that is reached.** -/
theorem listed_of_get?_interfaceMethods {u : Universe} {i : InterfaceType} {name : String} {s : Signature}
    (h : (u.interfaceMethods i).get? name = some s) : u.Listed i name s := by
  refine listed_of_get?_collect (fun t ht j hj => (Reaches.refl i).embed ht hj) (fun q hq => ?_) h
  rcases listed_or_of_get?_addListed hq with hq | hq
  · cases hq
  · exact ⟨i, .refl i, hq⟩

/-! ## Nothing is left out -/

/-- The types `done` were visited: their methods are found, and what they embed was visited too or is pending. -/
def Covers (u : Universe) (done pending : List Ty) (found : Table String Signature) : Prop :=
  ∀ t ∈ done, ∀ j, u.interfaceOf? t = some j →
    (∀ m ∈ j.methods, found.contains m.name = true) ∧ ∀ e ∈ j.embeds, e ∈ done ∨ e ∈ pending

/-- A covered type without pending ones has the methods of everything that it reaches. -/
theorem Covers.contains {u : Universe} {done : List Ty} {found : Table String Signature} (h : u.Covers done [] found)
    {i j : InterfaceType} (hr : u.Reaches i j) :
    (∀ m ∈ i.methods, found.contains m.name = true) → (∀ e ∈ i.embeds, e ∈ done) →
      ∀ m ∈ j.methods, found.contains m.name = true := by
  induction hr with
  | refl i => exact fun hm _ => hm
  | step ht hj _ ih =>
    intro _ he
    obtain ⟨hm, he⟩ := h _ (he _ ht) _ hj
    exact ih hm fun e hmem => (he e hmem).resolve_right List.not_mem_nil

/-- What was done or pending still is, when one pending type is visited and others come up. -/
theorem done_or_pending_of_visit {done rest : List Ty} {t e : Ty} (more : List Ty) (h : e ∈ done ∨ e ∈ t :: rest) :
    e ∈ t :: done ∨ e ∈ more ++ rest := by
  rcases h with h | h
  · exact .inl (List.mem_cons_of_mem t h)
  · rcases List.mem_cons.1 h with rfl | h
    · exact .inl List.mem_cons_self
    · exact .inr (List.mem_append_right more h)

/-- Visiting a pending type: its methods are found, and what it embeds becomes pending. -/
theorem Covers.visit {u : Universe} {done rest more : List Ty} {t : Ty} {found next : Table String Signature}
    (h : u.Covers done (t :: rest) found) (hmono : ∀ name, found.contains name = true → next.contains name = true)
    (ht : ∀ j, u.interfaceOf? t = some j → (∀ m ∈ j.methods, next.contains m.name = true) ∧ j.embeds = more) :
    u.Covers (t :: done) (more ++ rest) next := by
  intro e he j hj
  rcases List.mem_cons.1 he with rfl | he
  · obtain ⟨hm, rfl⟩ := ht j hj
    exact ⟨hm, fun x hx => .inr (List.mem_append_left rest hx)⟩
  · obtain ⟨hm, hx⟩ := h e he j hj
    exact ⟨fun m hmem => hmono m.name (hm m hmem), fun x hmem => done_or_pending_of_visit more (hx x hmem)⟩

theorem named_mem_of_visit {done : List Ty} {visited : List TypeName} (hv : ∀ n ∈ visited, Ty.named n ∈ done) (t : Ty) :
    ∀ n ∈ t.asNamed?.toList ++ visited, Ty.named n ∈ t :: done := by
  intro n hn
  rcases List.mem_append.1 hn with hn | hn
  · rw [← Ty.eq_named_of_asNamed? (Option.mem_toList.1 hn)]
    exact List.mem_cons_self
  · exact List.mem_cons_of_mem t (hv n hn)

/-- **The search ends with everything covered.** -/
theorem covers_collect {u : Universe} {pending : List Ty} {visited : List TypeName} {found : Table String Signature}
    {done : List Ty} (hv : ∀ n ∈ visited, Ty.named n ∈ done) (hd : u.Covers done pending found) :
    ∃ all, (∀ t, t ∈ done ∨ t ∈ pending → t ∈ all) ∧ u.Covers all [] (u.collect pending visited found) ∧
      ∀ name, found.contains name = true → (u.collect pending visited found).contains name = true := by
  fun_induction u.collect pending visited found generalizing done with
  | case1 visited found =>
    exact ⟨done, fun t ht => ht.resolve_right List.not_mem_nil, hd, fun _ h => h⟩
  | case2 visited found t rest hs ih =>
    -- A visited name is done already.
    have ht : t ∈ done := by
      cases hn : t.asNamed? with
      | none => simp [Ty.seenIn, hn] at hs
      | some n =>
        rw [Ty.eq_named_of_asNamed? hn]
        exact hv n (by simpa [Ty.seenIn, hn] using hs)
    have hrest : ∀ e, e ∈ done ∨ e ∈ t :: rest → e ∈ done ∨ e ∈ rest := by
      rintro e (he | he)
      · exact .inl he
      · rcases List.mem_cons.1 he with rfl | he
        · exact .inl ht
        · exact .inr he
    obtain ⟨all, hall, hcov, hmono⟩ := ih hv fun e he j hj =>
      ⟨(hd e he j hj).1, fun x hx => hrest x ((hd e he j hj).2 x hx)⟩
    exact ⟨all, fun e he => hall e (hrest e he), hcov, hmono⟩
  | case3 visited found t rest hs i hi ih =>
    have hlisted : ∀ name, found.contains name = true → (addListed found i.methods).contains name = true :=
      fun name h => contains_addListed (.inl h)
    have hcov : u.Covers (t :: done) (i.embeds ++ rest) (addListed found i.methods) := by
      refine hd.visit hlisted fun j hj => ?_
      obtain rfl : i = j := Option.some.inj (hi.symm.trans hj)
      exact ⟨fun m hm => contains_addListed (.inr ⟨m, hm, rfl⟩), rfl⟩
    obtain ⟨all, hall, hcov, hmono⟩ := ih (named_mem_of_visit hv t) hcov
    exact ⟨all, fun e he => hall e (done_or_pending_of_visit i.embeds he), hcov,
      fun name h => hmono name (hlisted name h)⟩
  | case4 visited found t rest hs hn ih =>
    have hcov : u.Covers (t :: done) ([] ++ rest) found :=
      hd.visit (fun _ h => h) fun j hj => by rw [hn] at hj; cases hj
    obtain ⟨all, hall, hcov, hmono⟩ := ih (named_mem_of_visit hv t) hcov
    exact ⟨all, fun e he => hall e (done_or_pending_of_visit [] he), hcov, hmono⟩

/-- **An interface asks for exactly the methods that it, or an interface it reaches, lists.** -/
theorem contains_interfaceMethods_iff {u : Universe} {i : InterfaceType} {name : String} :
    (u.interfaceMethods i).contains name = true ↔ u.Lists i name := by
  constructor
  · intro h
    obtain ⟨s, hs⟩ := Option.isSome_iff_exists.1 h
    exact ⟨s, listed_of_get?_interfaceMethods hs⟩
  · rintro ⟨s, j, hr, hm⟩
    have hstart : u.Covers [] i.embeds (addListed .empty i.methods) := fun t ht => absurd ht List.not_mem_nil
    have hvisited : ∀ n ∈ ([] : List TypeName), Ty.named n ∈ ([] : List Ty) := fun n hn => absurd hn List.not_mem_nil
    obtain ⟨all, hall, hcov, hmono⟩ := covers_collect hvisited hstart
    exact hcov.contains hr (fun m hm => hmono m.name (contains_addListed (.inr ⟨m, hm, rfl⟩)))
      (fun e he => hall e (.inr he)) ⟨name, s⟩ hm

/-! ## The flattened list -/

/-- **A method that was found keeps its signature.** -/
theorem get?_collect_of_get? {u : Universe} {pending : List Ty} {visited : List TypeName}
    {found : Table String Signature} {name : String} {s : Signature} (h : found.get? name = some s) :
    (u.collect pending visited found).get? name = some s := by
  fun_induction u.collect pending visited found with
  | case1 visited found => exact h
  | case2 visited found t rest hv ih => exact ih h
  | case3 visited found t rest hv j hj ih => exact ih (by rw [get?_addListed, h, Option.some_or])
  | case4 visited found t rest hv hn ih => exact ih h

/-- What an interface lists itself comes before everything that it embeds. -/
theorem get?_interfaceMethods_of_find? {u : Universe} {i : InterfaceType} {name : String} {m : MethodSpec}
    (h : i.methods.find? (fun m => decide (m.name = name)) = some m) :
    (u.interfaceMethods i).get? name = some m.signature := by
  refine get?_collect_of_get? ?_
  rw [get?_addListed, h]
  rfl

/-- `methods` is the flattened form of an interface: in order of the names, with every name that the interface or one
that it reaches lists and no other, each with a signature listed for it, and with the first one of its own where the
interface has one. -/
structure Flattens (u : Universe) (i : InterfaceType) (methods : List (String × Signature)) : Prop where
  increasing : methods.Pairwise fun a b => a.1 < b.1
  named_iff : ∀ name, (∃ s, (name, s) ∈ methods) ↔ u.Lists i name
  listed : ∀ name s, (name, s) ∈ methods → u.Listed i name s
  own : ∀ name m, i.methods.find? (fun m => decide (m.name = name)) = some m → (name, m.signature) ∈ methods

/-- **The methods that an interface asks for are its flattened form**, in any universe and through any circle of
interfaces that embed one another. -/
theorem flattens_interfaceMethods (u : Universe) (i : InterfaceType) : u.Flattens i (u.interfaceMethods i).entries where
  increasing := (u.interfaceMethods i).sorted.imp fun h => compareOfLessAndEq_eq_lt.1 h
  named_iff name := by
    rw [← contains_interfaceMethods_iff, Table.contains, Option.isSome_iff_exists]
    exact exists_congr fun s => Table.mem_entries_iff
  listed name s h := listed_of_get?_interfaceMethods (Table.mem_entries_iff.1 h)
  own name m h := Table.mem_entries_iff.2 (get?_interfaceMethods_of_find? h)

end Universe

end TypeAtlas
