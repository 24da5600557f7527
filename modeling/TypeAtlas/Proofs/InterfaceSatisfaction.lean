import TypeAtlas.Proofs.SelectorRule
import TypeAtlas.Proofs.TypeIdentity
import TypeAtlas.Universe.Satisfaction

/-!
# Which interfaces a type satisfies

A type satisfies an interface if it provides every method that is asked for (`Universe.implements_iff`).  What is asked
for counts only up to identity: identical signatures cannot be told apart, so neither can interfaces that ask for
identical methods.

* Identical interfaces miss the same method, if any (`Universe.missingMethod_of_identical`).
* A defined interface type provides what its interface asks for (`Universe.get?_methodSet_of_interface`), so satisfaction
  is transitive through it (`Universe.implements_through`).
* Embedding an interface asks for its methods besides the others (`Universe.listed_withEmbed_iff`), so it is satisfied
  together with it (`Universe.implements_withEmbed_iff`).

Looking for a missing method compares signatures one after the other, and ends if these comparisons do
(`Universe.SearchEnds`).
-/

namespace TypeAtlas

namespace Universe

variable {u : Universe}

/-! ## What is provided -/

theorem provides_iff {available : MethodSet} {name : String} {sig : Signature} :
    u.provides available (name, sig) = true ↔
      ∃ s, available.get? name = some s ∧ u.identicalSignatures s.signature sig = true := by
  unfold provides
  cases available.get? name <;> simp

theorem implements_iff_provides {t : Ty} {i : InterfaceType} :
    u.implements t i = true ↔ ∀ m ∈ (u.interfaceMethods i).entries, u.provides (u.methodSet t) m = true := by
  unfold implements missingMethod
  rw [Option.isNone_map, Option.isNone_iff_eq_none, List.find?_eq_none]
  simp

/-- A type satisfies an interface if it has every method that is asked for. -/
theorem implements_iff {t : Ty} {i : InterfaceType} :
    u.implements t i = true ↔ ∀ name sig, (u.interfaceMethods i).get? name = some sig →
      ∃ s, (u.methodSet t).get? name = some s ∧ u.identicalSignatures s.signature sig = true := by
  rw [implements_iff_provides]
  constructor
  · exact fun h name sig hsig => provides_iff.1 (h (name, sig) (Table.mem_entries_iff.2 hsig))
  · rintro h ⟨name, sig⟩ hm
    exact provides_iff.2 (h name sig (Table.mem_entries_iff.1 hm))

theorem get?_interfaceMethods_iff_lists {i : InterfaceType} {name : String} :
    (∃ sig, (u.interfaceMethods i).get? name = some sig) ↔ u.Lists i name := by
  rw [← contains_interfaceMethods_iff, Table.contains, Option.isSome_iff_exists]

/-! ## The search for a missing method -/

/-- The first method of a list that is missing, given identity of types. -/
def firstMissing (same : Ty → Ty → Option Bool) (available : MethodSet) :
    List (String × Signature) → Option (Option String)
  | [] => some none
  | m :: ms =>
    match available.get? m.1 with
    | some found => do
      if ← found.signature.identicalBy same m.2 then firstMissing same available ms else return some m.1
    | none => some (some m.1)

/-- The first missing method, found with comparisons that are at most `depth` deep. -/
def missingWithin (u : Universe) (depth : Nat) (t : Ty) (i : InterfaceType) : Option (Option String) :=
  firstMissing (u.identicalWithin depth) (u.methodSet t) (u.interfaceMethods i).entries

/-- Whether the search for a missing method ends: every comparison that it makes does. -/
def SearchEnds (u : Universe) (t : Ty) (i : InterfaceType) : Prop := ∃ depth r, u.missingWithin depth t i = some r

theorem firstMissing_cons {same : Ty → Ty → Option Bool} {available : MethodSet} {m : String × Signature} {s : Selection}
    (hs : available.get? m.1 = some s) (hid : s.signature.identicalBy same m.2 = some true)
    (ms : List (String × Signature)) : firstMissing same available (m :: ms) = firstMissing same available ms := by
  simp [firstMissing, hs, hid]

theorem firstMissing_eq {depth : Nat} {available : MethodSet} {ms : List (String × Signature)} {r : Option String}
    (h : firstMissing (u.identicalWithin depth) available ms = some r) :
    (ms.find? fun m => !u.provides available m).map Prod.fst = r := by
  induction ms with
  | nil => exact Option.some.inj h
  | cons m ms ih =>
    rw [firstMissing] at h
    split at h
    case h_1 found hfound =>
      obtain ⟨b, hb, h⟩ := Option.bind_eq_some_iff.1 h
      have hprovides : u.provides available m = b := by
        rw [provides, hfound]
        exact identicalSignatures_eq hb
      cases b with
      | true =>
        rw [List.find?_cons_of_neg (by simp [hprovides])]
        exact ih h
      | false =>
        rw [List.find?_cons_of_pos (by simp [hprovides])]
        exact Option.some.inj h
    case h_2 hnone =>
      have hprovides : u.provides available m = false := by rw [provides, hnone]
      rw [List.find?_cons_of_pos (by simp [hprovides])]
      exact Option.some.inj h

/-- **A search that ends finds the first missing method.** -/
theorem missingMethod_eq {depth : Nat} {t : Ty} {i : InterfaceType} {r : Option String}
    (h : u.missingWithin depth t i = some r) : u.missingMethod t i = r :=
  firstMissing_eq h

/-! ## Identical interfaces -/

/-- Whether two methods have one name and identical signatures. -/
def SameMethod (u : Universe) (m n : String × Signature) : Prop := m.1 = n.1 ∧ u.identicalSignatures m.2 n.2 = true

/-- **Identical interfaces ask for the same methods,** one by one. -/
theorem sameMethods_of_identical {x y : InterfaceType} (h : u.identical (.interface x) (.interface y) = true) :
    List.Forall₂ u.SameMethod (u.interfaceMethods x).entries (u.interfaceMethods y).entries := by
  obtain ⟨depth, h⟩ := identical_iff.1 h
  cases depth with
  | zero => cases h
  | succ depth =>
    rw [identicalWithin, agree] at h
    split at h
    case isFalse => cases h
    case isTrue =>
      refine (forall₂_of_agreeItems h).imp fun m n hmn => ?_
      rw [Signature.identicalNamed] at hmn
      split at hmn
      case isTrue hname => exact ⟨hname, identicalSignatures_eq hmn⟩
      case isFalse => cases hmn

theorem SameMethod.provides_eq {m n : String × Signature} (h : u.SameMethod m n) (available : MethodSet) :
    u.provides available m = u.provides available n := by
  obtain ⟨hname, hsig⟩ := h
  rw [provides, provides, hname]
  split
  case h_1 found _ => exact identicalSignatures_congr hsig found.signature
  case h_2 => rfl

variable {ms ns : List (String × Signature)}

theorem find?_provides_congr (h : List.Forall₂ u.SameMethod ms ns) (available : MethodSet) :
    (ms.find? fun m => !u.provides available m).map Prod.fst =
      (ns.find? fun n => !u.provides available n).map Prod.fst := by
  induction h with
  | nil => rfl
  | cons hmn _ ih =>
    rw [List.find?_cons, List.find?_cons, hmn.provides_eq available]
    split
    case h_1 => exact congrArg some hmn.1
    case h_2 => exact ih

theorem firstMissing_congr (h : List.Forall₂ u.SameMethod ms ns) (depth : Nat) (available : MethodSet) :
    firstMissing (u.identicalWithin depth) available ms = firstMissing (u.identicalWithin depth) available ns := by
  induction h with
  | nil => rfl
  | cons hmn _ ih =>
    obtain ⟨hname, hsig⟩ := hmn
    obtain ⟨e, he⟩ := identicalSignatures_iff.1 hsig
    rw [firstMissing, firstMissing, hname, ih]
    split
    case h_1 found _ => rw [identicalBy_congr he depth found.signature]
    case h_2 => rfl

/-- **Identical interfaces are satisfied alike.**  The same method is missing in both, however they divide their methods
between their own and those of what they embed.  The searches for it come out alike at every depth, so they end for both
or for none. -/
theorem missingMethod_of_identical {x y : InterfaceType} (h : u.identical (.interface x) (.interface y) = true) (t : Ty) :
    u.missingMethod t x = u.missingMethod t y ∧ ∀ depth, u.missingWithin depth t x = u.missingWithin depth t y :=
  ⟨find?_provides_congr (sameMethods_of_identical h) (u.methodSet t),
    fun depth => firstMissing_congr (sameMethods_of_identical h) depth (u.methodSet t)⟩

/-- Without a pointer, `File` lacks one method of either interface. -/
theorem file_lacks_write :
    streams.identical (.interface listsBoth) (.interface embedsBoth) = true ∧
      streams.missingMethod (.named ⟨"p", "File"⟩) listsBoth = some "Write" ∧
      streams.missingMethod (.named ⟨"p", "File"⟩) embedsBoth = some "Write" := by
  have hsame := streams_identical interfaceMethods_listsBoth interfaceMethods_embedsBoth
  have hmissing : streams.missingMethod (.named ⟨"p", "File"⟩) listsBoth = some "Write" := by
    have hdone : ReachedType.advance streams (ReachedType.fresh [] [⟨.named ⟨"p", "File"⟩, false, false⟩]) = [] := by
      rfl
    rw [missingMethod, interfaceMethods_listsBoth, methodSet, if_neg (by decide), search]
    dsimp only [Ty.deref, Ty.isPointer]
    rw [hdone, search]
    rfl
  refine ⟨hsame, hmissing, ?_⟩
  rw [← (missingMethod_of_identical hsame _).1, hmissing]

/-! ## Interface types as providers -/

/-- **A defined type that stands for an interface has the methods that the interface asks for,** if none are declared on
it. -/
theorem get?_methodSet_of_interface {k : TypeName} {x : InterfaceType} (hx : u.underlying (.named k) = .interface x)
    (hk : u.declaredOn k = []) (name : String) :
    (u.methodSet (.named k)).get? name =
      ((u.interfaceMethods x).get? name).map fun s => ⟨name, s, some k, false, 0⟩ := by
  have hfields : ReachedType.fields u ⟨.named k, false, false⟩ = [] := by
    simp [ReachedType.fields, hx, Ty.asStruct?]
  have hlevel : Level.ofEmbeddings u 0 [⟨.named k, false, false⟩] =
      ⟨(u.interfaceMethods x).entries.map fun m => ⟨⟨m.1, m.2, some k, false, 0⟩, true⟩, []⟩ := by
    simp [Level.ofEmbeddings, ReachedType.declared, ReachedType.required, interfaceOf?, hx, hk, hfields, Ty.asNamed?,
      Ty.asInterface?]
  have hdone : ReachedType.advance u [⟨.named k, false, false⟩] = [] := by
    simp [ReachedType.advance, ReachedType.embedded, hfields, ReachedType.mergeEqual, ReachedType.keepFirst]
  have hfresh : ReachedType.fresh [] [⟨.named k, false, false⟩] = [⟨.named k, false, false⟩] := rfl
  have hfilter : (u.interfaceMethods x).entries.filter ((fun c : Candidate => c.selection.name == name) ∘
      fun m => ⟨⟨m.1, m.2, some k, false, 0⟩, true⟩) =
        (((u.interfaceMethods x).get? name).map fun s => (name, s)).toList := Table.filter_entries _ name
  -- An interface has no fields, so the search ends after the first round.
  rw [methodSet, if_neg (by simp [Ty.isPointer]), search]
  dsimp only [Ty.deref, Ty.isPointer]
  rw [hfresh, hdone, search, hlevel, Table.get?_filterMap, Level.bind_get?_addTo_empty, Level.settle, if_neg List.not_mem_nil,
    List.filter_map, hfilter]
  cases (u.interfaceMethods x).get? name <;> rfl

/-- A search that finds every method with the very signature that is asked for ends without a missing one. -/
theorem eq_none_of_firstMissing {depth : Nat} {available : MethodSet} {ms : List (String × Signature)} {r : Option String}
    (hms : ∀ m ∈ ms, ∃ s, available.get? m.1 = some s ∧ s.signature = m.2)
    (h : firstMissing (u.identicalWithin depth) available ms = some r) : r = none := by
  induction ms with
  | nil => exact (Option.some.inj h).symm
  | cons m ms ih =>
    obtain ⟨s, hs, hsig⟩ := hms m List.mem_cons_self
    simp only [firstMissing, hs, hsig] at h
    obtain ⟨b, hb, h⟩ := Option.bind_eq_some_iff.1 h
    obtain rfl := identicalBy_self hb
    exact ih (fun n hn => hms n (List.mem_cons_of_mem m hn)) h

/-- **Satisfaction is transitive through interface types.**  Let a defined type without declared methods stand for an
interface.  A type that satisfies the interface satisfies everything that the defined type satisfies.  The defined type
satisfies the interface itself, if the search for a missing method ends. -/
theorem implements_through {k : TypeName} {x : InterfaceType} (hx : u.underlying (.named k) = .interface x)
    (hk : u.declaredOn k = []) :
    (∀ t y, u.implements t x = true → u.implements (.named k) y = true → u.implements t y = true) ∧
      (u.SearchEnds (.named k) x → u.implements (.named k) x = true) := by
  constructor
  · intro t y htx hky
    rw [implements_iff] at htx hky ⊢
    intro name sig hsig
    obtain ⟨s, hs, hid⟩ := hky name sig hsig
    rw [get?_methodSet_of_interface hx hk] at hs
    obtain ⟨asked, hasked, rfl⟩ := Option.map_eq_some_iff.1 hs
    obtain ⟨found, hfound, hsame⟩ := htx name asked hasked
    exact ⟨found, hfound, identicalSignatures_congr hid found.signature ▸ hsame⟩
  · rintro ⟨depth, r, hr⟩
    have hnone : r = none := by
      refine eq_none_of_firstMissing (fun m hm => ?_) hr
      rw [get?_methodSet_of_interface hx hk, Table.mem_entries_iff.1 hm]
      exact ⟨_, rfl, rfl⟩
    rw [implements, missingMethod_eq hr, hnone]
    rfl

theorem underlying_copier : streams.underlying (.named ⟨"p", "Copier"⟩) = .interface copier := rfl

theorem streams_copier : streams.interfaceOf? (.named ⟨"p", "Copier"⟩) = some copier := by
  rw [interfaceOf?, underlying_copier]
  rfl

/-- What a copier embeds, when it is visited itself already. -/
theorem collect_copier (rest : List Ty) (found : Table String Signature) :
    streams.collect (copier.embeds ++ rest) [⟨"p", "Copier"⟩] found =
      streams.collect rest [⟨"p", "Writer"⟩, ⟨"p", "Reader"⟩, ⟨"p", "Copier"⟩]
        (addListed (addListed found [⟨"Read", reading⟩]) [⟨"Write", writing⟩]) := by
  rw [copier, List.cons_append, collect_of_seen rfl, List.cons_append, collect_of_interfaceOf? rfl streams_reader,
    List.nil_append, List.cons_append, collect_of_interfaceOf? rfl streams_writer, List.nil_append, List.nil_append]
  rfl

theorem interfaceMethods_copier : streams.interfaceMethods copier =
    .ofList [("Copy", copying embedsBoth), ("Read", reading), ("Write", writing)] := by
  have hembeds : copier.embeds = .named ⟨"p", "Copier"⟩ :: [.named ⟨"p", "Reader"⟩, .named ⟨"p", "Writer"⟩] := rfl
  rw [interfaceMethods, hembeds, collect_of_interfaceOf? rfl streams_copier]
  show streams.collect _ [⟨"p", "Copier"⟩] _ = _
  rw [collect_copier, collect_of_seen rfl, collect_of_seen rfl, collect_nil]
  rfl

theorem entries_copier : (streams.interfaceMethods copier).entries =
    [("Copy", copying embedsBoth), ("Read", reading), ("Write", writing)] := by
  rw [interfaceMethods_copier]
  rfl

theorem streams_copying {i j : InterfaceType}
    (hi : streams.interfaceMethods i = .ofList [("Read", reading), ("Write", writing)])
    (hj : streams.interfaceMethods j = .ofList [("Read", reading), ("Write", writing)]) :
    streams.identicalSignatures (copying i) (copying j) = true := by
  obtain ⟨depth, h⟩ := identical_iff.1 (streams_identical hi hj)
  exact identicalSignatures_iff.2 ⟨depth, by simp [copying, Signature.identicalBy, agreeItems, h]⟩

/-- A pointer to `File` satisfies what asks for reading, writing and copying. -/
theorem file_implements {i j : InterfaceType}
    (hi : (streams.interfaceMethods i).entries = [("Copy", copying j), ("Read", reading), ("Write", writing)])
    (hj : streams.interfaceMethods j = .ofList [("Read", reading), ("Write", writing)]) :
    streams.implements (.pointer (.named ⟨"p", "File"⟩)) i = true := by
  have hdone : ReachedType.advance streams (ReachedType.fresh [] [⟨.named ⟨"p", "File"⟩, true, false⟩]) = [] := by
    rfl
  have hmethods : streams.methodSet (.pointer (.named ⟨"p", "File"⟩)) =
      .ofList [("Copy", ⟨"Copy", copying listsBoth, some ⟨"p", "File"⟩, false, 0⟩),
        ("Read", ⟨"Read", reading, some ⟨"p", "File"⟩, false, 0⟩),
        ("Write", ⟨"Write", writing, some ⟨"p", "File"⟩, true, 0⟩)] := by
    rw [methodSet, if_neg (by decide), search]
    dsimp only [Ty.deref, Ty.isPointer]
    rw [hdone, search]
    rfl
  rw [implements_iff_provides, hi, hmethods, List.forall_mem_cons, List.forall_mem_cons, List.forall_mem_singleton]
  refine ⟨provides_iff.2 ⟨_, rfl, streams_copying interfaceMethods_listsBoth hj⟩, ?_, ?_⟩
  · rfl
  · rfl

/-- A copier has the methods that it asks for. -/
theorem get?_methodSet_copier (name : String) : (streams.methodSet (.named ⟨"p", "Copier"⟩)).get? name =
    ((streams.interfaceMethods copier).get? name).map fun s => ⟨name, s, some ⟨"p", "Copier"⟩, false, 0⟩ :=
  get?_methodSet_of_interface underlying_copier rfl name

theorem searchEnds_copier : streams.SearchEnds (.named ⟨"p", "Copier"⟩) copier := by
  have hfound : ∀ m ∈ [("Copy", copying embedsBoth), ("Read", reading), ("Write", writing)],
      (streams.methodSet (.named ⟨"p", "Copier"⟩)).get? m.1 = some ⟨m.1, m.2, some ⟨"p", "Copier"⟩, false, 0⟩ := by
    intro m hm
    rw [get?_methodSet_copier, Table.mem_entries_iff.1 (entries_copier ▸ hm)]
    rfl
  have hboth : streams.identicalWithin 2 (.interface embedsBoth) (.interface embedsBoth) = some true := by
    rw [identicalWithin, interfaceMethods_embedsBoth]
    rfl
  have hcopy : (copying embedsBoth).identicalBy (streams.identicalWithin 2) (copying embedsBoth) = some true := by
    simp [copying, Signature.identicalBy, agreeItems, hboth]
  refine ⟨2, none, ?_⟩
  rw [missingWithin, entries_copier, firstMissing_cons (hfound ("Copy", copying embedsBoth) (by simp)) hcopy,
    firstMissing_cons (hfound ("Read", reading) (by simp)) rfl,
    firstMissing_cons (hfound ("Write", writing) (by simp)) rfl]
  rfl

/-- A pointer to `File` satisfies what a copier satisfies, and a copier satisfies its own interface. -/
theorem copier_between :
    streams.implements (.pointer (.named ⟨"p", "File"⟩)) copier = true ∧
      streams.implements (.named ⟨"p", "Copier"⟩) embedsReader = true ∧
      streams.implements (.pointer (.named ⟨"p", "File"⟩)) embedsReader = true ∧
      streams.implements (.named ⟨"p", "Copier"⟩) copier = true := by
  have hk : streams.declaredOn ⟨"p", "Copier"⟩ = [] := rfl
  obtain ⟨htrans, hself⟩ := implements_through underlying_copier hk
  have hfile := file_implements entries_copier interfaceMethods_embedsBoth
  have hreader : streams.implements (.named ⟨"p", "Copier"⟩) embedsReader = true := by
    rw [implements_iff_provides, interfaceMethods_embedsReader]
    show ∀ m ∈ [("Read", reading), ("Write", writing)], _
    rw [List.forall_mem_cons, List.forall_mem_singleton, provides_iff, provides_iff, get?_methodSet_copier,
      get?_methodSet_copier, interfaceMethods_copier]
    exact ⟨⟨_, rfl, rfl⟩, _, rfl, rfl⟩
  exact ⟨hfile, hreader, htrans _ _ hfile hreader, hself searchEnds_copier⟩

/-! ## Embedding one more interface -/

/-- **An interface with one more embedded type lists what it listed before and what the interface behind that type
lists.** -/
theorem listed_withEmbed_iff {i x : InterfaceType} {e : Ty} (he : u.interfaceOf? e = some x) {name : String}
    {s : Signature} : u.Listed (i.withEmbed e) name s ↔ u.Listed i name s ∨ u.Listed x name s := by
  constructor
  · rintro ⟨j, hr, hs⟩
    cases hr with
    | refl => exact .inl ⟨i, .refl i, hs⟩
    | step ht hj hr =>
      rcases List.mem_append.1 ht with ht | ht
      · exact .inl ⟨j, .step ht hj hr, hs⟩
      · obtain rfl : x = _ := Option.some.inj (he.symm.trans (List.mem_singleton.1 ht ▸ hj))
        exact .inr ⟨j, hr, hs⟩
  · rintro (⟨j, hr, hs⟩ | ⟨j, hr, hs⟩)
    · cases hr with
      | refl => exact ⟨i.withEmbed e, .refl _, hs⟩
      | step ht hj hr => exact ⟨j, .step (List.mem_append_left _ ht) hj hr, hs⟩
    · exact ⟨j, .step (List.mem_append_right _ List.mem_cons_self) he hr, hs⟩

/-- Whether signatures that are listed for one name are identical. -/
def ListingsAgree (u : Universe) (listed : String → Signature → Prop) : Prop :=
  ∀ name s t, listed name s → listed name t → s = t ∨ u.identicalSignatures s t = true

/-- **Where the listings agree, it does not matter which of them counts:** a type satisfies an interface if it provides
every method that is listed. -/
theorem ListingsAgree.implements_iff {listed : String → Signature → Prop} (h : u.ListingsAgree listed) {i : InterfaceType}
    (hi : ∀ name s, u.Listed i name s → listed name s) (t : Ty) :
    u.implements t i = true ↔ ∀ name s, u.Listed i name s → u.provides (u.methodSet t) (name, s) = true := by
  rw [implements_iff_provides]
  constructor
  · intro hall name s hs
    obtain ⟨asked, hasked⟩ := get?_interfaceMethods_iff_lists.2 ⟨s, hs⟩
    have hprovides := hall (name, asked) (Table.mem_entries_iff.2 hasked)
    rcases h name asked s (hi name asked (listed_of_get?_interfaceMethods hasked)) (hi name s hs) with rfl | hsame
    · exact hprovides
    · have hmethod : u.SameMethod (name, asked) (name, s) := ⟨rfl, hsame⟩
      rwa [← hmethod.provides_eq]
  · rintro hall ⟨name, asked⟩ hm
    exact hall name asked (listed_of_get?_interfaceMethods (Table.mem_entries_iff.1 hm))

/-- **Embedding an interface means requiring both.**  If signatures that two interfaces, or interfaces that they reach,
list for one name are identical, a type satisfies the first with the second embedded exactly if it satisfies both.  The
embedded type may be reached from either of them already. -/
theorem implements_withEmbed_iff {i x : InterfaceType} {e : Ty} (he : u.underlying e = .interface x)
    (h : u.ListingsAgree fun name s => u.Listed i name s ∨ u.Listed x name s) (t : Ty) :
    u.implements t (i.withEmbed e) = true ↔ u.implements t i = true ∧ u.implements t x = true := by
  have hlisted : ∀ name s, u.Listed (i.withEmbed e) name s ↔ u.Listed i name s ∨ u.Listed x name s :=
    fun name s => listed_withEmbed_iff (by rw [interfaceOf?, he]; rfl)
  rw [h.implements_iff (fun name s => (hlisted name s).1), h.implements_iff (fun _ _ => .inl),
    h.implements_iff (fun _ _ => .inr)]
  simp only [hlisted, or_imp, forall_and]

/-- Asks for copying, described in another way than a copier does, and embeds a copier. -/
def sink : InterfaceType := ⟨[⟨"Copy", copying listsBoth⟩], [.named ⟨"p", "Copier"⟩]⟩

theorem entries_sink : (streams.interfaceMethods sink).entries =
    [("Copy", copying listsBoth), ("Read", reading), ("Write", writing)] := by
  have hembeds : sink.embeds = [.named ⟨"p", "Copier"⟩] := rfl
  rw [interfaceMethods, hembeds, collect_of_interfaceOf? rfl streams_copier]
  show (streams.collect _ [⟨"p", "Copier"⟩] _).entries = _
  rw [collect_copier, collect_nil]
  rfl

/-- The interfaces that a sink or a copier reaches. -/
def sinkInterfaces : List InterfaceType := [sink, copier, ⟨[⟨"Read", reading⟩], []⟩, ⟨[⟨"Write", writing⟩], []⟩]

/-- What these interfaces list: copying is described in two ways. -/
def sinkMethods : List (String × Signature) :=
  [("Copy", copying listsBoth), ("Copy", copying embedsBoth), ("Read", reading), ("Write", writing)]

theorem mem_sinkMethods {i : InterfaceType} (hi : i ∈ sinkInterfaces) {name : String} {s : Signature}
    (h : streams.Listed i name s) : (name, s) ∈ sinkMethods := by
  have hmethods : ∀ j ∈ sinkInterfaces, ∀ m ∈ j.methods, (m.name, m.signature) ∈ sinkMethods := by decide +kernel
  obtain ⟨j, hr, hs⟩ := h
  exact hmethods j (hr.mem_of_closed (by decide +kernel) hi) ⟨name, s⟩ hs

theorem listingsAgree_sink :
    streams.ListingsAgree fun name s => streams.Listed sink name s ∨ streams.Listed copier name s := by
  have hlisted : ∀ {name s}, streams.Listed sink name s ∨ streams.Listed copier name s → (name, s) ∈ sinkMethods := by
    rintro name s (h | h)
    · exact mem_sinkMethods (by simp [sinkInterfaces]) h
    · exact mem_sinkMethods (by simp [sinkInterfaces]) h
  have hsame : ∀ m ∈ sinkMethods, ∀ n ∈ sinkMethods, m.1 = n.1 → m.2 = n.2 ∨
      (m.2 = copying listsBoth ∧ n.2 = copying embedsBoth) ∨
        (m.2 = copying embedsBoth ∧ n.2 = copying listsBoth) := by decide +kernel
  intro name s t hs ht
  rcases hsame _ (hlisted hs) _ (hlisted ht) rfl with h | ⟨rfl, rfl⟩ | ⟨rfl, rfl⟩
  · exact .inl h
  · exact .inr (streams_copying interfaceMethods_listsBoth interfaceMethods_embedsBoth)
  · exact .inr (streams_copying interfaceMethods_embedsBoth interfaceMethods_listsBoth)

/-- A pointer to `File` satisfies a sink with one more copier embedded, though the copier is reached anyway and copying is
described in two ways. -/
theorem file_implements_sink :
    streams.implements (.pointer (.named ⟨"p", "File"⟩)) sink = true ∧
      streams.implements (.pointer (.named ⟨"p", "File"⟩)) copier = true ∧
      streams.implements (.pointer (.named ⟨"p", "File"⟩)) (sink.withEmbed (.named ⟨"p", "Copier"⟩)) = true := by
  have hsink := file_implements entries_sink interfaceMethods_listsBoth
  have hcopier := file_implements entries_copier interfaceMethods_embedsBoth
  exact ⟨hsink, hcopier, (implements_withEmbed_iff underlying_copier listingsAgree_sink _).2 ⟨hsink, hcopier⟩⟩

end Universe

end TypeAtlas
