import TypeAtlas.Proofs.Locality
import TypeAtlas.Universe.MethodSet

/-!
# What the search for methods looks at

To find the methods of a type, one goes from types to what the structs and interfaces behind them embed.  Of the universe this
takes the methods declared on the types that are met, and the struct or interface behind each of them, and nothing else.  So
two universes that have these in common find the same methods (`Universe.Resembles.methodSet_eq`,
`Universe.Resembles.interfaceMethods_eq`).  The least such set of types is the one that the search meets (`Universe.Meets`).
-/

namespace TypeAtlas

/-- Merging equal types leaves types that were there. -/
theorem ReachedType.exists_of_mem_keepFirst {e : ReachedType} {kept : List Ty} {es : List ReachedType}
    (h : e ∈ keepFirst kept es) : ∃ d ∈ es, d.type = e.type := by
  induction es generalizing kept with
  | nil => cases h
  | cons d es ih =>
    rw [keepFirst] at h
    split at h
    case isTrue =>
      obtain ⟨c, hc, htype⟩ := ih h
      exact ⟨c, List.mem_cons_of_mem d hc, htype⟩
    case isFalse =>
      rcases List.mem_cons.1 h with rfl | h
      · exact ⟨d, List.mem_cons_self, rfl⟩
      · obtain ⟨c, hc, htype⟩ := ih h
        exact ⟨c, List.mem_cons_of_mem d hc, htype⟩

namespace Universe

/-- Two universes have in common what the search takes from the types of a set, and it does not leave the set. -/
structure Resembles (P : Ty → Prop) (u v : Universe) : Prop where
  declaredOn : ∀ n, P (.named n) → v.declaredOn n = u.declaredOn n
  interfaceOf? : ∀ t, P t → v.interfaceOf? t = u.interfaceOf? t
  asStruct? : ∀ t, P t → (v.underlying t).asStruct? = (u.underlying t).asStruct?
  embeds : ∀ t i, P t → u.interfaceOf? t = some i → ∀ e ∈ i.embeds, P e
  fields : ∀ t fs, P t → (u.underlying t).asStruct? = some fs → ∀ f ∈ fs, f.embedded = true → P f.type.deref

namespace Resembles

variable {P : Ty → Prop} {u v : Universe} (h : u.Resembles P v)
include h

theorem interfaceMethods_eq {i : InterfaceType} (hi : ∀ e ∈ i.embeds, P e) :
    v.interfaceMethods i = u.interfaceMethods i :=
  collect_congr h.interfaceOf? h.embeds hi

section Reached

variable {e : ReachedType} (he : P e.type)
include he

theorem fields_eq : e.fields v = e.fields u := by
  rw [ReachedType.fields, ReachedType.fields, h.asStruct? e.type he]

theorem mem_embedded {d : ReachedType} (hd : d ∈ e.embedded u) : P d.type := by
  obtain ⟨f, hf, rfl⟩ := List.mem_map.1 hd
  obtain ⟨hf, hembedded⟩ := List.mem_filter.1 hf
  unfold ReachedType.fields at hf
  cases hs : (u.underlying e.type).asStruct? with
  | none => simp [hs] at hf
  | some fs =>
    rw [hs, Option.getD_some] at hf
    exact h.fields e.type fs he hs f hf hembedded

theorem embedded_eq : e.embedded v = e.embedded u := by
  rw [ReachedType.embedded, ReachedType.embedded, h.fields_eq he]

theorem declared_eq (depth : Nat) : e.declared v depth = e.declared u depth := by
  unfold ReachedType.declared
  split
  case h_1 n hn => rw [h.declaredOn n (Ty.eq_named_of_asNamed? hn ▸ he)]
  case h_2 => rfl

theorem required_eq (depth : Nat) : e.required v depth = e.required u depth := by
  unfold ReachedType.required
  rw [h.interfaceOf? e.type he]
  split
  case h_1 i hi => rw [h.interfaceMethods_eq (h.embeds e.type i he hi)]
  case h_2 => rfl

end Reached

section Rounds

variable {es : List ReachedType} (hes : ∀ e ∈ es, P e.type)
include hes

theorem advance_eq : ReachedType.advance v es = ReachedType.advance u es := by
  have hembedded : es.flatMap (ReachedType.embedded v) = es.flatMap (ReachedType.embedded u) :=
    List.flatMap_congr fun e he => h.embedded_eq (hes e he)
  rw [ReachedType.advance, ReachedType.advance, hembedded]

theorem mem_advance {e : ReachedType} (he : e ∈ ReachedType.advance u es) : P e.type := by
  obtain ⟨d, hd, htype⟩ := ReachedType.exists_of_mem_keepFirst he
  obtain ⟨c, hc, hd⟩ := List.mem_flatMap.1 hd
  exact htype ▸ h.mem_embedded (hes c hc) hd

theorem level_eq (depth : Nat) : Level.ofEmbeddings v depth es = Level.ofEmbeddings u depth es := by
  have hcandidates : (es.flatMap fun e => e.declared v depth ++ e.required v depth) =
      es.flatMap fun e => e.declared u depth ++ e.required u depth :=
    List.flatMap_congr fun e he => by rw [h.declared_eq (hes e he), h.required_eq (hes e he)]
  have hfields : (es.flatMap fun e => (e.fields v).map (·.name)) = es.flatMap fun e => (e.fields u).map (·.name) :=
    List.flatMap_congr fun e he => by rw [h.fields_eq (hes e he)]
  rw [Level.ofEmbeddings, Level.ofEmbeddings, hcandidates, hfields]

end Rounds

/-- The search for methods goes through the same types in both universes. -/
theorem search_eq {depth : Nat} {seen : List TypeName} {current : List ReachedType}
    {settled : Table String (Option Selection)} (hc : ∀ e ∈ current, P e.type) :
    v.search depth seen current settled = u.search depth seen current settled := by
  fun_induction u.search depth seen current settled with
  | case1 depth seen settled => rw [search]
  | case2 depth seen settled e es fresh ih =>
    have hfresh : ∀ e ∈ fresh, P e.type := fun d hd => hc d (List.mem_filter.1 hd).1
    rw [search, h.level_eq hfresh, h.advance_eq hfresh]
    exact ih fun d hd => h.mem_advance hfresh hd

theorem methodSet_eq {t : Ty} (ht : P t.deref) : v.methodSet t = u.methodSet t := by
  rw [methodSet, methodSet, h.interfaceOf? t.deref ht, h.search_eq fun e he => ?_]
  rwa [List.mem_singleton.1 he]

end Resembles

/-- Which types are met from a type. -/
inductive Meets (u : Universe) (t : Ty) : Ty → Prop where
  | start : Meets u t t
  | embed {s e : Ty} {i : InterfaceType} : Meets u t s → u.interfaceOf? s = some i → e ∈ i.embeds → Meets u t e
  | field {s : Ty} {fs : List Field} {f : Field} :
      Meets u t s → (u.underlying s).asStruct? = some fs → f ∈ fs → f.embedded = true → Meets u t f.type.deref

end Universe

end TypeAtlas
