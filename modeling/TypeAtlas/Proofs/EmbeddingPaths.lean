import TypeAtlas.Proofs.Arrivals
import TypeAtlas.Universe.MethodSet

/-!
# Embedding paths and the occurrences of a name

The selector rule speaks of all paths through embedded fields, without leaving any out.

* A path of length `d` picks `d` times an embedded field of the struct behind the type it has reached, and strips one
  pointer of its type (`Universe.embeddingPaths`).
* A name occurs at depth `d` once for every path of length `d` and every method or field of that name in the type at
  its end (`Universe.occurrences`).
* A name selects a method if at the smallest depth where it occurs it occurs once, as a method that can be reached
  (`Universe.Selects`).

A type may be reached on very many paths, and on arbitrarily long ones where types embed one another.  For the rule it
only matters whether a type is reached never, once or more often, so the paths of a length are counted as `Arrivals`
by the type at their end: `Universe.reach_succ` and `Universe.sum_arrival_occurrences` count them step by step.
-/

namespace TypeAtlas

/-- A path through embedded fields: the fields that it picks, in order. -/
abbrev EmbeddingPath := List Field

namespace EmbeddingPath

/-- The type that a path reaches from `base`. -/
def target (base : Ty) (p : EmbeddingPath) : Ty := (p.getLast?.map fun f => f.type.deref).getD base

/-- Whether a field of the path embeds a pointer. -/
def crossesPointer (p : EmbeddingPath) : Bool := p.any fun f => f.type.isPointer

end EmbeddingPath

/-- A method or a field at the end of an embedding path. -/
inductive Occurrence where
  /-- A method declared on the defined type at the end. -/
  | declared (path : EmbeddingPath) (owner : TypeName) (method : MethodDecl)
  /-- A method of the interface behind the type at the end, which may have a name. -/
  | required (path : EmbeddingPath) (owner : Option TypeName) (name : String) (signature : Signature)
  /-- A field of the struct behind the type at the end. -/
  | field (path : EmbeddingPath) (field : Field)

namespace Occurrence

/-- The name that occurs. -/
def name : Occurrence → String
  | declared _ _ m => m.name
  | required _ _ n _ => n
  | field _ f => f.name

/-- What the name selects if it occurs only here.  A field is no method, and a method with a pointer receiver is
reached from a pointer or across one. -/
def selection? (fromPointer : Bool) (depth : Nat) : Occurrence → Option Selection
  | declared p n m =>
    if !m.pointerReceiver || fromPointer || p.crossesPointer then
      some ⟨m.name, m.signature, some n, m.pointerReceiver, depth⟩
    else none
  | required _ owner n s => some ⟨n, s, owner, false, depth⟩
  | field _ _ => none

end Occurrence

namespace Universe

/-- The fields of the struct behind a type. -/
def fieldsBehind (u : Universe) (t : Ty) : List Field := ((u.underlying t).asStruct?).getD []

/-- The embedding paths of a length, each as often as it can be taken. -/
def embeddingPaths (u : Universe) (base : Ty) : Nat → List EmbeddingPath
  | 0 => [[]]
  | d + 1 => (u.embeddingPaths base d).flatMap fun p =>
      ((u.fieldsBehind (p.target base)).filter (·.embedded)).map fun f => p ++ [f]

/-- The methods and fields at the end of a path. -/
def occurrencesAlong (u : Universe) (base : Ty) (p : EmbeddingPath) : List Occurrence :=
  (match (p.target base).asNamed? with
    | some n => (u.declaredOn n).map (.declared p n)
    | none => []) ++
  (match u.interfaceOf? (p.target base) with
    | some i => (u.interfaceMethods i).entries.map fun m => .required p (p.target base).asNamed? m.1 m.2
    | none => []) ++
  (u.fieldsBehind (p.target base)).map (.field p)

/-- The occurrences of a name at a depth. -/
def occurrences (u : Universe) (base : Ty) (depth : Nat) (name : String) : List Occurrence :=
  ((u.embeddingPaths base depth).flatMap (u.occurrencesAlong base)).filter fun o => o.name == name

/-- **The selector rule.**  At the smallest depth where the name occurs it occurs exactly once, as a method that can
be reached. -/
def Selects (u : Universe) (t : Ty) (name : String) (s : Selection) : Prop :=
  ∃ depth o, (∀ k < depth, u.occurrences t.deref k name = []) ∧ u.occurrences t.deref depth name = [o] ∧
    o.selection? t.isPointer depth = some s

end Universe

/-! ## Counting the paths -/

/-- The types that the embedded fields behind a type reach, for arrivals at that type. -/
def Universe.across (u : Universe) (w : Ty × Arrivals Bool) : List (Ty × Arrivals Bool) :=
  ((u.fieldsBehind w.1).filter (·.embedded)).map fun f =>
    (f.type.deref, w.2.follow fun b => .once (b || f.type.isPointer))

/-- The ways from a type to another one across an embedded field. -/
def Universe.ways (u : Universe) (target source : Ty) : List (Bool → Arrivals Bool) :=
  (((u.fieldsBehind source).filter (·.embedded)).filter fun f => f.type.deref = target).map fun f b =>
    .once (b || f.type.isPointer)

namespace Arrivals

variable {α γ : Type}

theorem tally_flatMap (g : γ → List (Ty × Arrivals α)) (t : Ty) (xs : List γ) :
    tally (xs.flatMap g) t = (xs.map fun x => tally (g x) t).sum := by
  rw [tally, List.filter_flatMap, List.map_flatMap, sum_flatMap]
  rfl

/-- The arrivals at a type after one more field are those that its ways lead to. -/
theorem tally_across (u : Universe) (w : Ty × Arrivals Bool) (t : Ty) :
    tally (u.across w) t = spread (u.ways t w.1) w.2 := by
  unfold tally Universe.across spread Universe.ways
  rw [List.filter_map, List.map_map, List.map_map]
  rfl

theorem tally_flatMap_across (u : Universe) (ws : List (Ty × Arrivals Bool)) (t : Ty) :
    tally (ws.flatMap u.across) t = total (u.ways t) ws := by
  rw [tally_flatMap, total]
  exact congrArg List.sum (List.map_congr_left fun w _ => tally_across u w t)

end Arrivals

namespace Universe

theorem ways_ne_zero {u : Universe} {target : Ty} (source : Ty) : ∀ k ∈ u.ways target source, ∀ b, k b ≠ 0 := by
  intro k hk b
  obtain ⟨f, -, rfl⟩ := List.mem_map.1 hk
  exact Arrivals.once_ne_zero _

/-- The embedding paths of a length from a type, counted by the type at their end.  An arrival tells whether a pointer
was crossed on the way or at the start. -/
def reach (u : Universe) (t : Ty) (depth : Nat) : List (Ty × Arrivals Bool) :=
  (u.embeddingPaths t.deref depth).map fun p => (p.target t.deref, .once (t.isPointer || p.crossesPointer))

/-- **Longer paths go on from shorter ones.** -/
theorem reach_succ (u : Universe) (t : Ty) (d : Nat) : u.reach t (d + 1) = (u.reach t d).flatMap u.across := by
  rw [reach, embeddingPaths, List.map_flatMap, reach, List.flatMap_map]
  refine List.flatMap_congr fun p _ => ?_
  rw [across, List.map_map]
  refine List.map_congr_left fun f _ => ?_
  simp [EmbeddingPath.target, EmbeddingPath.crossesPointer, Arrivals.follow, Bool.or_assoc]

/-- A type is reached by the types with a way to it. -/
theorem tally_reach_succ_ne_zero_iff {u : Universe} {t : Ty} {d : Nat} {s : Ty} :
    Arrivals.tally (u.reach t (d + 1)) s ≠ 0 ↔ ∃ r, Arrivals.tally (u.reach t d) r ≠ 0 ∧ u.ways s r ≠ [] := by
  rw [reach_succ, Arrivals.tally_flatMap_across]
  exact Arrivals.total_ne_zero_iff ways_ne_zero

/-- What is found in a type at a depth: every name with what an arrival at the type selects by it, if only once. -/
def findings (u : Universe) (depth : Nat) (t : Ty) : List (String × (Bool → Arrivals Selection)) :=
  (match t.asNamed? with
    | some n => (u.declaredOn n).map fun m => (m.name, fun b =>
        if b || !m.pointerReceiver then .once ⟨m.name, m.signature, some n, m.pointerReceiver, depth⟩ else .often)
    | none => []) ++
  (match u.interfaceOf? t with
    | some i => (u.interfaceMethods i).entries.map fun m => (m.1, fun _ => .once ⟨m.1, m.2, t.asNamed?, false, depth⟩)
    | none => []) ++
  (u.fieldsBehind t).map fun f => (f.name, fun _ => .often)

/-- What is found in a type under a name. -/
def findingsOf (u : Universe) (depth : Nat) (name : String) (t : Ty) : List (Bool → Arrivals Selection) :=
  ((u.findings depth t).filter fun x => x.1 == name).map Prod.snd

/-- What a name selects at a depth, counted over all embedding paths. -/
def occurring (u : Universe) (t : Ty) (depth : Nat) (name : String) : Arrivals Selection :=
  Arrivals.total (u.findingsOf depth name) (u.reach t depth)

/-- The depth does not matter for what names are found in a type. -/
theorem map_fst_findings (u : Universe) (d k : Nat) (t : Ty) :
    (u.findings d t).map Prod.fst = (u.findings k t).map Prod.fst := by
  simp only [findings, List.map_append, List.map_map]
  congr 2
  · cases t.asNamed? <;> simp
  · cases u.interfaceOf? t <;> simp

theorem findingsOf_eq_nil_iff {u : Universe} {d : Nat} {name : String} {t : Ty} :
    u.findingsOf d name t = [] ↔ name ∉ (u.findings 0 t).map Prod.fst := by
  rw [map_fst_findings u 0 d, findingsOf, List.map_eq_nil_iff, List.filter_eq_nil_iff, List.mem_map]
  constructor
  · rintro h ⟨x, hx, rfl⟩
    exact h x hx (by simp)
  · intro h x hx hn
    exact h ⟨x, hx, by simpa using hn⟩

/-- **Everything found counts.** -/
theorem findings_ne_zero {u : Universe} {d : Nat} {t : Ty} {x : String × (Bool → Arrivals Selection)}
    (hx : x ∈ u.findings d t) (b : Bool) : x.2 b ≠ 0 := by
  unfold findings at hx
  rcases List.mem_append.1 hx with hx | hx
  · rcases List.mem_append.1 hx with hx | hx
    · split at hx
      · obtain ⟨m, -, rfl⟩ := List.mem_map.1 hx
        dsimp only
        split
        · exact Arrivals.once_ne_zero _
        · exact Arrivals.often_ne_zero
      · cases hx
    · split at hx
      · obtain ⟨m, -, rfl⟩ := List.mem_map.1 hx
        exact Arrivals.once_ne_zero _
      · cases hx
  · obtain ⟨f, -, rfl⟩ := List.mem_map.1 hx
    exact Arrivals.often_ne_zero

theorem findingsOf_ne_zero {u : Universe} {d : Nat} {name : String} (t : Ty) :
    ∀ k ∈ u.findingsOf d name t, ∀ b, k b ≠ 0 := by
  intro k hk b
  obtain ⟨x, hx, rfl⟩ := List.mem_map.1 hk
  exact findings_ne_zero (List.mem_filter.1 hx).1 b

/-- A name occurs at a depth if it is found in a type that is reached there. -/
theorem occurring_ne_zero_iff {u : Universe} {t : Ty} {d : Nat} {name : String} :
    u.occurring t d name ≠ 0 ↔
      ∃ s, Arrivals.tally (u.reach t d) s ≠ 0 ∧ name ∈ (u.findings 0 s).map Prod.fst := by
  rw [occurring, Arrivals.total_ne_zero_iff findingsOf_ne_zero]
  refine exists_congr fun s => and_congr_right fun _ => ?_
  rw [Ne, findingsOf_eq_nil_iff, Classical.not_not]

end Universe

/-- What an occurrence counts for: a selection, or as much as a collision if nothing can be selected by it. -/
def Occurrence.arrival (fromPointer : Bool) (depth : Nat) (o : Occurrence) : Arrivals Selection :=
  match o.selection? fromPointer depth with
  | some s => .once s
  | none => .often

theorem Occurrence.arrival_ne_zero (fromPointer : Bool) (depth : Nat) (o : Occurrence) :
    o.arrival fromPointer depth ≠ 0 := by
  unfold arrival
  split
  · exact Arrivals.once_ne_zero _
  · exact Arrivals.often_ne_zero

theorem Occurrence.arrival_eq_once_iff {fromPointer : Bool} {depth : Nat} {o : Occurrence} {s : Selection} :
    o.arrival fromPointer depth = .once s ↔ o.selection? fromPointer depth = some s := by
  unfold arrival
  split <;> simp_all

namespace Universe

/-- The occurrences at the end of a path are what is found there. -/
theorem map_arrival_occurrencesAlong (u : Universe) (t : Ty) (d : Nat) (p : EmbeddingPath) :
    (u.occurrencesAlong t.deref p).map (fun o => (o.name, o.arrival t.isPointer d)) =
      (u.findings d (p.target t.deref)).map fun x => (x.1, x.2 (t.isPointer || p.crossesPointer)) := by
  unfold occurrencesAlong findings
  simp only [List.map_append, List.map_map]
  congr 2
  · cases (p.target t.deref).asNamed? with
    | none => rfl
    | some n =>
      simp only [List.map_map]
      refine List.map_congr_left fun m _ => ?_
      cases hm : m.pointerReceiver <;> cases t.isPointer <;> cases hp : p.crossesPointer <;>
        simp [Occurrence.name, Occurrence.arrival, Occurrence.selection?, hm, hp]
  · cases u.interfaceOf? (p.target t.deref) with
    | none => rfl
    | some i =>
      simp only [List.map_map]
      rfl

/-- **The occurrences of a name are what the paths find.** -/
theorem sum_arrival_occurrences (u : Universe) (t : Ty) (d : Nat) (name : String) :
    ((u.occurrences t.deref d name).map (Occurrence.arrival t.isPointer d)).sum = u.occurring t d name := by
  have along : ∀ p, (((u.occurrencesAlong t.deref p).filter fun o => o.name == name).map
      (Occurrence.arrival t.isPointer d)).sum =
        Arrivals.spread (u.findingsOf d name (p.target t.deref)) (.once (t.isPointer || p.crossesPointer)) := by
    intro p
    have h := congrArg (fun l => ((l.filter fun x => x.1 == name).map Prod.snd).sum)
      (u.map_arrival_occurrencesAlong t d p)
    simp only [List.filter_map, List.map_map] at h
    rw [Arrivals.spread, findingsOf, List.map_map]
    exact h
  unfold occurrences occurring reach Arrivals.total
  rw [List.filter_flatMap, List.map_flatMap, Arrivals.sum_flatMap, List.map_map]
  exact congrArg List.sum (List.map_congr_left fun p _ => along p)

end Universe

end TypeAtlas
