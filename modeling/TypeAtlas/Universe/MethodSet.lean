import TypeAtlas.Universe.InterfaceMethods

/-!
# Method sets

The methods that can be called on a type are those declared on it, those of the interface behind it, and those that
the embedded fields of the struct behind it promote.  They are searched depth by depth.

* At the smallest depth where a name occurs it is settled: it selects a method if it occurs there exactly once, as a
  method, and the method can be reached; otherwise the name selects nothing, at this depth or below (`Level.settle`).
* A method with a pointer receiver is reached from a pointer, or through a field that embeds a pointer.
* A type embedded more than once at a depth is searched once, but everything found in it occurs more than once
  (`ReachedType.mergeEqual`).
* A defined type that was searched at a smaller depth is not searched again.
* A pointer to an interface has no methods.

Each round of the search sees a defined type for the first time or goes from anonymous structs to their parts
(`ReachedType.advance_decreases`), so no limit is needed.
-/

namespace TypeAtlas

/-- A method that a name selects. -/
structure Selection where
  name : String
  signature : Signature
  /-- The defined type in which the method was found. -/
  origin : Option TypeName
  pointerReceiver : Bool
  /-- Through how many embedded fields. -/
  depth : Nat
deriving DecidableEq

/-- Whether the method belongs to an embedded field. -/
def Selection.isPromoted (s : Selection) : Bool := decide (0 < s.depth)

/-- The methods of a type, by name. -/
abbrev MethodSet := Table String Selection

/-- A type reached through embedded fields. -/
structure ReachedType where
  type : Ty
  /-- Whether a pointer was crossed. -/
  indirect : Bool
  /-- Whether the type was reached on more than one path of this length. -/
  repeated : Bool
deriving DecidableEq

/-- A method found at some depth, and whether it can be selected there if nothing else has its name. -/
structure Candidate where
  selection : Selection
  selectable : Bool
deriving DecidableEq

namespace ReachedType

/-- The fields of the struct behind the type. -/
def fields (u : Universe) (e : ReachedType) : List Field := ((u.underlying e.type).asStruct?).getD []

/-- The methods declared on the type. -/
def declared (u : Universe) (depth : Nat) (e : ReachedType) : List Candidate :=
  match e.type.asNamed? with
  | some n => (u.declaredOn n).map fun m =>
      ⟨⟨m.name, m.signature, some n, m.pointerReceiver, depth⟩, !e.repeated && (e.indirect || !m.pointerReceiver)⟩
  | none => []

/-- The methods of the interface behind the type. -/
def required (u : Universe) (depth : Nat) (e : ReachedType) : List Candidate :=
  match u.interfaceOf? e.type with
  | some i => (u.interfaceMethods i).entries.map fun m =>
      ⟨⟨m.1, m.2, e.type.asNamed?, false, depth⟩, !e.repeated⟩
  | none => []

/-- What a field embeds, reached from `e`. -/
def through (e : ReachedType) (f : Field) : ReachedType :=
  ⟨f.type.deref, e.indirect || f.type.isPointer, e.repeated⟩

/-- The types embedded in the struct behind the type. -/
def embedded (u : Universe) (e : ReachedType) : List ReachedType :=
  ((e.fields u).filter (·.embedded)).map e.through

/-- Every type that is not in `kept` once, where it is reached first; a type that is reached again is marked. -/
def keepFirst (kept : List Ty) : List ReachedType → List ReachedType
  | [] => []
  | e :: es =>
    if e.type ∈ kept then keepFirst kept es
    else
      { e with repeated := e.repeated || es.any fun d => decide (d.type = e.type) } :: keepFirst (e.type :: kept) es

/-- Every type once, where it is reached first; a type that is reached again is marked. -/
def mergeEqual (es : List ReachedType) : List ReachedType := keepFirst [] es

/-- Those whose type was not searched before. -/
def fresh (seen : List TypeName) (es : List ReachedType) : List ReachedType :=
  es.filter fun e => !e.type.seenIn seen

/-- The names among the types. -/
def names (es : List ReachedType) : List TypeName := es.filterMap fun e => e.type.asNamed?

/-- The types one field deeper. -/
def advance (u : Universe) (es : List ReachedType) : List ReachedType := mergeEqual (es.flatMap (embedded u))

end ReachedType

/-- What is found at one depth. -/
structure Level where
  candidates : List Candidate
  /-- The names of fields. -/
  fields : List String
deriving DecidableEq

namespace Level

/-- What is found in the given types. -/
def ofEmbeddings (u : Universe) (depth : Nat) (es : List ReachedType) : Level where
  candidates := es.flatMap fun e => e.declared u depth ++ e.required u depth
  fields := es.flatMap fun e => (e.fields u).map (·.name)

/-- The names that occur. -/
def names (l : Level) : List String := l.candidates.map (·.selection.name) ++ l.fields

/-- What a name that occurs selects: the only method of that name, if it can be selected and no field hides it. -/
def settle (l : Level) (name : String) : Option Selection :=
  if name ∈ l.fields then none
  else
    match l.candidates.filter fun c => c.selection.name == name with
    | [c] => if c.selectable then some c.selection else none
    | _ => none

/-- Settle the names that occur and were not settled before. -/
def addTo (l : Level) (settled : Table String (Option Selection)) : Table String (Option Selection) :=
  l.names.foldl (fun t name => t.insertIfNew name (l.settle name)) settled

end Level

namespace ReachedType

/-! ## The search shrinks -/

/-- The number of types in the types reached. -/
def total : List ReachedType → Nat
  | [] => 0
  | e :: es => e.type.size + total es

theorem total_cons (e : ReachedType) (es : List ReachedType) : total (e :: es) = e.type.size + total es := rfl

theorem total_append (ds es : List ReachedType) : total (ds ++ es) = total ds + total es := by
  induction ds with
  | nil => simp [total]
  | cons d ds ih => rw [List.cons_append, total_cons, total_cons, ih, Nat.add_assoc]

theorem total_filter_le (p : ReachedType → Bool) (es : List ReachedType) : total (es.filter p) ≤ total es := by
  induction es with
  | nil => simp
  | cons e es ih =>
    rw [List.filter_cons, total_cons]
    split
    · rw [total_cons]; omega
    · omega

theorem total_keepFirst_le (kept : List Ty) (es : List ReachedType) : total (keepFirst kept es) ≤ total es := by
  induction es generalizing kept with
  | nil => simp [keepFirst]
  | cons e es ih =>
    rw [keepFirst, total_cons]
    split
    · have := ih kept
      omega
    · have := ih (e.type :: kept)
      simp only [total_cons]
      omega

theorem total_through_le (e : ReachedType) (fs : List Field) :
    total ((fs.filter (·.embedded)).map e.through) ≤ Field.sizeAll fs := by
  induction fs with
  | nil => simp [total]
  | cons f fs ih =>
    have := f.type.size_deref_le
    rw [List.filter_cons]
    cases f
    split
    · simp only [List.map_cons, total_cons, Field.sizeAll, through] at *; omega
    · simp only [Field.sizeAll]; omega

/-- **What a type embeds is smaller than what is behind it.** -/
theorem total_embedded_lt_behind (u : Universe) (e : ReachedType) : total (e.embedded u) < (u.underlying e.type).size := by
  unfold embedded fields
  cases hs : (u.underlying e.type).asStruct? with
  | none => exact Ty.size_pos _
  | some fs =>
    have hle := total_through_le e fs
    rw [Ty.eq_struct_of_asStruct? hs, Ty.size, Option.getD_some]
    omega

/-- **What an anonymous or opaque type embeds is smaller than the type.** -/
theorem total_embedded_lt {u : Universe} {e : ReachedType}
    (h : ∀ n, e.type.asNamed? = some n → u.lookup n = none) : total (e.embedded u) < e.type.size := by
  have hu : u.underlying e.type = e.type := by
    cases hn : e.type.asNamed? with
    | some n => rw [Ty.eq_named_of_asNamed? hn, Universe.underlying_of_undefined (h n hn)]
    | none => exact Universe.underlying_of_asNamed?_eq_none hn
  have hlt := e.total_embedded_lt_behind u
  rwa [hu] at hlt

theorem total_flatMap_embedded_le {u : Universe} {es : List ReachedType}
    (h : ∀ e ∈ es, ∀ n, e.type.asNamed? = some n → u.lookup n = none) :
    total (es.flatMap (embedded u)) + es.length ≤ total es := by
  induction es with
  | nil => simp [total]
  | cons e es ih =>
    have h₁ := total_embedded_lt (h e List.mem_cons_self)
    have h₂ := ih fun d hd => h d (List.mem_cons_of_mem e hd)
    simp only [List.flatMap_cons, total_append, total_cons, List.length_cons]
    omega

/-- **Each round sees a defined type for the first time or makes the types smaller.** -/
theorem advance_decreases (u : Universe) (seen : List TypeName) (e : ReachedType) (es : List ReachedType) :
    Prod.Lex (· < ·) (· < ·)
      (u.unseen (names (fresh seen (e :: es)) ++ seen), total (advance u (fresh seen (e :: es))))
      (u.unseen seen, total (e :: es)) := by
  by_cases hd : ∃ d ∈ fresh seen (e :: es), ∃ n, d.type.asNamed? = some n ∧ (u.lookup n).isSome
  · obtain ⟨d, hm, n, hn, hl⟩ := hd
    obtain ⟨def', hl⟩ := Option.isSome_iff_exists.1 hl
    refine Prod.Lex.left _ _ (Universe.unseen_append_lt hl (List.mem_filterMap.2 ⟨d, hm, hn⟩) ?_)
    simpa [fresh, Ty.seenIn, hn] using (List.mem_filter.1 hm).2
  · have hu : ∀ d ∈ fresh seen (e :: es), ∀ n, d.type.asNamed? = some n → u.lookup n = none :=
      fun d hm n hn => Option.not_isSome_iff_eq_none.1 fun hs => hd ⟨d, hm, n, hn, hs⟩
    have h₁ := total_flatMap_embedded_le hu
    have h₂ : total (mergeEqual _) ≤ _ := total_keepFirst_le [] ((fresh seen (e :: es)).flatMap (embedded u))
    have h₃ : total (fresh seen (e :: es)) ≤ total (e :: es) := total_filter_le _ _
    have h₄ : total (advance u (fresh seen (e :: es))) < total (e :: es) := by
      unfold advance
      cases hf : fresh seen (e :: es) with
      | nil =>
        have := e.type.size_pos
        rw [total_cons]
        show 0 < _
        omega
      | cons d ds =>
        rw [hf] at h₁ h₂ h₃
        simp only [List.length_cons] at h₁
        omega
    rcases Nat.lt_or_eq_of_le (u.unseen_append_le (names (fresh seen (e :: es))) seen) with h | h
    · exact Prod.Lex.left _ _ h
    · rw [h]
      exact Prod.Lex.right _ h₄

end ReachedType

namespace Universe

/-- Settle the names found at this depth and below.  The types in `seen` were searched before. -/
def search (u : Universe) (depth : Nat) (seen : List TypeName) (current : List ReachedType)
    (settled : Table String (Option Selection)) : Table String (Option Selection) :=
  match current with
  | [] => settled
  | e :: es =>
    let fresh := ReachedType.fresh seen (e :: es)
    u.search (depth + 1) (ReachedType.names fresh ++ seen) (ReachedType.advance u fresh)
      ((Level.ofEmbeddings u depth fresh).addTo settled)
termination_by (u.unseen seen, ReachedType.total current)
decreasing_by exact ReachedType.advance_decreases u seen e es

/-- The methods that can be called on a type. -/
def methodSet (u : Universe) (t : Ty) : MethodSet :=
  if t.isPointer && (u.interfaceOf? t.deref).isSome then .empty
  else (u.search 0 [] [⟨t.deref, t.isPointer, false⟩] .empty).filterMap id

end Universe

end TypeAtlas
