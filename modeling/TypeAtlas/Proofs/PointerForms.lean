import TypeAtlas.Proofs.Extraction
import TypeAtlas.Proofs.InterfaceSatisfaction

/-!
# The methods of pointer forms

Whether a method can be called on a type and on a pointer to it is decided on the same embedding paths: the names occur
at the same places either way, and only methods with a pointer receiver make a difference.

* The pointer form of a type has all methods of the type, unless an interface is behind the type
  (`Universe.methodSet_toPointer`).
* The methods of the pointer form of an aggregate are the methods that are declared on it, at depth zero, and those that
  its embedded fields promote, below.  The names of its members hide deeper ones (`Aggregate.mem_memberNames_iff`), so a
  method that an interface asks for is found on one of the two sides (`Aggregate.declared_or_promoted`).
-/

namespace TypeAtlas

/-! ## From values to pointers -/

namespace Ty

@[simp] theorem isPointer_toPointer (t : Ty) : t.toPointer.isPointer = true := by cases t <;> rfl

@[simp] theorem deref_toPointer (t : Ty) : t.toPointer.deref = t.deref := by cases t <;> rfl

theorem toPointer_of_isPointer {t : Ty} (h : t.isPointer = true) : t.toPointer = t := by
  cases t with
  | pointer t => rfl
  | _ => cases h

theorem deref_of_isPointer_eq_false {t : Ty} (h : t.isPointer = false) : t.deref = t := by
  cases t with
  | pointer t => cases h
  | _ => rfl

end Ty

namespace Occurrence

variable {o : Occurrence} {fromPointer : Bool} {depth : Nat} {s : Selection}

/-- A selection has the name and the depth of the occurrence. -/
theorem of_selection? (h : o.selection? fromPointer depth = some s) : s.name = o.name ∧ s.depth = depth := by
  unfold selection? at h
  split at h
  · split at h
    · cases h
      exact ⟨rfl, rfl⟩
    · cases h
  · cases h
    exact ⟨rfl, rfl⟩
  · cases h

/-- What is selected from a value is selected from a pointer. -/
theorem selection?_true (h : o.selection? fromPointer depth = some s) : o.selection? true depth = some s := by
  cases o with
  | declared p n m =>
    rw [selection?] at h
    split at h
    · simpa [selection?] using h
    · cases h
  | required p owner n sig => exact h
  | field p f => cases h

/-- What is selected from a pointer is selected from a value, unless it has a pointer receiver. -/
theorem selection?_or_pointerReceiver (h : o.selection? true depth = some s) :
    o.selection? fromPointer depth = some s ∨ s.pointerReceiver = true := by
  cases o with
  | declared p n m =>
    obtain rfl : _ = s := by simpa [selection?] using h
    cases hm : m.pointerReceiver with
    | true => exact .inr rfl
    | false => exact .inl (by simp [selection?, hm])
  | required p owner n sig => exact .inl h
  | field p f => cases h

end Occurrence

namespace Universe

variable {u : Universe} {t : Ty}

theorem Selects.name_eq {name : String} {s : Selection} (h : u.Selects t name s) : s.name = name := by
  obtain ⟨d, o, -, ho, hs⟩ := h
  have hmem : o ∈ u.occurrences t.deref d name := by rw [ho]; exact List.mem_singleton_self o
  rw [(Occurrence.of_selection? hs).1]
  simpa using (List.mem_filter.1 hmem).2

/-- The occurrences do not tell a type from its pointer form. -/
theorem Selects.toPointer {name : String} {s : Selection} (h : u.Selects t name s) : u.Selects t.toPointer name s := by
  obtain ⟨d, o, hbefore, ho, hs⟩ := h
  refine ⟨d, o, ?_, ?_, ?_⟩
  · rwa [t.deref_toPointer]
  · rwa [t.deref_toPointer]
  · rw [t.isPointer_toPointer]
    exact Occurrence.selection?_true hs

theorem Selects.of_toPointer {name : String} {s : Selection} (h : u.Selects t.toPointer name s) :
    u.Selects t name s ∨ s.pointerReceiver = true := by
  obtain ⟨d, o, hbefore, ho, hs⟩ := h
  rw [t.deref_toPointer] at hbefore ho
  rw [t.isPointer_toPointer] at hs
  exact (Occurrence.selection?_or_pointerReceiver hs).imp_left fun hs => ⟨d, o, hbefore, ho, hs⟩

/-- Method sets that have all selections of another one satisfy all interfaces that the other one satisfies. -/
theorem implements_of_methodSet_le {t r : Ty}
    (h : ∀ name s, (u.methodSet t).get? name = some s → (u.methodSet r).get? name = some s) {i : InterfaceType}
    (hi : u.implements t i = true) : u.implements r i = true := by
  rw [implements_iff] at hi ⊢
  intro name sig hsig
  obtain ⟨s, hs, hid⟩ := hi name sig hsig
  exact ⟨s, h name s hs, hid⟩

/-- **Taking a type in pointer form never loses a method.**  If no interface is behind a type, its pointer form selects
by every name what the type selects by it, and besides only methods with a pointer receiver.  So the pointer form
satisfies every interface that the type satisfies. -/
theorem methodSet_toPointer (h : ∀ i, u.underlying t ≠ .interface i) :
    (∀ name s, (u.methodSet t).get? name = some s → (u.methodSet t.toPointer).get? name = some s) ∧
      (∀ name s, (u.methodSet t.toPointer).get? name = some s →
        (u.methodSet t).get? name = some s ∨ s.pointerReceiver = true) ∧
      (∀ i, u.implements t i = true → u.implements t.toPointer i = true) ∧
      ∀ i : Interface, i.implementedBy u t = true → i.implementedBy u t.toPointer = true := by
  cases hp : t.isPointer with
  | true =>
    rw [Ty.toPointer_of_isPointer hp]
    exact ⟨fun _ _ => id, fun _ _ => .inl, fun _ => id, fun _ => id⟩
  | false =>
    have hvalue : ∀ {name s}, (u.methodSet t).get? name = some s ↔ u.Selects t name s :=
      get?_methodSet_iff fun hpointer => absurd (hp.symm.trans hpointer) Bool.false_ne_true
    have hpointer : ∀ {name s}, (u.methodSet t.toPointer).get? name = some s ↔ u.Selects t.toPointer name s := by
      refine get?_methodSet_iff fun _ => ?_
      rw [t.deref_toPointer, Ty.deref_of_isPointer_eq_false hp]
      exact interfaceOf?_eq_none_iff.2 h
    have hkept : ∀ name s, (u.methodSet t).get? name = some s → (u.methodSet t.toPointer).get? name = some s :=
      fun name s hs => hpointer.2 (hvalue.1 hs).toPointer
    refine ⟨hkept, fun name s hs => ?_, fun i => implements_of_methodSet_le hkept, fun i hi => ?_⟩
    · rw [hvalue]
      exact (hpointer.1 hs).of_toPointer
    · rw [Interface.implementedBy, Ty.toPointer_of_isPointer t.isPointer_toPointer]
      exact hi

/-- The signature of a method that only acts. -/
def acting : Signature := ⟨[], [], false⟩

/-- The signature of a method that closes something, which may fail. -/
def closing : Signature := ⟨[], [.error], false⟩

/-- What is asked of a session. -/
def session : InterfaceType := ⟨[⟨"Handshake", acting⟩, ⟨"Close", closing⟩], []⟩

/-- Connections, and secured connections that embed a pointer to one.  A secured connection declares `Handshake` and
`Reset`, the latter for pointers; it gets `Close` from the connection in it, but not `State`, which is a field of its own.
-/
def net : Universe :=
  let plain := ((initial.define ⟨"net", "Conn"⟩ (.struct [])).addMethod ⟨"net", "Conn"⟩
    ⟨"Close", closing, true, .unknown⟩).addMethod ⟨"net", "Conn"⟩ ⟨"State", acting, false, .unknown⟩
  let secured := plain.define ⟨"net", "TLSConn"⟩
    (.struct [⟨"Conn", .pointer (.named ⟨"net", "Conn"⟩), true⟩, ⟨"State", .basic .int, false⟩])
  ((secured.addMethod ⟨"net", "TLSConn"⟩ ⟨"Handshake", acting, false, .unknown⟩).addMethod ⟨"net", "TLSConn"⟩
    ⟨"Reset", acting, true, .unknown⟩).define ⟨"net", "Session"⟩ (.interface session)

theorem entries_session : (net.interfaceMethods session).entries = [("Close", closing), ("Handshake", acting)] := by
  rw [interfaceMethods, session, collect_nil]
  rfl

/-- `Close` is promoted across a pointer, so it can be called on the value. -/
theorem selects_close :
    net.Selects (.named ⟨"net", "TLSConn"⟩) "Close" ⟨"Close", closing, some ⟨"net", "Conn"⟩, true, 1⟩ := by
  refine ⟨1, _, fun k hk => ?_, rfl, rfl⟩
  obtain rfl : k = 0 := by omega
  rfl

theorem selects_handshake :
    net.Selects (.named ⟨"net", "TLSConn"⟩) "Handshake" ⟨"Handshake", acting, some ⟨"net", "TLSConn"⟩, false, 0⟩ :=
  ⟨0, _, fun k hk => absurd hk (Nat.not_lt_zero k), rfl, rfl⟩

/-- What can be closed after a handshake is a session. -/
theorem implements_session {t : Ty} {c h : Selection} (hc : (net.methodSet t).get? "Close" = some c)
    (hcs : c.signature = closing) (hh : (net.methodSet t).get? "Handshake" = some h) (hhs : h.signature = acting) :
    net.implements t session = true := by
  rw [implements_iff_provides, entries_session, List.forall_mem_cons, List.forall_mem_singleton, provides_iff,
    provides_iff]
  exact ⟨⟨c, hc, by rw [hcs]; rfl⟩, h, hh, by rw [hhs]; rfl⟩

/-- A secured connection is closed through a pointer as through the value, and is a session either way. -/
theorem tlsConn_toPointer :
    (net.methodSet (.named ⟨"net", "TLSConn"⟩)).get? "Close" =
        some ⟨"Close", closing, some ⟨"net", "Conn"⟩, true, 1⟩ ∧
      (net.methodSet (.pointer (.named ⟨"net", "TLSConn"⟩))).get? "Close" =
        some ⟨"Close", closing, some ⟨"net", "Conn"⟩, true, 1⟩ ∧
      net.implements (.named ⟨"net", "TLSConn"⟩) session = true ∧
      net.implements (.pointer (.named ⟨"net", "TLSConn"⟩)) session = true := by
  have hstruct : ∀ i, net.underlying (.named ⟨"net", "TLSConn"⟩) ≠ .interface i := fun i => nofun
  have hvalue : ∀ {name s}, net.Selects (.named ⟨"net", "TLSConn"⟩) name s →
      (net.methodSet (.named ⟨"net", "TLSConn"⟩)).get? name = some s := (get?_methodSet_iff fun h => by cases h).2
  have hsession := implements_session (hvalue selects_close) rfl (hvalue selects_handshake) rfl
  obtain ⟨hkept, -, hsatisfied, -⟩ := methodSet_toPointer hstruct
  exact ⟨hvalue selects_close, hkept _ _ (hvalue selects_close), hsession, hsatisfied _ hsession⟩

end Universe

/-! ## Declared and promoted methods -/

namespace Universe

variable {u : Universe} {t : Ty} {fs : List Field}

theorem isPointer_of_underlying_eq_struct (h : u.underlying t = .struct fs) : t.isPointer = false := by
  cases t with
  | pointer t => cases (underlying_of_asNamed?_eq_none rfl).symm.trans h
  | _ => rfl

theorem mem_methodsOf {m : MethodDecl} : m ∈ u.methodsOf t ↔ ∃ n, t.asNamed? = some n ∧ m ∈ u.declaredOn n := by
  unfold methodsOf
  cases t.asNamed? <;> simp

/-- At depth zero there is one path, which picks no field. -/
theorem mem_occurrences_zero {o : Occurrence} {name : String} :
    o ∈ u.occurrences t 0 name ↔ o ∈ u.occurrencesAlong t [] ∧ o.name = name := by
  rw [occurrences, embeddingPaths, List.flatMap_singleton, List.mem_filter, beq_iff_eq]

/-- Where a struct is behind a type, the declared methods and the fields occur in the type itself. -/
theorem mem_occurrencesAlong_nil (h : u.underlying t = .struct fs) {o : Occurrence} :
    o ∈ u.occurrencesAlong t [] ↔
      (∃ m ∈ u.methodsOf t, ∃ n, o = .declared [] n m ∧ t.asNamed? = some n) ∨ ∃ f ∈ fs, o = .field [] f := by
  have htarget : EmbeddingPath.target t [] = t := rfl
  have hinterface : u.interfaceOf? t = none := interfaceOf?_eq_none_iff.2 fun i hi => by cases h.symm.trans hi
  have hfields : u.fieldsBehind t = fs := by rw [fieldsBehind, h]; rfl
  rw [occurrencesAlong, htarget, hinterface, hfields, List.append_nil, List.mem_append, List.mem_map]
  refine or_congr ?_ (exists_congr fun f => and_congr_right fun _ => eq_comm)
  unfold methodsOf
  cases t.asNamed? with
  | none => simp
  | some n => simp [eq_comm]

/-- What is selected in the type itself is a declared method. -/
theorem exists_method_of_selection? (h : u.underlying t = .struct fs) {o : Occurrence}
    (ho : o ∈ u.occurrencesAlong t []) {fromPointer : Bool} {depth : Nat} {s : Selection}
    (hs : o.selection? fromPointer depth = some s) :
    ∃ m ∈ u.methodsOf t, m.name = s.name ∧ m.signature = s.signature := by
  rcases (mem_occurrencesAlong_nil h).1 ho with ⟨m, hm, n, rfl, -⟩ | ⟨f, -, rfl⟩
  · have hs := Occurrence.selection?_true hs
    obtain rfl : _ = s := by simpa [Occurrence.selection?] using hs
    exact ⟨m, hm, rfl, rfl⟩
  · cases hs

end Universe

namespace Aggregate

variable {u : Universe} {package : PackageRef} {o : Object} {a : Aggregate}

/-- The names of the members: declared methods, fields and embedded fields. -/
def memberNames (a : Aggregate) : List String :=
  a.methods.map (·.name) ++ a.fields.map (·.name) ++ a.embeds.map (·.name)

/-- **The names that occur in an aggregate itself are those of its members.** -/
theorem mem_memberNames_iff (h : Aggregate.ofObject? u package o = some a) {name : String} :
    name ∈ a.memberNames ↔ ∃ o ∈ u.occurrencesAlong a.type [], o.name = name := by
  obtain ⟨-, -, -, hmethods, fs, hu, hfields, hembeds⟩ := ofObject?_eq_some h
  have hnames : a.embeds.map (·.name) = (fs.filter (·.embedded)).map (·.name) := by rw [hembeds, List.map_map]; rfl
  rw [memberNames, hmethods, hfields, hnames, List.append_assoc, ← List.map_append, List.mem_append, List.mem_map,
    List.mem_map]
  simp only [Universe.mem_occurrencesAlong_nil hu, List.mem_append, List.mem_filter]
  constructor
  · rintro (⟨m, hm, hname⟩ | ⟨f, hf, hname⟩)
    · obtain ⟨n, hn, -⟩ := Universe.mem_methodsOf.1 hm
      exact ⟨_, .inl ⟨m, hm, n, rfl, hn⟩, hname⟩
    · exact ⟨_, .inr ⟨f, hf.elim And.left And.left, rfl⟩, hname⟩
  · rintro ⟨o, ⟨m, hm, n, rfl, -⟩ | ⟨f, hf, rfl⟩, hname⟩
    · exact .inl ⟨m, hm, hname⟩
    · refine .inr ⟨f, ?_, hname⟩
      cases hembedded : f.embedded with
      | true => exact .inr ⟨hf, rfl⟩
      | false => exact .inl ⟨hf, rfl⟩

/-- **A method of the pointer form of an aggregate is declared on it, or promoted under a name that no member has.** -/
theorem of_get?_methodSet (h : Aggregate.ofObject? u package o = some a) {name : String} {s : Selection}
    (hs : (u.methodSet a.type.toPointer).get? name = some s) :
    s.name = name ∧ ((s.depth = 0 ∧ ∃ m ∈ a.methods, m.name = name ∧ m.signature = s.signature) ∨
      (0 < s.depth ∧ name ∉ a.memberNames)) := by
  obtain ⟨-, -, -, hmethods, fs, hu, -⟩ := ofObject?_eq_some h
  have hbase : a.type.toPointer.deref = a.type := by
    rw [a.type.deref_toPointer, Ty.deref_of_isPointer_eq_false (Universe.isPointer_of_underlying_eq_struct hu)]
  have hselects : u.Selects a.type.toPointer name s := by
    refine (Universe.get?_methodSet_iff fun _ => ?_).1 hs
    rw [hbase]
    exact Universe.interfaceOf?_eq_none_iff.2 fun i hi => by cases hu.symm.trans hi
  have hsname : s.name = name := hselects.name_eq
  refine ⟨hsname, ?_⟩
  obtain ⟨d, x, hbefore, hx, hsel⟩ := hselects
  rw [hbase] at hbefore hx
  obtain ⟨-, rfl⟩ := Occurrence.of_selection? hsel
  rcases Nat.eq_zero_or_pos s.depth with hzero | hpos
  · -- The only occurrence is in the type itself, where a struct has nothing else than methods that are declared.
    rw [hzero] at hx
    have hmem : x ∈ u.occurrences a.type 0 name := by rw [hx]; exact List.mem_singleton_self x
    obtain ⟨m, hm, hname, hsignature⟩ :=
      Universe.exists_method_of_selection? hu (Universe.mem_occurrences_zero.1 hmem).1 hsel
    rw [hsname] at hname
    exact .inl ⟨hzero, m, hmethods ▸ hm, hname, hsignature⟩
  · refine .inr ⟨hpos, fun hmember => ?_⟩
    obtain ⟨y, hy, hname⟩ := (mem_memberNames_iff h).1 hmember
    have hoccurs : y ∈ u.occurrences a.type 0 name := Universe.mem_occurrences_zero.2 ⟨hy, hname⟩
    rw [hbefore 0 hpos] at hoccurs
    cases hoccurs

theorem mem_promoted_iff {s : Selection} :
    s ∈ a.promoted u ↔ (∃ name, (u.methodSet a.type.toPointer).get? name = some s) ∧ 0 < s.depth := by
  rw [promoted, List.mem_filter, Table.mem_values_iff, Selection.isPromoted, decide_eq_true_iff]

/-- **Declared and promoted methods together explain every satisfaction.**  If an aggregate implements an interface, every
method that the interface asks for has its name and an identical signature from a declared method or from a promoted one,
and no name is on both sides.  Promoted methods never have the name of a member. -/
theorem declared_or_promoted (h : Aggregate.ofObject? u package o = some a) :
    (∀ i : Interface, i.implementedBy u a.type = true → ∀ m ∈ (u.interfaceMethods i.underlying).entries,
      ((∃ d ∈ a.methods, u.SameMethod (d.name, d.signature) m) ∨ ∃ s ∈ a.promoted u, u.SameMethod (s.name, s.signature) m) ∧
        ¬ (m.1 ∈ a.methods.map (·.name) ∧ m.1 ∈ (a.promoted u).map (·.name))) ∧
      ∀ s ∈ a.promoted u,
        s.name ∉ a.methods.map (·.name) ∧ s.name ∉ a.fields.map (·.name) ∧ s.name ∉ a.embeds.map (·.name) := by
  have hhidden : ∀ s ∈ a.promoted u,
      s.name ∉ a.methods.map (·.name) ∧ s.name ∉ a.fields.map (·.name) ∧ s.name ∉ a.embeds.map (·.name) := by
    intro s hs
    obtain ⟨⟨name, hget⟩, hpos⟩ := mem_promoted_iff.1 hs
    obtain ⟨rfl, ⟨hzero, -⟩ | ⟨-, hnot⟩⟩ := of_get?_methodSet h hget
    · omega
    · simpa [memberNames, List.mem_append, not_or, and_assoc] using hnot
  refine ⟨fun i hi m hm => ⟨?_, ?_⟩, hhidden⟩
  · have himplements : u.implements a.type.toPointer i.underlying = true := (Bool.and_eq_true_iff.1 hi).2
    obtain ⟨s, hget, hsame⟩ := Universe.implements_iff.1 himplements m.1 m.2 (Table.mem_entries_iff.1 hm)
    obtain ⟨hname, ⟨-, d, hd, hdname, hdsig⟩ | ⟨hpos, -⟩⟩ := of_get?_methodSet h hget
    · exact .inl ⟨d, hd, hdname, by rwa [hdsig]⟩
    · exact .inr ⟨s, mem_promoted_iff.2 ⟨⟨m.1, hget⟩, hpos⟩, hname, hsame⟩
  · rintro ⟨hdeclared, hpromoted⟩
    obtain ⟨s, hs, hname⟩ := List.mem_map.1 hpromoted
    exact (hhidden s hs).1 (hname ▸ hdeclared)

open Universe

/-- Secured connections as an aggregate: a connection is embedded, and `State` is a field. -/
def securedConn : Aggregate where
  pos := .unknown
  type := .named ⟨"net", "TLSConn"⟩
  name := "TLSConn"
  package := ⟨"net", "net"⟩
  methods := [⟨"Handshake", acting, false, .unknown⟩, ⟨"Reset", acting, true, .unknown⟩]
  fields := [⟨"State", .basic .int, false⟩]
  embeds := [⟨"Conn", .pointer (.named ⟨"net", "Conn"⟩), .aggregate⟩]

/-- Sessions as an interface. -/
def sessions : Interface where
  pos := .unknown
  type := .named ⟨"net", "Session"⟩
  underlying := session
  name := "Session"
  package := ⟨"net", "net"⟩
  methods := [⟨"Handshake", acting, false, .unknown⟩, ⟨"Close", closing, false, .unknown⟩]
  embeds := []
  methodSet := net.interfaceMethods session

theorem sessions_implementedBy : sessions.implementedBy net securedConn.type = true := by
  have hpointer : ∀ {name s}, net.Selects securedConn.type name s →
      (net.methodSet securedConn.type.toPointer).get? name = some s := fun h =>
    (get?_methodSet_iff fun _ => rfl).2 h.toPointer
  have hasks : sessions.isEmpty = false := by
    show (net.interfaceMethods session).entries.isEmpty = false
    rw [entries_session]
    rfl
  rw [Interface.implementedBy, hasks]
  exact implements_session (hpointer selects_close) rfl (hpointer selects_handshake) rfl

/-- A secured connection is a session: it has `Handshake` itself and `Close` from the connection in it.  Its field `State`
hides the method of the connection. -/
theorem securedConn_explained :
    Aggregate.ofObject? net ⟨"net", "net"⟩ (.defined "TLSConn" .unknown ⟨"net", "net"⟩) = some securedConn ∧
      Interface.ofObject? net ⟨"net", "net"⟩ (.defined "Session" .unknown ⟨"net", "net"⟩) = some sessions ∧
      sessions.implementedBy net securedConn.type = true ∧
      (∃ d ∈ securedConn.methods, net.SameMethod (d.name, d.signature) ("Handshake", acting)) ∧
      (∃ s ∈ securedConn.promoted net, net.SameMethod (s.name, s.signature) ("Close", closing)) ∧
      "State" ∉ (securedConn.promoted net).map (·.name) := by
  have hextract : Aggregate.ofObject? net ⟨"net", "net"⟩ (.defined "TLSConn" .unknown ⟨"net", "net"⟩) =
    some securedConn := rfl
  obtain ⟨hexplained, hhidden⟩ := declared_or_promoted hextract
  have hmethods := hexplained sessions sessions_implementedBy
  rw [show sessions.underlying = session from rfl, entries_session, List.forall_mem_cons, List.forall_mem_singleton]
    at hmethods
  obtain ⟨⟨hclose, -⟩, ⟨hhandshake, -⟩⟩ := hmethods
  refine ⟨hextract, rfl, sessions_implementedBy, ?_, ?_, fun hstate => ?_⟩
  · refine hhandshake.resolve_right ?_
    rintro ⟨s, hs, hname, -⟩
    have hname : s.name = "Handshake" := hname
    exact (hhidden s hs).1 (by rw [hname]; decide)
  · refine hclose.resolve_left ?_
    rintro ⟨d, hd, hname, -⟩
    have hdeclared : "Close" ∈ securedConn.methods.map (·.name) := List.mem_map.2 ⟨d, hd, hname⟩
    exact absurd hdeclared (by decide)
  · obtain ⟨s, hs, hname⟩ := List.mem_map.1 hstate
    exact (hhidden s hs).2.1 (by rw [hname]; decide)

end Aggregate

end TypeAtlas
