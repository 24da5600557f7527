import Mathlib.Data.List.Forall2
import TypeAtlas.Proofs.ComparisonDepth

/-!
# Identity of types is an equivalence

A comparison of types need not end.  Where it ends it behaves like an equivalence (`Universe.identity_laws`), and on
types without interfaces it is equality.

All this is read off one description of a comparison.  A type is laid out as a row of slots, each of which is a mark or
a type (`Universe.layout`); an interface is laid out by the methods that it asks for.  Comparing two types one level
deep is comparing their rows from the front (`Universe.identicalWithin_succ`).  So a law of comparisons is a law of
comparing rows, lifted from level to level.

The law that carries most is that identical types cannot be told apart: every comparison with the one comes out like
the comparison with the other, also where it does not end (`Universe.identicalWithin_congr`).
-/

namespace TypeAtlas

/-! ## Comparing rows -/

section Rows

variable {α β : Type} {same same' : α → α → Option Bool}

/-- Rows of which the front parts have one length are compared part by part. -/
theorem agreeItems_append {xs ys : List α} (h : xs.length = ys.length) (xs' ys' : List α) :
    agreeItems same (xs ++ xs') (ys ++ ys') =
      (do if ← agreeItems same xs ys then agreeItems same xs' ys' else return false) := by
  induction xs generalizing ys with
  | nil =>
    obtain rfl := List.length_eq_zero_iff.1 h.symm
    rfl
  | cons x xs ih =>
    obtain ⟨y, ys, rfl⟩ := List.exists_cons_of_length_eq_add_one h.symm
    simp only [List.cons_append, agreeItems, ih (Nat.succ.inj h)]
    rcases same x y with _ | _ | _ <;> rfl

theorem agreeItems_map (f : β → α) : ∀ xs ys : List β,
    agreeItems same (xs.map f) (ys.map f) = agreeItems (fun x y => same (f x) (f y)) xs ys
  | [], [] => rfl
  | [], _ :: _ => rfl
  | _ :: _, [] => rfl
  | x :: xs, y :: ys => by simp only [List.map_cons, agreeItems, agreeItems_map f xs ys]

/-- Rows made of blocks are compared block by block, if a block that differs settles the comparison. -/
theorem agreeItems_flatMap {f : β → List α} {one : β → β → Option Bool}
    (h : ∀ x y r r', agreeItems same (f x ++ r) (f y ++ r') =
      (do if ← one x y then agreeItems same r r' else return false))
    {xs ys : List β} (hlen : xs.length = ys.length) :
    agreeItems same (xs.flatMap f) (ys.flatMap f) = agreeItems one xs ys := by
  induction xs generalizing ys with
  | nil =>
    obtain rfl := List.length_eq_zero_iff.1 hlen.symm
    rfl
  | cons x xs ih =>
    obtain ⟨y, ys, rfl⟩ := List.exists_cons_of_length_eq_add_one hlen.symm
    simp only [List.flatMap_cons, h, agreeItems, ih (Nat.succ.inj hlen)]

theorem agreeItems_comm (h : ∀ x y, same x y = same y x) : ∀ xs ys : List α,
    agreeItems same xs ys = agreeItems same ys xs
  | [], [] => rfl
  | [], _ :: _ => rfl
  | _ :: _, [] => rfl
  | x :: xs, y :: ys => by simp only [agreeItems, h x y, agreeItems_comm h xs ys]

/-- A row agrees with itself if the comparison ends. -/
theorem agreeItems_self (h : ∀ x b, same x x = some b → b = true) {xs : List α} {b : Bool}
    (hb : agreeItems same xs xs = some b) : b = true := by
  induction xs with
  | nil => exact (Option.some.inj hb).symm
  | cons x xs ih =>
    obtain ⟨c, hc, hb⟩ := Option.bind_eq_some_iff.1 hb
    obtain rfl := h x c hc
    exact ih hb

/-- Rows that agree do so item by item. -/
theorem forall₂_of_agreeItems : ∀ {xs ys : List α}, agreeItems same xs ys = some true →
    List.Forall₂ (fun x y => same x y = some true) xs ys
  | [], [], _ => .nil
  | [], _ :: _, h => nomatch h
  | _ :: _, [], h => nomatch h
  | x :: xs, y :: ys, h => by
    obtain ⟨b, hb, h⟩ := Option.bind_eq_some_iff.1 h
    cases b with
    | true => exact .cons hb (forall₂_of_agreeItems h)
    | false => cases h

/-- Rows that agree are compared alike with every other row. -/
theorem agreeItems_congr (h : ∀ x y z, same' y z = some true → same x y = same x z) {ys zs : List α}
    (hyz : agreeItems same' ys zs = some true) (xs : List α) : agreeItems same xs ys = agreeItems same xs zs := by
  have hitems := forall₂_of_agreeItems hyz
  clear hyz
  induction hitems generalizing xs with
  | nil => rfl
  | @cons y z _ _ hyz _ ih =>
    cases xs with
    | nil => rfl
    | cons x xs => simp only [agreeItems, h x y z hyz, ih xs]

/-- Where items are told apart by equality, rows are. -/
theorem agreeItems_eq_decide [DecidableEq α] : ∀ {xs : List α}, (∀ x ∈ xs, ∀ y, same x y = some (decide (x = y))) →
    ∀ ys : List α, agreeItems same xs ys = some (decide (xs = ys))
  | [], _, [] => rfl
  | [], _, _ :: _ => rfl
  | _ :: _, _, [] => rfl
  | x :: xs, h, y :: ys => by
    have hrest := agreeItems_eq_decide (fun z hz => h z (List.mem_cons_of_mem x hz)) ys
    simp only [agreeItems, h x List.mem_cons_self y, hrest]
    by_cases hxy : x = y <;> simp [hxy]

end Rows

/-! ## How types are laid out -/

/-- What a comparison sees of a type before it looks at the types inside. -/
inductive Mark where
  | basic (kind : BasicKind)
  | named (name : TypeName)
  | pointer
  | slice
  | array (len : UInt64)
  | map
  | chan (dir : ChanDir)
  | func
  | struct (fields : Nat)
  | interface (methods : Nat)
  | signature (variadic : Bool) (params results : Nat)
  | field (name : String) (embedded : Bool)
  | method (name : String)
deriving DecidableEq

/-- One place in the layout of a type. -/
inductive Slot where
  | mark (m : Mark)
  | type (t : Ty)
deriving DecidableEq

namespace Slot

/-- How slots are compared, given identity of types. -/
def compareBy (same : Ty → Ty → Option Bool) : Slot → Slot → Option Bool
  | mark m, mark n => some (decide (m = n))
  | type s, type t => same s t
  | _, _ => some false

variable {same same' : Ty → Ty → Option Bool}

/-- Marks that differ settle a comparison. -/
theorem agreeItems_mark (m n : Mark) (xs ys : List Slot) :
    agreeItems (compareBy same) (mark m :: xs) (mark n :: ys) =
      if m = n then agreeItems (compareBy same) xs ys else some false := by
  by_cases h : m = n <;> simp [agreeItems, compareBy, h]

/-- A single type at the end settles a comparison. -/
theorem agreeItems_type (s t : Ty) : agreeItems (compareBy same) [type s] [type t] = same s t := by
  rcases h : same s t with _ | _ | _ <;> simp [agreeItems, compareBy, h]

theorem compareBy_comm (h : ∀ s t, same s t = same t s) : ∀ x y, compareBy same x y = compareBy same y x
  | mark m, mark n => by simp only [compareBy, eq_comm]
  | type s, type t => h s t
  | mark _, type _ => rfl
  | type _, mark _ => rfl

theorem compareBy_self (h : ∀ t b, same t t = some b → b = true) : ∀ x b, compareBy same x x = some b → b = true
  | mark m, b, hb => by simpa [compareBy] using hb.symm
  | type t, b, hb => h t b hb

theorem compareBy_congr (h : ∀ r s t, same' s t = some true → same r s = same r t) :
    ∀ x y z, compareBy same' y z = some true → compareBy same x y = compareBy same x z
  | x, mark m, mark n, hyz => by
    obtain rfl : m = n := by simpa [compareBy] using hyz
    rfl
  | mark _, type _, type _, _ => rfl
  | type r, type s, type t, hyz => h r s t hyz
  | _, mark _, type _, hyz => nomatch hyz
  | _, type _, mark _, hyz => nomatch hyz

/-- Layouts that agree are compared alike with every other one, if identical types are. -/
theorem agreeItems_compareBy_congr {ys zs : List Slot} (hyz : agreeItems (compareBy same') ys zs = some true)
    (h : ∀ r s t, same' s t = some true → same r s = same r t) (xs : List Slot) :
    agreeItems (compareBy same) xs ys = agreeItems (compareBy same) xs zs :=
  agreeItems_congr (compareBy_congr h) hyz xs

end Slot

/-- The layout of a signature: its kind and the numbers of its types, then the types. -/
def Signature.layout (s : Signature) : List Slot :=
  .mark (.signature s.variadic s.params.length s.results.length) :: s.types.map .type

/-- The layout of a field. -/
def Field.layout (f : Field) : List Slot := [.mark (.field f.name f.embedded), .type f.type]

/-- The layout of a method. -/
def Signature.layoutNamed (m : String × Signature) : List Slot := .mark (.method m.1) :: m.2.layout

section Layouts

variable {same : Ty → Ty → Option Bool}

/-- **Comparing signatures is comparing their layouts,** whatever comes after them. -/
theorem Signature.agreeItems_layout (s t : Signature) (r r' : List Slot) :
    agreeItems (Slot.compareBy same) (s.layout ++ r) (t.layout ++ r') =
      (do if ← s.identicalBy same t then agreeItems (Slot.compareBy same) r r' else return false) := by
  simp only [layout, types, identicalBy, List.cons_append, Slot.agreeItems_mark, Mark.signature.injEq]
  split
  case isFalse => rfl
  case isTrue h =>
    have htypes : (s.params.map Slot.type ++ s.results.map Slot.type).length =
        (t.params.map Slot.type ++ t.results.map Slot.type).length := by
      simp only [List.length_append, List.length_map]
      omega
    have hparams : (s.params.map Slot.type).length = (t.params.map Slot.type).length := by
      simpa using h.2.1
    rw [List.map_append, List.map_append, agreeItems_append htypes, agreeItems_append hparams, agreeItems_map,
      agreeItems_map]
    rfl

theorem Signature.identicalBy_eq (s t : Signature) :
    s.identicalBy same t = agreeItems (Slot.compareBy same) s.layout t.layout := by
  have h := @Signature.agreeItems_layout same s t [] []
  rw [List.append_nil, List.append_nil] at h
  rw [h]
  rcases s.identicalBy same t with _ | _ | _ <;> rfl

theorem Field.agreeItems_layout (f g : Field) (r r' : List Slot) :
    agreeItems (Slot.compareBy same) (f.layout ++ r) (g.layout ++ r') =
      (do if ← f.identicalBy same g then agreeItems (Slot.compareBy same) r r' else return false) := by
  simp only [layout, identicalBy, List.cons_append, List.nil_append, Slot.agreeItems_mark, Mark.field.injEq]
  split <;> rfl

theorem Signature.agreeItems_layoutNamed (m n : String × Signature) (r r' : List Slot) :
    agreeItems (Slot.compareBy same) (layoutNamed m ++ r) (layoutNamed n ++ r') =
      (do if ← identicalNamed same m n then agreeItems (Slot.compareBy same) r r' else return false) := by
  simp only [layoutNamed, identicalNamed, List.cons_append, Slot.agreeItems_mark, Mark.method.injEq,
    Signature.agreeItems_layout]
  split <;> rfl

end Layouts

namespace Universe

/-- The layout of a type. -/
def layout (u : Universe) : Ty → List Slot
  | .basic k => [.mark (.basic k)]
  | .named n => [.mark (.named n)]
  | .pointer t => [.mark .pointer, .type t]
  | .slice t => [.mark .slice, .type t]
  | .array n t => [.mark (.array n), .type t]
  | .map k t => [.mark .map, .type k, .type t]
  | .chan d t => [.mark (.chan d), .type t]
  | .func s => .mark .func :: s.layout
  | .struct fs => .mark (.struct fs.length) :: fs.flatMap Field.layout
  | .interface i =>
    .mark (.interface (u.interfaceMethods i).size) :: (u.interfaceMethods i).entries.flatMap Signature.layoutNamed

/-- **Comparing types one level deep is comparing their layouts.** -/
theorem identicalWithin_succ (u : Universe) (depth : Nat) (s t : Ty) :
    u.identicalWithin (depth + 1) s t =
      agreeItems (Slot.compareBy (u.identicalWithin depth)) (u.layout s) (u.layout t) := by
  cases s <;> cases t
  case basic.basic a b => by_cases h : a = b <;> simp [identicalWithin, layout, Slot.agreeItems_mark, agreeItems, h]
  case named.named m n => by_cases h : m = n <;> simp [identicalWithin, layout, Slot.agreeItems_mark, agreeItems, h]
  case pointer.pointer s t | slice.slice s t =>
    rw [identicalWithin, layout, layout, Slot.agreeItems_mark, if_pos rfl, Slot.agreeItems_type]
  case array.array m s n t =>
    simp only [identicalWithin, layout, Slot.agreeItems_mark, Mark.array.injEq, Slot.agreeItems_type]
  case chan.chan d s e t =>
    simp only [identicalWithin, layout, Slot.agreeItems_mark, Mark.chan.injEq, Slot.agreeItems_type]
  case map.map k s l t =>
    rw [identicalWithin, layout, layout, Slot.agreeItems_mark, if_pos rfl, agreeItems, Slot.agreeItems_type]
    rfl
  case func.func s t =>
    rw [identicalWithin, layout, layout, Slot.agreeItems_mark, if_pos rfl, Signature.identicalBy_eq]
  case struct.struct fs gs =>
    simp only [identicalWithin, layout, Slot.agreeItems_mark, Mark.struct.injEq, agree]
    split
    case isTrue h => exact (agreeItems_flatMap Field.agreeItems_layout h).symm
    case isFalse => rfl
  case interface.interface i j =>
    simp only [identicalWithin, layout, Slot.agreeItems_mark, Mark.interface.injEq, agree, Table.size]
    split
    case isTrue h => exact (agreeItems_flatMap Signature.agreeItems_layoutNamed h).symm
    case isFalse => rfl
  -- Types of different shapes have different first marks.
  all_goals rfl

/-! ## The laws of comparisons -/

variable {u : Universe}

/-- **Types are compared in either order with the same outcome.** -/
theorem identicalWithin_comm (u : Universe) (depth : Nat) (s t : Ty) :
    u.identicalWithin depth s t = u.identicalWithin depth t s := by
  induction depth generalizing s t with
  | zero => rw [identicalWithin, identicalWithin]
  | succ depth ih =>
    rw [identicalWithin_succ, identicalWithin_succ]
    exact agreeItems_comm (Slot.compareBy_comm ih) _ _

/-- **A comparison of a type with itself that ends says yes.** -/
theorem identicalWithin_self {depth : Nat} {t : Ty} {b : Bool} (hb : u.identicalWithin depth t t = some b) :
    b = true := by
  induction depth generalizing t b with
  | zero =>
    rw [identicalWithin] at hb
    cases hb
  | succ depth ih =>
    rw [identicalWithin_succ] at hb
    exact agreeItems_self (Slot.compareBy_self fun _ _ => ih) hb

/-- **Identical types cannot be told apart by a comparison of any depth.** -/
theorem identicalWithin_congr {e : Nat} {s t : Ty} (h : u.identicalWithin e s t = some true) (depth : Nat) (r : Ty) :
    u.identicalWithin depth r s = u.identicalWithin depth r t := by
  induction depth generalizing e r s t with
  | zero => rw [identicalWithin, identicalWithin]
  | succ depth ih =>
    cases e with
    | zero =>
      rw [identicalWithin] at h
      cases h
    | succ e =>
      rw [identicalWithin_succ] at h
      rw [identicalWithin_succ, identicalWithin_succ]
      exact Slot.agreeItems_compareBy_congr h (fun r s t hst => ih hst r) _

theorem identicalBy_comm (u : Universe) (depth : Nat) (s t : Signature) :
    s.identicalBy (u.identicalWithin depth) t = t.identicalBy (u.identicalWithin depth) s := by
  rw [Signature.identicalBy_eq, Signature.identicalBy_eq]
  exact agreeItems_comm (Slot.compareBy_comm (u.identicalWithin_comm depth)) _ _

theorem identicalBy_self {depth : Nat} {s : Signature} {b : Bool}
    (hb : s.identicalBy (u.identicalWithin depth) s = some b) : b = true := by
  rw [Signature.identicalBy_eq] at hb
  exact agreeItems_self (Slot.compareBy_self fun _ _ => identicalWithin_self) hb

/-- **Identical signatures cannot be told apart by a comparison of any depth.** -/
theorem identicalBy_congr {e : Nat} {s t : Signature} (h : s.identicalBy (u.identicalWithin e) t = some true)
    (depth : Nat) (r : Signature) :
    r.identicalBy (u.identicalWithin depth) s = r.identicalBy (u.identicalWithin depth) t := by
  rw [Signature.identicalBy_eq] at h
  rw [Signature.identicalBy_eq, Signature.identicalBy_eq]
  exact Slot.agreeItems_compareBy_congr h (fun r s t hst => identicalWithin_congr hst depth r) _

theorem identicalBy_mono {d e : Nat} (hde : d ≤ e) {s t : Signature} {b : Bool}
    (hb : s.identicalBy (u.identicalWithin d) t = some b) : s.identicalBy (u.identicalWithin e) t = some b := by
  have hkeeps : Keeps (fun _ => True) (u.identicalWithin d) (u.identicalWithin e) :=
    fun _ _ _ _ _ => identicalWithin_mono hde
  exact hkeeps.signature (fun _ _ => trivial) (fun _ _ => trivial) hb

/-- **An answer of any depth is the answer.** -/
theorem identicalSignatures_eq {depth : Nat} {s t : Signature} {b : Bool}
    (hb : s.identicalBy (u.identicalWithin depth) t = some b) : u.identicalSignatures s t = b := by
  rw [Bool.eq_iff_iff, identicalSignatures_iff]
  constructor
  · rintro ⟨e, he⟩
    have hdeep := identicalBy_mono (Nat.le_add_left e depth) he
    rw [identicalBy_mono (Nat.le_add_right depth e) hb] at hdeep
    exact Option.some.inj hdeep
  · rintro rfl
    exact ⟨depth, hb⟩

theorem identicalSignatures_congr {s t : Signature} (h : u.identicalSignatures s t = true) (r : Signature) :
    u.identicalSignatures r s = u.identicalSignatures r t := by
  obtain ⟨e, he⟩ := identicalSignatures_iff.1 h
  rw [Bool.eq_iff_iff, identicalSignatures_iff, identicalSignatures_iff]
  simp only [identicalBy_congr he _ r]

end Universe

/-! ## Types without interfaces -/

/-- Whether no interface is written in a type.  It may mention names that stand for interfaces. -/
def Ty.InterfaceFree (t : Ty) : Prop := ∀ p ∈ t.parts, p.asInterface? = none

theorem Ty.InterfaceFree.direct {c t : Ty} (h : t.InterfaceFree) (hc : c ∈ t.direct) : c.InterfaceFree := by
  intro p hp
  refine h p ?_
  rw [t.parts_eq]
  exact List.mem_cons_of_mem t (List.mem_flatMap.2 ⟨c, hc, hp⟩)

theorem Signature.layout_inj {s t : Signature} : s.layout = t.layout ↔ s = t := by
  constructor
  · obtain ⟨ps, rs, v⟩ := s
    obtain ⟨qs, ss, w⟩ := t
    simp only [layout, types, List.cons.injEq, Slot.mark.injEq, Mark.signature.injEq, List.map_append,
      Signature.mk.injEq]
    rintro ⟨⟨rfl, hparams, -⟩, htypes⟩
    obtain ⟨hparams, hresults⟩ := List.append_inj htypes (by simpa using hparams)
    have hinj : Function.Injective Slot.type := fun _ _ => Slot.type.inj
    exact ⟨List.map_injective_iff.2 hinj hparams, List.map_injective_iff.2 hinj hresults, rfl⟩
  · rintro rfl
    rfl

theorem Field.eq_of_flatMap_layout : ∀ {fs gs : List Field}, fs.flatMap Field.layout = gs.flatMap Field.layout → fs = gs
  | [], [], _ => rfl
  | [], _ :: _, h => nomatch h
  | _ :: _, [], h => nomatch h
  | ⟨m, s, d⟩ :: fs, ⟨n, t, e⟩ :: gs, h => by
    simp only [List.flatMap_cons, layout, List.cons_append, List.nil_append, List.cons.injEq, Slot.mark.injEq,
      Mark.field.injEq, Slot.type.injEq] at h
    obtain ⟨⟨rfl, rfl⟩, rfl, h⟩ := h
    rw [eq_of_flatMap_layout h]

theorem Field.flatMap_layout_inj {fs gs : List Field} : fs.flatMap Field.layout = gs.flatMap Field.layout ↔ fs = gs :=
  ⟨eq_of_flatMap_layout, congrArg _⟩

namespace Universe

variable {u : Universe}

/-- A type that is no interface is told by its layout. -/
theorem layout_inj {s t : Ty} (hs : s.asInterface? = none) : u.layout s = u.layout t ↔ s = t := by
  cases s <;> cases t <;>
    simp_all [layout, Ty.asInterface?, Signature.layout_inj, Field.flatMap_layout_inj]

/-- The types in the layout of a type that is no interface are those of which it is made. -/
theorem mem_direct_of_mem_layout {s c : Ty} (hs : s.asInterface? = none) (hc : .type c ∈ u.layout s) :
    c ∈ s.direct := by
  cases s with
  | interface i => cases hs
  | basic k => simp [layout] at hc
  | named n => simp [layout] at hc
  | func s => simpa [layout, Signature.layout, Ty.direct] using hc
  | struct fs => simpa [layout, Field.layout, Ty.direct, eq_comm] using hc
  | _ => simpa [layout, Ty.direct] using hc

/-- **A type without interfaces is compared by equality,** and the comparison ends. -/
theorem identicalWithin_of_interfaceFree {depth : Nat} {s : Ty} (hs : s.InterfaceFree) (hdepth : s.size ≤ depth)
    (t : Ty) : u.identicalWithin depth s t = some (decide (s = t)) := by
  induction depth generalizing s t with
  | zero =>
    have := s.size_pos
    omega
  | succ depth ih =>
    have hshape : s.asInterface? = none := hs s s.self_mem_parts
    have hslots : ∀ x ∈ u.layout s, ∀ y, Slot.compareBy (u.identicalWithin depth) x y = some (decide (x = y)) := by
      intro x hx y
      cases x with
      | mark m => cases y <;> simp [Slot.compareBy]
      | type c =>
        have hc : c ∈ s.direct := mem_direct_of_mem_layout hshape hx
        have hsize : c.size < s.size := Ty.size_lt_of_mem_direct hc
        cases y with
        | mark n => simp [Slot.compareBy]
        | type r => simp [Slot.compareBy, ih (hs.direct hc) (by omega) r]
    rw [identicalWithin_succ, agreeItems_eq_decide hslots]
    simp only [layout_inj hshape]

end Universe

/-! ## The equivalence -/

/-- Whether a comparison ends.  `within depth` goes at most `depth` deep, and has no answer where that is not enough. -/
def Ends {α : Type} (within : Nat → α → α → Option Bool) (x y : α) : Prop := ∃ depth b, within depth x y = some b

/-- `same` is the yes of a comparison that behaves like an equivalence where it ends. -/
structure EquivalenceWhereEnding {α : Type} (within : Nat → α → α → Option Bool) (same : α → α → Bool) : Prop where
  same_iff : ∀ x y, same x y = true ↔ ∃ depth, within depth x y = some true
  refl : ∀ x, Ends within x x → same x x = true
  /-- The order makes no difference, also to whether the comparison ends. -/
  symm : ∀ x y, same x y = same y x ∧ ∀ depth, within depth x y = within depth y x
  trans : ∀ x y z, same x y = true → same y z = true → Ends within x z ∧ same x z = true

/-- A comparison has the laws if it has them at every depth and identical things cannot be told apart. -/
theorem EquivalenceWhereEnding.of_within {α : Type} {within : Nat → α → α → Option Bool} {same : α → α → Bool}
    (hsame : ∀ x y, same x y = true ↔ ∃ depth, within depth x y = some true)
    (hself : ∀ depth x b, within depth x x = some b → b = true)
    (hcomm : ∀ depth x y, within depth x y = within depth y x)
    (hcongr : ∀ e x y, within e x y = some true → ∀ depth z, within depth z x = within depth z y) :
    EquivalenceWhereEnding within same where
  same_iff := hsame
  refl x hx := by
    obtain ⟨depth, b, hb⟩ := hx
    obtain rfl := hself depth x b hb
    exact (hsame x x).2 ⟨depth, hb⟩
  symm x y := by
    refine ⟨?_, fun depth => hcomm depth x y⟩
    rw [Bool.eq_iff_iff, hsame, hsame]
    simp only [hcomm _ x y]
  trans x y z hxy hyz := by
    obtain ⟨d, hxy⟩ := (hsame x y).1 hxy
    obtain ⟨e, hyz⟩ := (hsame y z).1 hyz
    have hxz : within d x z = some true := by rw [← hcongr e y z hyz d x, hxy]
    exact ⟨⟨d, true, hxz⟩, (hsame x z).2 ⟨d, hxz⟩⟩

namespace Universe

/-- **Identity is an equivalence where its comparisons end,** for types and for signatures.  A type in which no interface
is written is identical to itself alone, and comparisons with it end. -/
theorem identity_laws (u : Universe) :
    EquivalenceWhereEnding u.identicalWithin u.identical ∧
      EquivalenceWhereEnding (fun depth s t => s.identicalBy (u.identicalWithin depth) t) u.identicalSignatures ∧
      ∀ s t : Ty, s.InterfaceFree → Ends u.identicalWithin s t ∧ (u.identical s t = true ↔ s = t) := by
  refine ⟨.of_within (fun _ _ => identical_iff) (fun _ _ _ => identicalWithin_self) u.identicalWithin_comm
    (fun _ _ _ => identicalWithin_congr), .of_within (fun _ _ => identicalSignatures_iff) (fun _ _ _ => identicalBy_self)
    u.identicalBy_comm (fun _ _ _ => identicalBy_congr), fun s t hs => ?_⟩
  have hanswer : ∀ depth, s.size ≤ depth → u.identicalWithin depth s t = some (decide (s = t)) :=
    fun depth hdepth => identicalWithin_of_interfaceFree hs hdepth t
  refine ⟨⟨s.size, _, hanswer s.size le_rfl⟩, ?_⟩
  rw [identical_iff]
  constructor
  · rintro ⟨depth, h⟩
    have hdeep := identicalWithin_mono (Nat.le_add_right depth s.size) h
    rw [hanswer _ (Nat.le_add_left s.size depth)] at hdeep
    simpa using hdeep
  · rintro rfl
    exact ⟨s.size, by simpa using hanswer s.size le_rfl⟩

/-- `() string` -/
def reading : Signature := ⟨[], [.basic .string], false⟩

/-- `(string)` -/
def writing : Signature := ⟨[.basic .string], [], false⟩

/-- Asks for reading and writing by embedding. -/
def embedsBoth : InterfaceType := ⟨[], [.named ⟨"p", "Reader"⟩, .named ⟨"p", "Writer"⟩]⟩

/-- Asks for both by methods of its own. -/
def listsBoth : InterfaceType := ⟨[⟨"Write", writing⟩, ⟨"Read", reading⟩], []⟩

/-- Asks for the one by embedding and for the other by a method of its own. -/
def embedsReader : InterfaceType := ⟨[⟨"Write", writing⟩], [.named ⟨"p", "Reader"⟩]⟩

/-- Embeds an interface with a method whose result is this one again. -/
def endless : InterfaceType := ⟨[], [.named ⟨"p", "Node"⟩]⟩

/-- A signature with one parameter, of an interface type. -/
def copying (i : InterfaceType) : Signature := ⟨[.interface i], [], false⟩

/-- Asks for reading, writing and copying to what has both, and embeds itself. -/
def copier : InterfaceType :=
  ⟨[⟨"Copy", copying embedsBoth⟩], [.named ⟨"p", "Copier"⟩, .named ⟨"p", "Reader"⟩, .named ⟨"p", "Writer"⟩]⟩

/-- A package of interfaces, and a struct with the methods of a copier, one of which needs a pointer. -/
def streams : Universe :=
  let interfaces := (((initial.define ⟨"p", "Reader"⟩ (.interface ⟨[⟨"Read", reading⟩], []⟩)).define ⟨"p", "Writer"⟩
    (.interface ⟨[⟨"Write", writing⟩], []⟩)).define ⟨"p", "Node"⟩
      (.interface ⟨[⟨"Next", ⟨[], [.interface endless], false⟩⟩], []⟩)).define ⟨"p", "Copier"⟩ (.interface copier)
  (((interfaces.define ⟨"p", "File"⟩ (.struct [])).addMethod ⟨"p", "File"⟩ ⟨"Read", reading, false, .unknown⟩).addMethod
    ⟨"p", "File"⟩ ⟨"Write", writing, true, .unknown⟩).addMethod ⟨"p", "File"⟩
      ⟨"Copy", copying listsBoth, false, .unknown⟩

theorem streams_reader : streams.interfaceOf? (.named ⟨"p", "Reader"⟩) = some ⟨[⟨"Read", reading⟩], []⟩ := rfl

theorem streams_writer : streams.interfaceOf? (.named ⟨"p", "Writer"⟩) = some ⟨[⟨"Write", writing⟩], []⟩ := rfl

theorem interfaceMethods_embedsBoth :
    streams.interfaceMethods embedsBoth = .ofList [("Read", reading), ("Write", writing)] := by
  rw [interfaceMethods, embedsBoth, collect_of_interfaceOf? rfl streams_reader, List.nil_append,
    collect_of_interfaceOf? rfl streams_writer, List.append_nil, collect_nil]
  rfl

theorem interfaceMethods_listsBoth :
    streams.interfaceMethods listsBoth = .ofList [("Read", reading), ("Write", writing)] := by
  rw [interfaceMethods, listsBoth, collect_nil]
  rfl

theorem interfaceMethods_embedsReader :
    streams.interfaceMethods embedsReader = .ofList [("Read", reading), ("Write", writing)] := by
  rw [interfaceMethods, embedsReader, collect_of_interfaceOf? rfl streams_reader, List.append_nil, collect_nil]
  rfl

/-- Interfaces that ask for reading and writing are identical, whichever way they do. -/
theorem streams_identical {i j : InterfaceType}
    (hi : streams.interfaceMethods i = .ofList [("Read", reading), ("Write", writing)])
    (hj : streams.interfaceMethods j = .ofList [("Read", reading), ("Write", writing)]) :
    streams.identical (.interface i) (.interface j) = true := by
  refine identical_iff.2 ⟨2, ?_⟩
  rw [identicalWithin, hi, hj]
  rfl

/-- Comparing `endless` with itself goes round in a circle. -/
theorem identicalWithin_endless (depth : Nat) :
    streams.identicalWithin depth (.interface endless) (.interface endless) = none := by
  have hnode : streams.interfaceOf? (.named ⟨"p", "Node"⟩) =
      some ⟨[⟨"Next", ⟨[], [.interface endless], false⟩⟩], []⟩ := rfl
  have hmethods : (streams.interfaceMethods endless).entries = [("Next", ⟨[], [.interface endless], false⟩)] := by
    rw [interfaceMethods, endless, collect_of_interfaceOf? rfl hnode, List.append_nil, collect_nil]
    rfl
  induction depth with
  | zero => rw [identicalWithin]
  | succ depth ih =>
    rw [identicalWithin, hmethods]
    simp [agree, agreeItems, Signature.identicalNamed, Signature.identicalBy, ih]

/-- Three descriptions of one interface are identical, and a map to a defined type is identical to itself.  But comparing
what that type is made of with itself does not end. -/
theorem streams_identity :
    streams.identical (.interface embedsBoth) (.interface listsBoth) = true ∧
      streams.identical (.interface listsBoth) (.interface embedsReader) = true ∧
      streams.identical (.interface embedsReader) (.interface embedsBoth) = true ∧
      streams.identical (.map (.basic .string) (.named ⟨"p", "Node"⟩)) (.map (.basic .string) (.named ⟨"p", "Node"⟩)) =
        true ∧
      ¬ Ends streams.identicalWithin (.interface endless) (.interface endless) := by
  obtain ⟨htypes, -, hfree⟩ := identity_laws streams
  have h₁ := streams_identical interfaceMethods_embedsBoth interfaceMethods_listsBoth
  have h₂ := streams_identical interfaceMethods_listsBoth interfaceMethods_embedsReader
  refine ⟨h₁, h₂, ?_, ?_, ?_⟩
  · rw [(htypes.symm _ _).1]
    exact (htypes.trans _ _ _ h₁ h₂).2
  · refine (hfree _ _ ?_).2.2 rfl
    simp [Ty.InterfaceFree, Ty.parts_eq, Ty.direct, Ty.asInterface?]
  · rintro ⟨depth, b, hb⟩
    rw [identicalWithin_endless] at hb
    cases hb

end Universe

end TypeAtlas
