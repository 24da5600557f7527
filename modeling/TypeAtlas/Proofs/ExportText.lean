import TypeAtlas.Export.Codec
import TypeAtlas.Proofs.WrittenText

/-!
# Exports survive being written

Decoding undoes encoding for everything that is part of an export, as long as it does not nest too deep.

* A record with all its fields is read field by field (`Json.fields?_obj`), a tagged value as the record of its kind
  (`Json.tagged?_obj`).
* The JSON form of a type starts with its tag and then holds what belongs to its kind (`Ty.encode_eq`).  Given
  that the parts of a type are decoded (`Ty.Parts.Undo`), so is the type (`Ty.ofRecord?_members`); the theorems about
  types, signatures, fields and methods follow by recursion on the room that is left (`Ty.decode_encode`).
* What is encoded is faithful: every number in it has at most 64 bits.  So its text is read as it was
  (`Json.parse?_render`).

Together, an export is read back from its own text (`PackageExport.parse_render_of_nesting_lt`).
-/

namespace TypeAtlas

open Json (Place)

namespace Json

/-! ## Records and tagged values -/

@[simp] theorem required_some {α : Type} (decode : Json → Option α) (j : Json) : required decode (some j) = decode j :=
  rfl

@[simp] theorem optional_some {α : Type} (default : α) (decode : Json → Option α) (j : Json) :
    optional default decode (some j) = decode j :=
  rfl

@[simp] theorem asString?_str (s : String) : asString? (str s) = some s := rfl

@[simp] theorem asBool?_bool (b : Bool) : asBool? (bool b) = some b := rfl

@[simp] theorem asUInt32?_toNat (n : UInt32) : asUInt32? (nat n.toNat) = some n := by
  rw [asUInt32?, if_pos n.toNat_lt_size, UInt32.ofNat_toNat]

@[simp] theorem asUInt64?_toNat (n : UInt64) : asUInt64? (nat n.toNat) = some n := by
  rw [asUInt64?, if_pos n.toNat_lt_size, UInt64.ofNat_toNat]

/-- A member that is there once is found. -/
theorem member?_of_mem {members : List (String × Json)} (h : (members.map Prod.fst).Nodup) {name : String} {j : Json}
    (hm : (name, j) ∈ members) : member? members name = some (some j) := by
  have hfilter : members.filter (fun m => m.1 == name) = [(name, j)] := by
    induction members with
    | nil => cases hm
    | cons x members ih =>
      obtain ⟨hx, h⟩ := List.nodup_cons.1 h
      rcases List.mem_cons.1 hm with rfl | hm
      · have hrest : members.filter (fun m => m.1 == name) = [] := List.filter_eq_nil_iff.2 fun m hm heq =>
          hx (List.mem_map.2 ⟨m, hm, beq_iff_eq.1 heq⟩)
        rw [List.filter_cons, hrest]
        simp
      · have hne : x.1 ≠ name := fun heq => hx (List.mem_map.2 ⟨(name, j), hm, heq.symm⟩)
        rw [List.filter_cons, ih h hm]
        simp [hne]
  rw [member?, hfilter]

/-- **A record that has every field once is read field by field.** -/
theorem fields?_obj {names : List String} {members : List (String × Json)} (hnames : members.map Prod.fst = names)
    (h : names.Nodup) : fields? names (.obj members) = some (members.map fun m => some m.2) := by
  subst hnames
  exact mapM_map_eq_some_map fun m hm => member?_of_mem h hm

/-- **A tagged value whose other members are not named like the tag is the record of its kind.** -/
theorem tagged?_obj {κ : Type} {kinds : List (String × κ)} {place : Place} {tag : String} {k : κ}
    {members : List (String × Json)} (htag : kinds.lookup tag = some k) (h : ∀ m ∈ members, m.1 ≠ tagName) :
    tagged? kinds place (.obj ((tagName, .str tag) :: members)) = some (k, .obj members) := by
  have hown : members.filter (fun m => m.1 == tagName) = [] :=
    List.filter_eq_nil_iff.2 fun m hm => by simpa using h m hm
  have hrest : members.filter (fun m => m.1 != tagName) = members :=
    List.filter_eq_self.2 fun m hm => by simpa using h m hm
  simp [tagged?, member?, hown, hrest, required, tag?, htag]

/-! ## Depth -/

theorem nesting_obj_le_succ {members : List (String × Json)} {room : Nat} :
    (obj members).nesting ≤ room + 1 ↔ ∀ m ∈ members, m.2.nesting ≤ room := by
  rw [nesting, Nat.add_le_add_iff_right]
  induction members with
  | nil => simp [membersNesting]
  | cons m ms ih => rw [membersNesting, Nat.max_le, ih, List.forall_mem_cons]

theorem nesting_arr_le_succ {items : List Json} {room : Nat} :
    (arr items).nesting ≤ room + 1 ↔ ∀ j ∈ items, j.nesting ≤ room := by
  rw [nesting, Nat.add_le_add_iff_right]
  induction items with
  | nil => simp [itemsNesting]
  | cons j js ih => rw [itemsNesting, Nat.max_le, ih, List.forall_mem_cons]

mutual

theorem readable_of_faithful : ∀ j : Json, j.Faithful → j.readable = true
  | .null, _ => rfl
  | .bool _, _ => rfl
  | .nat _, _ => rfl
  | .str _, _ => rfl
  | .arr items, h => itemsReadable_of_faithful items h
  | .obj members, h => membersReadable_of_faithful members h

theorem itemsReadable_of_faithful : ∀ js : List Json, ItemsFaithful js → itemsReadable js = true
  | [], _ => rfl
  | j :: js, h => Bool.and_eq_true_iff.2 ⟨readable_of_faithful j h.1, itemsReadable_of_faithful js h.2⟩

theorem membersReadable_of_faithful : ∀ ms : List (String × Json), MembersFaithful ms → membersReadable ms = true
  | [], _ => rfl
  | (_, j) :: ms, h => Bool.and_eq_true_iff.2 ⟨readable_of_faithful j h.1, membersReadable_of_faithful ms h.2⟩

end

theorem Faithful.fits {j : Json} (h : j.Faithful) {room : Nat} (hn : j.nesting ≤ room) : j.fits room = true :=
  Bool.and_eq_true_iff.2 ⟨readable_of_faithful j h, decide_eq_true hn⟩

end Json

/-! ## What is encoded is faithful -/

mutual

theorem Ty.faithful_encode : ∀ t : Ty, t.encode.Faithful
  | .basic _ => ⟨trivial, trivial, trivial⟩
  | .named _ => ⟨trivial, trivial, trivial, trivial⟩
  | .pointer t => ⟨trivial, t.faithful_encode, trivial⟩
  | .slice t => ⟨trivial, t.faithful_encode, trivial⟩
  | .array n t => ⟨trivial, n.toNat_lt_size, t.faithful_encode, trivial⟩
  | .map k v => ⟨trivial, k.faithful_encode, v.faithful_encode, trivial⟩
  | .chan _ t => ⟨trivial, trivial, t.faithful_encode, trivial⟩
  | .func s => ⟨trivial, s.faithful_encodeFields⟩
  | .struct fs => ⟨trivial, Field.faithful_encodeAll fs, trivial⟩
  | .interface i => ⟨trivial, i.faithful_encodeFields⟩

theorem Ty.faithful_encodeAll : ∀ ts : List Ty, Json.ItemsFaithful (Ty.encodeAll ts)
  | [] => trivial
  | t :: ts => ⟨t.faithful_encode, Ty.faithful_encodeAll ts⟩

theorem Signature.faithful_encodeFields : ∀ s : Signature, Json.MembersFaithful s.encodeFields
  | ⟨params, results, _⟩ => ⟨Ty.faithful_encodeAll params, Ty.faithful_encodeAll results, trivial, trivial⟩

theorem Field.faithful_encode : ∀ f : Field, f.encode.Faithful
  | ⟨_, t, _⟩ => ⟨trivial, t.faithful_encode, trivial, trivial⟩

theorem Field.faithful_encodeAll : ∀ fs : List Field, Json.ItemsFaithful (Field.encodeAll fs)
  | [] => trivial
  | f :: fs => ⟨f.faithful_encode, Field.faithful_encodeAll fs⟩

theorem MethodSpec.faithful_encode : ∀ m : MethodSpec, m.encode.Faithful
  | ⟨_, s⟩ => ⟨trivial, s.faithful_encodeFields, trivial⟩

theorem MethodSpec.faithful_encodeAll : ∀ ms : List MethodSpec, Json.ItemsFaithful (MethodSpec.encodeAll ms)
  | [] => trivial
  | m :: ms => ⟨m.faithful_encode, MethodSpec.faithful_encodeAll ms⟩

theorem InterfaceType.faithful_encodeFields : ∀ i : InterfaceType, Json.MembersFaithful i.encodeFields
  | ⟨methods, embeds⟩ => ⟨MethodSpec.faithful_encodeAll methods, Ty.faithful_encodeAll embeds, trivial⟩

end

/-! ## Types -/

theorem Ty.encodeAll_eq_map : ∀ ts : List Ty, Ty.encodeAll ts = ts.map Ty.encode
  | [] => rfl
  | t :: ts => by rw [Ty.encodeAll, Ty.encodeAll_eq_map ts, List.map_cons]

theorem Field.encodeAll_eq_map : ∀ fs : List Field, Field.encodeAll fs = fs.map Field.encode
  | [] => rfl
  | f :: fs => by rw [Field.encodeAll, Field.encodeAll_eq_map fs, List.map_cons]

theorem MethodSpec.encodeAll_eq_map : ∀ ms : List MethodSpec, MethodSpec.encodeAll ms = ms.map MethodSpec.encode
  | [] => rfl
  | m :: ms => by rw [MethodSpec.encodeAll, MethodSpec.encodeAll_eq_map ms, List.map_cons]

theorem BasicKind.lookup_format (k : BasicKind) : BasicKind.names.lookup k.format = some k := by cases k <;> rfl

theorem ChanDir.lookup_name (d : ChanDir) : ChanDir.names.lookup d.name = some d := by cases d <;> rfl

theorem TypeName.decode_encode (n : TypeName) : TypeName.decode (.obj n.encode) = some n := by
  simp [TypeName.decode, TypeName.encode, Json.fields?_obj]

theorem Signature.encodeFields_eq (s : Signature) : s.encodeFields = [("params", .arr (Ty.encodeAll s.params)),
    ("results", .arr (Ty.encodeAll s.results)), ("variadic", .bool s.variadic)] := by
  cases s
  rw [Signature.encodeFields]

theorem InterfaceType.encodeFields_eq (i : InterfaceType) : i.encodeFields =
    [("methods", .arr (MethodSpec.encodeAll i.methods)), ("embeds", .arr (Ty.encodeAll i.embeds))] := by
  cases i
  rw [InterfaceType.encodeFields]

/-- The kind of a type. -/
def Ty.kind : Ty → Ty.Kind
  | .basic _ => .basic
  | .named _ => .named
  | .pointer _ => .pointer
  | .slice _ => .slice
  | .array _ _ => .array
  | .map _ _ => .map
  | .chan _ _ => .chan
  | .func _ => .func
  | .struct _ => .struct
  | .interface _ => .interface

/-- The tag of a kind. -/
def Ty.Kind.tag : Ty.Kind → String
  | .basic => "basic"
  | .named => "named"
  | .pointer => "pointer"
  | .slice => "slice"
  | .array => "array"
  | .map => "map"
  | .chan => "chan"
  | .func => "signature"
  | .struct => "struct"
  | .interface => "interface"

/-- What the JSON form of a type holds besides its tag. -/
def Ty.members : Ty → List (String × Json)
  | .basic k => [("name", .str k.format)]
  | .named n => n.encode
  | .pointer t => [("elem", t.encode)]
  | .slice t => [("elem", t.encode)]
  | .array n t => [("len", .nat n.toNat), ("elem", t.encode)]
  | .map k v => [("key", k.encode), ("value", v.encode)]
  | .chan d t => [("dir", .str d.name), ("elem", t.encode)]
  | .func s => s.encodeFields
  | .struct fs => [("fields", .arr (Field.encodeAll fs))]
  | .interface i => i.encodeFields

theorem Ty.Kind.lookup_tag (k : Ty.Kind) : Ty.kinds.lookup k.tag = some k := by cases k <;> rfl

theorem Ty.encode_eq (t : Ty) : t.encode = .obj ((Json.tagName, .str t.kind.tag) :: t.members) := by
  cases t <;> rw [Ty.encode] <;> rfl

theorem Ty.ne_tagName_of_mem_members (t : Ty) : ∀ m ∈ t.members, m.1 ≠ Json.tagName := by
  cases t <;> simp [Ty.members, Json.tagName, TypeName.encode, Signature.encodeFields_eq, InterfaceType.encodeFields_eq]

/-- `parts` decode what was encoded, wherever it nests at most `room` deep. -/
structure Ty.Parts.Undo (parts : Ty.Parts) (room : Nat) : Prop where
  type : ∀ t : Ty, t.encode.nesting ≤ room → parts.type t.encode = some t
  types : ∀ ts, (Json.arr (Ty.encodeAll ts)).nesting ≤ room → parts.types (.arr (Ty.encodeAll ts)) = some ts
  fields : ∀ fs, (Json.arr (Field.encodeAll fs)).nesting ≤ room → parts.fields (.arr (Field.encodeAll fs)) = some fs
  methods : ∀ ms, (Json.arr (MethodSpec.encodeAll ms)).nesting ≤ room →
    parts.methods (.arr (MethodSpec.encodeAll ms)) = some ms

/-- A signature is decoded if its lists of types are. -/
theorem Signature.ofRecord?_encodeFields {types : Json → Option (List Ty)} {room : Nat}
    (htypes : ∀ ts, (Json.arr (Ty.encodeAll ts)).nesting ≤ room → types (.arr (Ty.encodeAll ts)) = some ts)
    (s : Signature) (h : ∀ m ∈ s.encodeFields, m.2.nesting ≤ room) :
    Signature.ofRecord? types (.obj s.encodeFields) = some s := by
  obtain ⟨params, results, variadic⟩ := s
  rw [Signature.encodeFields] at h ⊢
  have hparams := htypes params (h ("params", _) (by simp))
  have hresults := htypes results (h ("results", _) (by simp))
  simp [Signature.ofRecord?, Json.fields?_obj, hparams, hresults]

/-- **A type is decoded from the record of its kind if its parts are.** -/
theorem Ty.ofRecord?_members {parts : Ty.Parts} {room : Nat} (hparts : parts.Undo room) (t : Ty)
    (h : ∀ m ∈ t.members, m.2.nesting ≤ room) : Ty.ofRecord? parts t.kind (.obj t.members) = some t := by
  cases t with
  | basic k =>
    simp [Ty.ofRecord?, Ty.kind, Ty.members, Json.fields?_obj, Json.choice?, BasicKind.lookup_format]
  | named n => simp [Ty.ofRecord?, Ty.kind, Ty.members, TypeName.decode_encode]
  | pointer t =>
    have helem := hparts.type t (h ("elem", _) (by simp [Ty.members]))
    simp [Ty.ofRecord?, Ty.kind, Ty.members, Json.fields?_obj, helem]
  | slice t =>
    have helem := hparts.type t (h ("elem", _) (by simp [Ty.members]))
    simp [Ty.ofRecord?, Ty.kind, Ty.members, Json.fields?_obj, helem]
  | array n t =>
    have helem := hparts.type t (h ("elem", _) (by simp [Ty.members]))
    simp [Ty.ofRecord?, Ty.kind, Ty.members, Json.fields?_obj, helem]
  | map k v =>
    have hkey := hparts.type k (h ("key", _) (by simp [Ty.members]))
    have hvalue := hparts.type v (h ("value", _) (by simp [Ty.members]))
    simp [Ty.ofRecord?, Ty.kind, Ty.members, Json.fields?_obj, hkey, hvalue]
  | chan d t =>
    have helem := hparts.type t (h ("elem", _) (by simp [Ty.members]))
    simp [Ty.ofRecord?, Ty.kind, Ty.members, Json.fields?_obj, Json.choice?, ChanDir.lookup_name, helem]
  | func s => simp [Ty.ofRecord?, Ty.kind, Ty.members, Signature.ofRecord?_encodeFields hparts.types s h]
  | struct fs =>
    have hfields := hparts.fields fs (h ("fields", _) (by simp [Ty.members]))
    simp [Ty.ofRecord?, Ty.kind, Ty.members, Json.fields?_obj, hfields]
  | interface i =>
    obtain ⟨methods, embeds⟩ := i
    rw [Ty.members, InterfaceType.encodeFields] at h ⊢
    have hmethods := hparts.methods methods (h ("methods", _) (by simp))
    have hembeds := hparts.types embeds (h ("embeds", _) (by simp))
    simp [Ty.ofRecord?, Ty.kind, InterfaceType.ofRecord?, Json.fields?_obj, hmethods, hembeds]

mutual

/-- **A type that is not too deep is decoded as what was encoded.** -/
theorem Ty.decode_encode : ∀ (room : Nat) (place : Place) (t : Ty), t.encode.nesting ≤ room →
    Ty.decode room place t.encode = some t
  | 0, _, t, h => by
    rw [t.encode_eq] at h
    cases h
  | room + 1, place, t, h => by
    have hfits := t.faithful_encode.fits h
    rw [t.encode_eq] at h hfits ⊢
    have hmembers : ∀ m ∈ t.members, m.2.nesting ≤ room := fun m hm =>
      Json.nesting_obj_le_succ.1 h m (List.mem_cons_of_mem _ hm)
    have hparts : Ty.Parts.Undo ⟨Ty.decode room .inside, Ty.decodeAll room .inside, Field.decodeAll room,
        MethodSpec.decodeAll room .inside⟩ room :=
      ⟨Ty.decode_encode room .inside, Ty.decodeAll_encodeAll room .inside, Field.decodeAll_encodeAll room,
        MethodSpec.decodeAll_encodeAll room .inside⟩
    rw [Ty.decode, hfits, Json.tagged?_obj t.kind.lookup_tag t.ne_tagName_of_mem_members]
    exact Ty.ofRecord?_members hparts t hmembers

theorem Ty.decodeAll_encodeAll : ∀ (room : Nat) (place : Place) (ts : List Ty),
    (Json.arr (Ty.encodeAll ts)).nesting ≤ room → Ty.decodeAll room place (.arr (Ty.encodeAll ts)) = some ts
  | 0, _, _, h => by cases h
  | room + 1, place, ts, h => by
    rw [Ty.encodeAll_eq_map] at h ⊢
    exact mapM_map_eq_some fun t ht =>
      Ty.decode_encode room place t (Json.nesting_arr_le_succ.1 h _ (List.mem_map_of_mem ht))

theorem Signature.decode_encode : ∀ (room : Nat) (place : Place) (s : Signature), s.encode.nesting ≤ room →
    Signature.decode room place s.encode = some s
  | 0, _, _, h => by cases h
  | room + 1, place, s, h =>
    Signature.ofRecord?_encodeFields (Ty.decodeAll_encodeAll room place) s (Json.nesting_obj_le_succ.1 h)

theorem Field.decode_encode : ∀ (room : Nat) (f : Field), f.encode.nesting ≤ room →
    Field.decode room f.encode = some f
  | 0, ⟨_, _, _⟩, h => by cases h
  | room + 1, ⟨name, t, embedded⟩, h => by
    rw [Field.encode] at h ⊢
    have htype := Ty.decode_encode room .inside t (Json.nesting_obj_le_succ.1 h ("type", _) (by simp))
    simp [Field.decode, Json.fields?_obj, htype]

theorem Field.decodeAll_encodeAll : ∀ (room : Nat) (fs : List Field), (Json.arr (Field.encodeAll fs)).nesting ≤ room →
    Field.decodeAll room (.arr (Field.encodeAll fs)) = some fs
  | 0, _, h => by cases h
  | room + 1, fs, h => by
    rw [Field.encodeAll_eq_map] at h ⊢
    exact mapM_map_eq_some fun f hf =>
      Field.decode_encode room f (Json.nesting_arr_le_succ.1 h _ (List.mem_map_of_mem hf))

theorem MethodSpec.decode_encode : ∀ (room : Nat) (place : Place) (m : MethodSpec), m.encode.nesting ≤ room →
    MethodSpec.decode room place m.encode = some m
  | 0, _, ⟨_, _⟩, h => by cases h
  | room + 1, place, ⟨name, s⟩, h => by
    rw [MethodSpec.encode] at h ⊢
    have hsignature : Signature.decode room place (.obj s.encodeFields) = some s :=
      Signature.decode_encode room place s (Json.nesting_obj_le_succ.1 h ("signature", _) (by simp))
    simp [MethodSpec.decode, Json.fields?_obj, hsignature]

theorem MethodSpec.decodeAll_encodeAll : ∀ (room : Nat) (place : Place) (ms : List MethodSpec),
    (Json.arr (MethodSpec.encodeAll ms)).nesting ≤ room →
    MethodSpec.decodeAll room place (.arr (MethodSpec.encodeAll ms)) = some ms
  | 0, _, _, h => by cases h
  | room + 1, place, ms, h => by
    rw [MethodSpec.encodeAll_eq_map] at h ⊢
    exact mapM_map_eq_some fun m hm =>
      MethodSpec.decode_encode room place m (Json.nesting_arr_le_succ.1 h _ (List.mem_map_of_mem hm))

end

/-! ## Exports -/

theorem Position.decode_encode (p : Position) : Position.decode p.encode = some p := by
  simp [Position.decode, Position.encode, Json.fields?_obj]

theorem Position.faithful_encode (p : Position) : p.encode.Faithful := by
  have hle : UInt32.size ≤ UInt64.size := by decide
  exact ⟨trivial, Nat.lt_of_lt_of_le p.line.toNat_lt_size hle, Nat.lt_of_lt_of_le p.column.toNat_lt_size hle, trivial⟩

theorem PackageRef.decode_encode (p : PackageRef) : PackageRef.decode p.encode = some p := by
  simp [PackageRef.decode, PackageRef.encode, Json.fields?_obj]

theorem PackageRef.faithful_encode (p : PackageRef) : p.encode.Faithful := ⟨trivial, trivial, trivial⟩

theorem MethodDecl.decode_encode (place : Place) : ∀ (room : Nat) (m : MethodDecl), m.encode.nesting ≤ room →
    MethodDecl.decode place room m.encode = some m
  | 0, _, h => by cases h
  | room + 1, m, h => by
    rw [MethodDecl.encode] at h ⊢
    have hsignature := Signature.decode_encode room place m.signature
      (Json.nesting_obj_le_succ.1 h ("signature", m.signature.encode) (by simp))
    simp [MethodDecl.decode, Json.fields?_obj, Position.decode_encode, hsignature]

theorem MethodDecl.faithful_encode (m : MethodDecl) : m.encode.Faithful :=
  ⟨trivial, trivial, m.signature.faithful_encodeFields, m.pos.faithful_encode, trivial⟩

/-- Items that are decoded one by one are decoded as a list. -/
theorem Json.asList?_map {α : Type} {decode : Nat → Json → Option α} {encode : α → Json}
    (hdecode : ∀ room a, (encode a).nesting ≤ room → decode room (encode a) = some a) :
    ∀ (room : Nat) (as : List α), (Json.arr (as.map encode)).nesting ≤ room →
    Json.asList? decode room (.arr (as.map encode)) = some as
  | 0, _, h => by cases h
  | room + 1, as, h => mapM_map_eq_some fun a ha =>
    hdecode room a (Json.nesting_arr_le_succ.1 h _ (List.mem_map_of_mem ha))

theorem Json.faithful_str (s : String) : (Json.str s).Faithful := trivial

theorem Json.itemsFaithful_map {α : Type} {encode : α → Json} (h : ∀ a, (encode a).Faithful) :
    ∀ as : List α, Json.ItemsFaithful (as.map encode)
  | [] => trivial
  | a :: as => ⟨h a, Json.itemsFaithful_map h as⟩

theorem Declaration.faithful_encode : ∀ d : Declaration, d.encode.Faithful
  | .type _ pos t methods _ => ⟨trivial, trivial, pos.faithful_encode, t.faithful_encode,
      Json.itemsFaithful_map MethodDecl.faithful_encode methods, trivial, trivial⟩
  | .aliasType _ pos t _ => ⟨trivial, trivial, pos.faithful_encode, t.faithful_encode, trivial, trivial⟩
  | .func _ pos s => ⟨trivial, trivial, pos.faithful_encode, s.faithful_encodeFields, trivial⟩
  | .var _ pos t _ => ⟨trivial, trivial, pos.faithful_encode, t.faithful_encode, trivial, trivial⟩
  | .const _ pos t _ => ⟨trivial, trivial, pos.faithful_encode, t.faithful_encode, trivial, trivial⟩

/-- A declaration that fits is decoded by its kind. -/
theorem Declaration.decode_tagged {room : Nat} {tag : String} {kind : Declaration.Kind}
    {members : List (String × Json)} (htag : Declaration.kinds.lookup tag = some kind)
    (hnames : ∀ m ∈ members, m.1 ≠ Json.tagName)
    (hfits : (Json.obj (("kind", .str tag) :: members)).fits (room + 1) = true) :
    Declaration.decode (room + 1) (.obj (("kind", .str tag) :: members)) =
      Declaration.ofRecord? room kind (.obj members) := by
  have htagged : Json.tagged? Declaration.kinds .outside (.obj (("kind", .str tag) :: members)) =
      some (kind, .obj members) := Json.tagged?_obj htag hnames
  rw [Declaration.decode, hfits, htagged]
  rfl

/-- **A declaration that is not too deep is decoded as what was encoded.** -/
theorem Declaration.decode_encode : ∀ (room : Nat) (d : Declaration), d.encode.nesting ≤ room →
    Declaration.decode room d.encode = some d
  | 0, d, h => by cases d <;> cases h
  | room + 1, d, h => by
    have hfits := d.faithful_encode.fits h
    have hmember := fun {members} => (@Json.nesting_obj_le_succ members room).1
    cases d with
    | type name pos t methods isLocal =>
      rw [Declaration.encode] at h hfits ⊢
      have ht := Ty.decode_encode room .inside t (hmember h ("underlying", _) (by simp))
      have hmethods := Json.asList?_map (MethodDecl.decode_encode .inside) room methods
        (hmember h ("methods", _) (by simp))
      rw [Declaration.decode_tagged rfl (by simp [Json.tagName]) hfits]
      simp [Declaration.ofRecord?, Json.fields?_obj, Position.decode_encode, ht, hmethods]
    | aliasType name pos t isLocal =>
      rw [Declaration.encode] at h hfits ⊢
      have ht := Ty.decode_encode room .inside t (hmember h ("target", _) (by simp))
      rw [Declaration.decode_tagged rfl (by simp [Json.tagName]) hfits]
      simp [Declaration.ofRecord?, Json.fields?_obj, Position.decode_encode, ht]
    | func name pos s =>
      rw [Declaration.encode] at h hfits ⊢
      have hs := Signature.decode_encode room .inside s (hmember h ("signature", s.encode) (by simp))
      rw [Declaration.decode_tagged rfl (by simp [Json.tagName]) hfits]
      simp [Declaration.ofRecord?, Json.fields?_obj, Position.decode_encode, hs]
    | var name pos t isLocal =>
      rw [Declaration.encode] at h hfits ⊢
      have ht := Ty.decode_encode room .inside t (hmember h ("type", _) (by simp))
      rw [Declaration.decode_tagged rfl (by simp [Json.tagName]) hfits]
      simp [Declaration.ofRecord?, Json.fields?_obj, Position.decode_encode, ht]
    | const name pos t isLocal =>
      rw [Declaration.encode] at h hfits ⊢
      have ht := Ty.decode_encode room .inside t (hmember h ("type", _) (by simp))
      rw [Declaration.decode_tagged rfl (by simp [Json.tagName]) hfits]
      simp [Declaration.ofRecord?, Json.fields?_obj, Position.decode_encode, ht]

namespace PackageExport

theorem faithful_encode (e : PackageExport) : e.encode.Faithful :=
  ⟨trivial, trivial, Json.itemsFaithful_map PackageRef.faithful_encode e.imports,
    Json.itemsFaithful_map Declaration.faithful_encode e.decls,
    Json.itemsFaithful_map Json.faithful_str e.errors, trivial⟩

theorem decode_encode : ∀ (room : Nat) (e : PackageExport), e.encode.nesting ≤ room → decode room e.encode = some e
  | 0, _, h => by cases h
  | room + 1, e, h => by
    rw [encode] at h ⊢
    have hmember := Json.nesting_obj_le_succ.1 h
    have himports := Json.asList?_map (fun _ p _ => PackageRef.decode_encode p) room e.imports
      (hmember ("imports", _) (by simp))
    have hdecls := Json.asList?_map Declaration.decode_encode room e.decls (hmember ("decls", _) (by simp))
    have herrors := Json.asList?_map (fun _ s _ => Json.asString?_str s) room e.errors
      (hmember ("errors", _) (by simp))
    simp [decode, Json.fields?_obj, himports, hdecls, herrors]

/-- **An export is read back from its text.** -/
theorem parse_render_of_nesting_lt {e : PackageExport} (h : e.encode.nesting < 128) : parse? e.render = some e := by
  rw [parse?, render, Json.parse?_render e.faithful_encode]
  exact decode_encode Json.depthLimit e (Nat.le_of_lt_succ h)

/-- An export with declarations of every kind, types of every kind, the longest array and text of every sort. -/
def gallery : PackageExport where
  ref := ⟨"example.com/gallery", "gallery"⟩
  imports := [⟨"io", "io"⟩, ⟨"a \"quoted\" path", "path"⟩]
  decls := [
    .type "Frame" ⟨"dir\\gallery.go", 3, 4294967295⟩
      (.struct [⟨"cells", .array 18446744073709551615 (.slice (.basic .uint8)), false⟩,
        ⟨"Base", .pointer (.named ⟨"example.com/gallery", "Base"⟩), true⟩])
      [⟨"Hang", ⟨[.basic .string, .slice (.basic .int32)], [.named ⟨"", "error"⟩], true⟩, true, .unknown⟩] false,
    .type "Base" .unknown
      (.interface ⟨[⟨"Walls", ⟨[], [.chan .recv (.basic .int)], false⟩⟩], [.named ⟨"io", "Reader"⟩, .interface ⟨[], []⟩]⟩)
      [] true,
    .aliasType "Index" .unknown (.map (.basic .string) (.chan .both (.named ⟨"example.com/gallery", "Frame"⟩))) false,
    .func "Open" ⟨"gallery.go", 9, 1⟩ ⟨[.func ⟨[], [], false⟩], [], false⟩,
    .var "hook" .unknown (.func ⟨[.basic .unsafePointer], [.basic .bool], false⟩) true,
    .const "Größe" .unknown (.basic .float64) false]
  errors := ["3:6: expected '\x7d'\n\tfound \u0000", ""]

theorem gallery_read_back : gallery.encode.nesting < 128 ∧ parse? gallery.render = some gallery :=
  ⟨by decide, parse_render_of_nesting_lt (by decide)⟩

end PackageExport

end TypeAtlas
