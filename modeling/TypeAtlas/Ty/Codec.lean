import TypeAtlas.Json.Decode
import TypeAtlas.Ty.Basic

/-!
# Types in JSON

Types are tagged values, the parts of a type are records (`TypeAtlas.Json.Decode`).  Encoding writes every field,
defaults included; decoding takes what may be left out at its default: an empty package, no parameters, no results,
not variadic, a channel of both directions, not embedded.

A decoder is given the room that is left for nested arrays and objects, and recurses on it.
-/

namespace TypeAtlas

open Json (Place)

namespace TypeName

/-- The record of a type name. -/
def encode (n : TypeName) : List (String × Json) := [("package", .str n.package), ("name", .str n.name)]

/-- A type name from its record. -/
def decode (j : Json) : Option TypeName := do
  match ← j.fields? ["package", "name"] with
  | [package, name] =>
    return {
      package := ← Json.optional "" Json.asString? package
      name := ← Json.required Json.asString? name }
  | _ => none

end TypeName

/-- The names of the basic types, and the spellings `byte` and `rune`. -/
def BasicKind.names : List (String × BasicKind) :=
  [("bool", .bool), ("string", .string), ("int", .int), ("int8", .int8), ("int16", .int16), ("int32", .int32),
    ("rune", .int32), ("int64", .int64), ("uint", .uint), ("uint8", .uint8), ("byte", .uint8), ("uint16", .uint16),
    ("uint32", .uint32), ("uint64", .uint64), ("uintptr", .uintptr), ("float32", .float32), ("float64", .float64),
    ("complex64", .complex64), ("complex128", .complex128), ("unsafe.Pointer", .unsafePointer)]

/-- The names of the channel directions. -/
def ChanDir.names : List (String × ChanDir) := [("both", .both), ("send", .send), ("recv", .recv)]

/-- The name of a channel direction. -/
def ChanDir.name : ChanDir → String
  | both => "both"
  | send => "send"
  | recv => "recv"

/-- The kinds of types, as tags. -/
inductive Ty.Kind where
  | basic
  | named
  | pointer
  | slice
  | array
  | map
  | chan
  | func
  | struct
  | interface
deriving DecidableEq

/-- The tags of the kinds of types, in order. -/
def Ty.kinds : List (String × Ty.Kind) :=
  [("basic", .basic), ("named", .named), ("pointer", .pointer), ("slice", .slice), ("array", .array), ("map", .map),
    ("chan", .chan), ("signature", .func), ("struct", .struct), ("interface", .interface)]

/-! ## Encoding -/

mutual

/-- The JSON form of a type. -/
def Ty.encode : Ty → Json
  | .basic k => .obj [("kind", .str "basic"), ("name", .str k.format)]
  | .named n => .obj (("kind", .str "named") :: n.encode)
  | .pointer t => .obj [("kind", .str "pointer"), ("elem", t.encode)]
  | .slice t => .obj [("kind", .str "slice"), ("elem", t.encode)]
  | .array n t => .obj [("kind", .str "array"), ("len", .nat n.toNat), ("elem", t.encode)]
  | .map k v => .obj [("kind", .str "map"), ("key", k.encode), ("value", v.encode)]
  | .chan d t => .obj [("kind", .str "chan"), ("dir", .str d.name), ("elem", t.encode)]
  | .func s => .obj (("kind", .str "signature") :: s.encodeFields)
  | .struct fs => .obj [("kind", .str "struct"), ("fields", .arr (Field.encodeAll fs))]
  | .interface i => .obj (("kind", .str "interface") :: i.encodeFields)

/-- The JSON forms of types. -/
def Ty.encodeAll : List Ty → List Json
  | [] => []
  | t :: ts => t.encode :: Ty.encodeAll ts

/-- The record of a signature. -/
def Signature.encodeFields : Signature → List (String × Json)
  | ⟨params, results, variadic⟩ =>
    [("params", .arr (Ty.encodeAll params)), ("results", .arr (Ty.encodeAll results)), ("variadic", .bool variadic)]

/-- The JSON form of a field. -/
def Field.encode : Field → Json
  | ⟨name, t, embedded⟩ => .obj [("name", .str name), ("type", t.encode), ("embedded", .bool embedded)]

/-- The JSON forms of fields. -/
def Field.encodeAll : List Field → List Json
  | [] => []
  | f :: fs => f.encode :: Field.encodeAll fs

/-- The JSON form of an interface method. -/
def MethodSpec.encode : MethodSpec → Json
  | ⟨name, s⟩ => .obj [("name", .str name), ("signature", .obj s.encodeFields)]

/-- The JSON forms of interface methods. -/
def MethodSpec.encodeAll : List MethodSpec → List Json
  | [] => []
  | m :: ms => m.encode :: MethodSpec.encodeAll ms

/-- The record of an interface. -/
def InterfaceType.encodeFields : InterfaceType → List (String × Json)
  | ⟨methods, embeds⟩ => [("methods", .arr (MethodSpec.encodeAll methods)), ("embeds", .arr (Ty.encodeAll embeds))]

end

/-- The JSON form of a signature on its own. -/
def Signature.encode (s : Signature) : Json := .obj s.encodeFields

/-! ## Decoding -/

/-- A signature from its record, given how lists of types are decoded. -/
def Signature.ofRecord? (types : Json → Option (List Ty)) (j : Json) : Option Signature := do
  match ← j.fields? ["params", "results", "variadic"] with
  | [params, results, variadic] =>
    return {
      params := ← Json.optional [] types params
      results := ← Json.optional [] types results
      variadic := ← Json.optional false Json.asBool? variadic }
  | _ => none

/-- An interface from its record, given how lists of methods and of types are decoded. -/
def InterfaceType.ofRecord? (methods : Json → Option (List MethodSpec)) (types : Json → Option (List Ty)) (j : Json) :
    Option InterfaceType := do
  match ← j.fields? ["methods", "embeds"] with
  | [ms, embeds] =>
    return {
      methods := ← Json.optional [] methods ms
      embeds := ← Json.optional [] types embeds }
  | _ => none

/-- How the parts of a type are decoded. -/
structure Ty.Parts where
  type : Json → Option Ty
  types : Json → Option (List Ty)
  fields : Json → Option (List Field)
  methods : Json → Option (List MethodSpec)

/-- A type of a given kind from its record. -/
def Ty.ofRecord? (parts : Ty.Parts) (kind : Ty.Kind) (j : Json) : Option Ty :=
  match kind with
  | .basic => do
    match ← j.fields? ["name"] with
    | [name] => return .basic (← Json.required (Json.choice? BasicKind.names) name)
    | _ => none
  | .named => do return .named (← TypeName.decode j)
  | .pointer => do
    match ← j.fields? ["elem"] with
    | [elem] => return .pointer (← Json.required parts.type elem)
    | _ => none
  | .slice => do
    match ← j.fields? ["elem"] with
    | [elem] => return .slice (← Json.required parts.type elem)
    | _ => none
  | .array => do
    match ← j.fields? ["len", "elem"] with
    | [len, elem] => return .array (← Json.required Json.asUInt64? len) (← Json.required parts.type elem)
    | _ => none
  | .map => do
    match ← j.fields? ["key", "value"] with
    | [key, value] => return .map (← Json.required parts.type key) (← Json.required parts.type value)
    | _ => none
  | .chan => do
    match ← j.fields? ["dir", "elem"] with
    | [dir, elem] =>
      return .chan (← Json.optional .both (Json.choice? ChanDir.names) dir) (← Json.required parts.type elem)
    | _ => none
  | .func => do return .func (← Signature.ofRecord? parts.types j)
  | .struct => do
    match ← j.fields? ["fields"] with
    | [fields] => return .struct (← Json.optional [] parts.fields fields)
    | _ => none
  | .interface => do return .interface (← InterfaceType.ofRecord? parts.methods parts.types j)

mutual

/-- A type, where `room` more arrays and objects may open. -/
def Ty.decode : Nat → Place → Json → Option Ty
  | 0, _, _ => none
  | room + 1, place, j => do
    guard (j.fits (room + 1))
    let (kind, body) ← Json.tagged? Ty.kinds place j
    let parts : Ty.Parts := {
      type := Ty.decode room .inside
      types := Ty.decodeAll room .inside
      fields := Field.decodeAll room
      methods := MethodSpec.decodeAll room .inside }
    Ty.ofRecord? parts kind body

/-- A list of types. -/
def Ty.decodeAll : Nat → Place → Json → Option (List Ty)
  | room + 1, place, .arr items => items.mapM (Ty.decode room place)
  | _, _, _ => none

/-- A signature. -/
def Signature.decode : Nat → Place → Json → Option Signature
  | 0, _, _ => none
  | room + 1, place, j => Signature.ofRecord? (Ty.decodeAll room place) j

/-- A field of a struct. -/
def Field.decode : Nat → Json → Option Field
  | 0, _ => none
  | room + 1, j => do
    match ← j.fields? ["name", "type", "embedded"] with
    | [name, type, embedded] =>
      return {
        name := ← Json.required Json.asString? name
        type := ← Json.required (Ty.decode room .inside) type
        embedded := ← Json.optional false Json.asBool? embedded }
    | _ => none

/-- The fields of a struct. -/
def Field.decodeAll : Nat → Json → Option (List Field)
  | room + 1, .arr items => items.mapM (Field.decode room)
  | _, _ => none

/-- A method of an interface. -/
def MethodSpec.decode : Nat → Place → Json → Option MethodSpec
  | 0, _, _ => none
  | room + 1, place, j => do
    match ← j.fields? ["name", "signature"] with
    | [name, signature] =>
      return {
        name := ← Json.required Json.asString? name
        signature := ← Json.optional ⟨[], [], false⟩ (Signature.decode room place) signature }
    | _ => none

/-- The methods of an interface. -/
def MethodSpec.decodeAll : Nat → Place → Json → Option (List MethodSpec)
  | room + 1, place, .arr items => items.mapM (MethodSpec.decode room place)
  | _, _, _ => none

end

/-- An interface on its own. -/
def InterfaceType.decode : Nat → Place → Json → Option InterfaceType
  | 0, _, _ => none
  | room + 1, place, j => InterfaceType.ofRecord? (MethodSpec.decodeAll room place) (Ty.decodeAll room place) j

end TypeAtlas
