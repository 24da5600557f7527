import TypeAtlas.Json.Basic

/-!
# Decoding records, choices and tagged values

How structured values are found in JSON.

* A **record** is an object, whose unknown members are ignored and whose known members may not be repeated, or an
  array of its fields in order, the last ones of which may be left out (`Json.fields?`).
* A **choice** is one of a list of names, written as a string or as an object with that one member and nothing in it
  (`Json.choice?`).
* A **tagged value** is an object with one member `kind`, or an array that starts with the tag; the rest of it is
  the record of that kind (`Json.tagged?`).  Inside another tagged value the tag may also be the number of the kind.

Arrays and objects nest at most `Json.depthLimit` deep.  A tagged value is taken in as a whole before its tag is
known, so the limit holds for all of it and all of it must be readable (`Json.fits`); outside tagged values an
unknown member may hold anything.
-/

namespace TypeAtlas

namespace Json

/-- How many arrays and objects may stand inside one another. -/
def depthLimit : Nat := 127

/-- Whether a value can be taken in as a whole where `room` more arrays and objects may open. -/
def fits (room : Nat) (j : Json) : Bool := j.readable && decide (j.nesting ≤ room)

/-- The member `name` of an object: `none` inside if there is none, and no answer if it is repeated. -/
def member? (members : List (String × Json)) (name : String) : Option (Option Json) :=
  match members.filter fun m => m.1 == name with
  | [] => some none
  | [m] => some (some m.2)
  | _ => none

/-- The fields of a record, in the order of `names`; a field that is left out is `none`. -/
def fields? (names : List String) : Json → Option (List (Option Json))
  | .obj members => names.mapM (member? members)
  | .arr items =>
    if items.length ≤ names.length then
      some (items.map some ++ List.replicate (names.length - items.length) none)
    else none
  | _ => none

/-- A field that must be there. -/
def required {α : Type} (decode : Json → Option α) (field : Option Json) : Option α := field.bind decode

/-- A field that has a value of its own where it is left out. -/
def optional {α : Type} (default : α) (decode : Json → Option α) : Option Json → Option α
  | none => some default
  | some j => decode j

/-- A string. -/
def asString? : Json → Option String
  | .str s => some s
  | _ => none

/-- A truth value. -/
def asBool? : Json → Option Bool
  | .bool b => some b
  | _ => none

/-- A 32-bit number. -/
def asUInt32? : Json → Option UInt32
  | .nat n => if n < UInt32.size then some (UInt32.ofNat n) else none
  | _ => none

/-- A 64-bit number. -/
def asUInt64? : Json → Option UInt64
  | .nat n => if n < UInt64.size then some (UInt64.ofNat n) else none
  | _ => none

/-- An array, where `room` more arrays and objects may open; its items have one less. -/
def asList? {α : Type} (decode : Nat → Json → Option α) : Nat → Json → Option (List α)
  | room + 1, .arr items => items.mapM (decode room)
  | _, _ => none

/-- Whether a value holds nothing. -/
def isVoid : Json → Bool
  | .null => true
  | .obj [] => true
  | _ => false

/-- One of a list of names. -/
def choice? {α : Type} (names : List (String × α)) : Json → Option α
  | .str s => names.lookup s
  | .obj [(s, j)] => if j.isVoid then names.lookup s else none
  | _ => none

/-- Where a tagged value stands: on its own, or inside another tagged value. -/
inductive Place where
  | outside
  | inside
deriving DecidableEq

/-- The kind that a tag names.  Inside a tagged value the place of the kind in the list will do. -/
def tag? {κ : Type} (kinds : List (String × κ)) (place : Place) : Json → Option κ
  | .str s => kinds.lookup s
  | .nat n => if place = .inside then (kinds[n]?).map Prod.snd else none
  | _ => none

/-- The name of the member that holds the tag. -/
def tagName : String := "kind"

/-- The kind of a tagged value, and the record of that kind. -/
def tagged? {κ : Type} (kinds : List (String × κ)) (place : Place) : Json → Option (κ × Json)
  | .obj members => do
    let tag ← required (tag? kinds place) (← member? members tagName)
    return (tag, .obj (members.filter fun m => m.1 != tagName))
  | .arr (tag :: items) => do return (← tag? kinds place tag, .arr items)
  | _ => none

end Json

end TypeAtlas
