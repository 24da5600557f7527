import TypeAtlas.Export.Basic
import TypeAtlas.Json.Reader
import TypeAtlas.Ty.Codec

/-!
# Package exports in JSON

A package export is a record, a declaration is a tagged value, a declared method is a record.  `PackageExport.parse?`
reads an export from its text.
-/

namespace TypeAtlas

open Json (Place)

namespace MethodDecl

/-- The JSON form. -/
def encode (m : MethodDecl) : Json :=
  .obj [("name", .str m.name), ("pointer_receiver", .bool m.pointerReceiver), ("signature", m.signature.encode),
    ("pos", m.pos.encode)]

/-- A declared method from its record. -/
def decode (place : Place) : Nat → Json → Option MethodDecl
  | 0, _ => none
  | room + 1, j => do
    match ← j.fields? ["name", "pointer_receiver", "signature", "pos"] with
    | [name, pointerReceiver, signature, pos] =>
      return {
        name := ← Json.required Json.asString? name
        pointerReceiver := ← Json.optional false Json.asBool? pointerReceiver
        signature := ← Json.optional ⟨[], [], false⟩ (Signature.decode room place) signature
        pos := ← Json.optional .unknown Position.decode pos }
    | _ => none

end MethodDecl

namespace Declaration

/-- The kinds of declarations, as tags. -/
inductive Kind where
  | type
  | aliasType
  | func
  | var
  | const
deriving DecidableEq

/-- The tags of the kinds of declarations, in order. -/
def kinds : List (String × Kind) :=
  [("type", .type), ("alias", .aliasType), ("func", .func), ("var", .var), ("const", .const)]

/-- The JSON form. -/
def encode : Declaration → Json
  | type name pos t methods isLocal =>
    .obj [("kind", .str "type"), ("name", .str name), ("pos", pos.encode), ("underlying", t.encode),
      ("methods", .arr (methods.map MethodDecl.encode)), ("local", .bool isLocal)]
  | aliasType name pos t isLocal =>
    .obj [("kind", .str "alias"), ("name", .str name), ("pos", pos.encode), ("target", t.encode),
      ("local", .bool isLocal)]
  | func name pos s =>
    .obj [("kind", .str "func"), ("name", .str name), ("pos", pos.encode), ("signature", s.encode)]
  | var name pos t isLocal =>
    .obj [("kind", .str "var"), ("name", .str name), ("pos", pos.encode), ("type", t.encode), ("local", .bool isLocal)]
  | const name pos t isLocal =>
    .obj [("kind", .str "const"), ("name", .str name), ("pos", pos.encode), ("type", t.encode),
      ("local", .bool isLocal)]

/-- A declaration of a given kind from its record, inside which `room` more arrays and objects may open. -/
def ofRecord? (room : Nat) (kind : Kind) (j : Json) : Option Declaration :=
  match kind with
  | .type => do
    match ← j.fields? ["name", "pos", "underlying", "methods", "local"] with
    | [name, pos, underlying, methods, isLocal] =>
      return .type (← Json.required Json.asString? name) (← Json.optional .unknown Position.decode pos)
        (← Json.required (Ty.decode room .inside) underlying)
        (← Json.optional [] (Json.asList? (MethodDecl.decode .inside) room) methods)
        (← Json.optional false Json.asBool? isLocal)
    | _ => none
  | .aliasType => do
    match ← j.fields? ["name", "pos", "target", "local"] with
    | [name, pos, target, isLocal] =>
      return .aliasType (← Json.required Json.asString? name) (← Json.optional .unknown Position.decode pos)
        (← Json.required (Ty.decode room .inside) target) (← Json.optional false Json.asBool? isLocal)
    | _ => none
  | .func => do
    match ← j.fields? ["name", "pos", "signature"] with
    | [name, pos, signature] =>
      return .func (← Json.required Json.asString? name) (← Json.optional .unknown Position.decode pos)
        (← Json.optional ⟨[], [], false⟩ (Signature.decode room .inside) signature)
    | _ => none
  | .var => do
    match ← j.fields? ["name", "pos", "type", "local"] with
    | [name, pos, t, isLocal] =>
      return .var (← Json.required Json.asString? name) (← Json.optional .unknown Position.decode pos)
        (← Json.required (Ty.decode room .inside) t) (← Json.optional false Json.asBool? isLocal)
    | _ => none
  | .const => do
    match ← j.fields? ["name", "pos", "type", "local"] with
    | [name, pos, t, isLocal] =>
      return .const (← Json.required Json.asString? name) (← Json.optional .unknown Position.decode pos)
        (← Json.required (Ty.decode room .inside) t) (← Json.optional false Json.asBool? isLocal)
    | _ => none

/-- A declaration. -/
def decode : Nat → Json → Option Declaration
  | 0, _ => none
  | room + 1, j => do
    guard (j.fits (room + 1))
    let (kind, body) ← Json.tagged? kinds .outside j
    ofRecord? room kind body

end Declaration

namespace PackageExport

/-- The JSON form. -/
def encode (e : PackageExport) : Json :=
  .obj [("path", .str e.ref.path), ("name", .str e.ref.name), ("imports", .arr (e.imports.map PackageRef.encode)),
    ("decls", .arr (e.decls.map Declaration.encode)), ("errors", .arr (e.errors.map .str))]

/-- An export from its record. -/
def decode : Nat → Json → Option PackageExport
  | 0, _ => none
  | room + 1, j => do
    match ← j.fields? ["path", "name", "imports", "decls", "errors"] with
    | [path, name, imports, decls, errors] =>
      return {
        ref := { path := ← Json.required Json.asString? path, name := ← Json.required Json.asString? name }
        imports := ← Json.optional [] (Json.asList? (fun _ => PackageRef.decode) room) imports
        decls := ← Json.optional [] (Json.asList? Declaration.decode room) decls
        errors := ← Json.optional [] (Json.asList? (fun _ => Json.asString?) room) errors }
    | _ => none

/-- The text of an export. -/
def render (e : PackageExport) : String := e.encode.render

/-- An export from its text. -/
def parse? (text : String) : Option PackageExport := (Json.parse? text).bind (decode Json.depthLimit)

end PackageExport

end TypeAtlas
