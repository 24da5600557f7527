import TypeAtlas.Ty.Basic

/-!
# Types as written in Go

`Ty.format` and `Signature.format` spell types and signatures.  An embedded field is written as its type alone, an
interface lists what it embeds before its methods, and the last parameter of a variadic function is written `...T`
if it is a slice.
-/

namespace TypeAtlas

/-- What stands before the element type of a channel. -/
def ChanDir.format : ChanDir → String
  | both => "chan "
  | send => "chan<- "
  | recv => "<-chan "

/-- Results after the parameters: one stands alone, several in parentheses. -/
def Signature.formatResults : List String → String
  | [] => ""
  | [r] => " " ++ r
  | rs => " (" ++ String.intercalate ", " rs ++ ")"

mutual

/-- The spelling of a type. -/
def Ty.format : Ty → String
  | .basic k => k.format
  | .named n => n.format
  | .pointer t => "*" ++ t.format
  | .slice t => "[]" ++ t.format
  | .array n t => "[" ++ Nat.repr n.toNat ++ "]" ++ t.format
  | .map k v => "map[" ++ k.format ++ "]" ++ v.format
  | .chan d t => d.format ++ t.format
  | .func s => "func" ++ s.format
  | .struct fs => "struct\x7b" ++ String.intercalate "; " (Field.formats fs) ++ "\x7d"
  | .interface i => "interface\x7b" ++ String.intercalate "; " i.formats ++ "\x7d"

/-- The spellings of types. -/
def Ty.formats : List Ty → List String
  | [] => []
  | t :: ts => t.format :: Ty.formats ts

/-- The spellings of parameters. -/
def Ty.formatParams (variadic : Bool) : List Ty → List String
  | [] => []
  | [.slice t] => [if variadic then "..." ++ t.format else "[]" ++ t.format]
  | t :: ts => t.format :: Ty.formatParams variadic ts

/-- The spelling of a signature: parameters, then results. -/
def Signature.format : Signature → String
  | ⟨params, results, variadic⟩ =>
    "(" ++ String.intercalate ", " (Ty.formatParams variadic params) ++ ")" ++
      Signature.formatResults (Ty.formats results)

/-- The spelling of a field. -/
def Field.format : Field → String
  | ⟨name, t, embedded⟩ => if embedded then t.format else name ++ " " ++ t.format

/-- The spellings of fields. -/
def Field.formats : List Field → List String
  | [] => []
  | f :: fs => f.format :: Field.formats fs

/-- The spellings of interface methods. -/
def MethodSpec.formats : List MethodSpec → List String
  | [] => []
  | ⟨name, s⟩ :: ms => (name ++ s.format) :: MethodSpec.formats ms

/-- The spellings of the parts of an interface. -/
def InterfaceType.formats : InterfaceType → List String
  | ⟨methods, embeds⟩ => Ty.formats embeds ++ MethodSpec.formats methods

end

/-- The field that embeds a type: it is named after the type, a pointer to it left aside. -/
def Field.embedding (t : Ty) : Field :=
  match t.deref with
  | .named n => ⟨n.name, t, true⟩
  | s => ⟨s.format, t, true⟩

end TypeAtlas
