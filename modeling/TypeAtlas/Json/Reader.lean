import TypeAtlas.Json.Token

/-!
# Reading JSON text

The tokens of a text are read one by one.  The reader stands at a `Point` of the text, which holds the arrays and
objects that are open around it; no token makes it look back.  Any depth can be read: how deep a value may be is
for those who decode it to say.

`Json.parse?` reads a text that is one value with nothing but blanks around it.
-/

namespace TypeAtlas

namespace Json

/-- An array or object that is open, with what was read of it, last first. -/
inductive Frame where
  | arr (before : List Json)
  /-- An object at the value of the member `key`. -/
  | obj (before : List (Option String × Json)) (key : Option String)

/-- Where the reader stands. -/
inductive Point where
  /-- Before a value. -/
  | value (stack : List Frame)
  /-- After the bracket that opens an array. -/
  | firstItem (stack : List Frame)
  /-- After the brace that opens an object. -/
  | firstKey (stack : List Frame)
  /-- After a comma in an object. -/
  | nextKey (before : List (Option String × Json)) (stack : List Frame)
  /-- After the key of a member. -/
  | colon (before : List (Option String × Json)) (key : Option String) (stack : List Frame)
  /-- After a value. -/
  | after (v : Json) (stack : List Frame)

/-- An object with these members; one with a key that has no value denotes nothing. -/
def ofMembers (members : List (Option String × Json)) : Json :=
  match members.mapM fun m => m.1.map fun k => (k, m.2) with
  | some ms => .obj ms
  | none => .unreadable

namespace Point

/-- Take the token that starts, or is, a value. -/
def enter (stack : List Frame) : Token → Option Point
  | .leftBracket => some (.firstItem stack)
  | .leftBrace => some (.firstKey stack)
  | .null => some (.after .null stack)
  | .bool b => some (.after (.bool b) stack)
  | .number v => some (.after v stack)
  | .text (some s) => some (.after (.str s) stack)
  | .text none => some (.after .unreadable stack)
  | _ => none

/-- Take one token. -/
def step : Point → Token → Option Point
  | value stack, t => enter stack t
  | firstItem stack, .rightBracket => some (.after (.arr []) stack)
  | firstItem stack, t => enter (.arr [] :: stack) t
  | firstKey stack, .rightBrace => some (.after (.obj []) stack)
  | firstKey stack, .text k => some (.colon [] k stack)
  | nextKey before stack, .text k => some (.colon before k stack)
  | colon before key stack, .colon => some (.value (.obj before key :: stack))
  | after v (.arr before :: stack), .comma => some (.value (.arr (v :: before) :: stack))
  | after v (.arr before :: stack), .rightBracket => some (.after (.arr (v :: before).reverse) stack)
  | after v (.obj before key :: stack), .comma => some (.nextKey ((key, v) :: before) stack)
  | after v (.obj before key :: stack), .rightBrace =>
    some (.after (ofMembers ((key, v) :: before).reverse) stack)
  | _, _ => none

/-- The value that was read, if nothing is open. -/
def result? : Point → Option Json
  | after v [] => some v
  | _ => none

end Point

/-- The value that a list of tokens is. -/
def ofTokens? (ts : List Token) : Option Json := (ts.foldlM Point.step (.value [])).bind Point.result?

/-- The value that a text is. -/
def parse? (text : String) : Option Json := (tokenize text.toList).bind ofTokens?

end Json

end TypeAtlas
