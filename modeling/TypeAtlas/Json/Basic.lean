/-!
# JSON values and their text

The value type that the readers and writers of this library share.  Objects keep the order and the repetitions of
their members, because a repeated member is an error for some readers and harmless for others.  A value may also be
*unreadable*: correctly written, and yet denoting nothing (a string with half of a surrogate pair, a number beyond
the range of a double).  Such a value may stand where nobody looks at it, and nowhere else.

`Json.render` writes a value without blanks.
-/

namespace TypeAtlas

/-- A JSON value. -/
inductive Json where
  | null
  | bool (b : Bool)
  /-- A number written with digits alone. -/
  | nat (n : Nat)
  /-- Any other number, as written. -/
  | numeral (text : String)
  | str (s : String)
  | arr (items : List Json)
  /-- The members in the order of the text, repeated ones included. -/
  | obj (members : List (String × Json))
  /-- A value that is correctly written and denotes nothing. -/
  | unreadable
deriving Inhabited

namespace Json

mutual

/-- How many arrays and objects stand inside one another. -/
def nesting : Json → Nat
  | arr items => itemsNesting items + 1
  | obj members => membersNesting members + 1
  | _ => 0

/-- The deepest nesting among the items of an array. -/
def itemsNesting : List Json → Nat
  | [] => 0
  | j :: js => max j.nesting (itemsNesting js)

/-- The deepest nesting among the members of an object. -/
def membersNesting : List (String × Json) → Nat
  | [] => 0
  | (_, j) :: ms => max j.nesting (membersNesting ms)

end

mutual

/-- Whether every part of the value denotes something. -/
def readable : Json → Bool
  | unreadable => false
  | arr items => itemsReadable items
  | obj members => membersReadable members
  | _ => true

/-- Whether every item is readable. -/
def itemsReadable : List Json → Bool
  | [] => true
  | j :: js => j.readable && itemsReadable js

/-- Whether every member is readable. -/
def membersReadable : List (String × Json) → Bool
  | [] => true
  | (_, j) :: ms => j.readable && membersReadable ms

end

/-! ## Text -/

/-- The two lower-case hexadecimal digits of a number below 256. -/
def hexPair (n : Nat) : List Char := [Nat.digitChar (n / 16), Nat.digitChar (n % 16)]

/-- A character inside a string: quotes, backslashes and control characters are escaped, nothing else is. -/
def escape (c : Char) : List Char :=
  if c = '"' then ['\\', '"']
  else if c = '\\' then ['\\', '\\']
  else if c = '\x08' then ['\\', 'b']
  else if c = '\t' then ['\\', 't']
  else if c = '\n' then ['\\', 'n']
  else if c = '\x0c' then ['\\', 'f']
  else if c = '\r' then ['\\', 'r']
  else if c.toNat < 0x20 then '\\' :: 'u' :: '0' :: '0' :: hexPair c.toNat
  else [c]

/-- A string in quotes. -/
def quote (s : String) : List Char := '"' :: s.toList.flatMap escape ++ ['"']

mutual

/-- The text of a value, without blanks. -/
def text : Json → List Char
  | null => "null".toList
  | bool true => "true".toList
  | bool false => "false".toList
  | nat n => Nat.toDigits 10 n
  | numeral t => t.toList
  | str s => quote s
  | arr [] => ['[', ']']
  | arr (j :: js) => '[' :: j.text ++ itemsText js
  | obj [] => ['\x7b', '\x7d']
  | obj ((k, j) :: ms) => '\x7b' :: quote k ++ ':' :: j.text ++ membersText ms
  | unreadable => "null".toList

/-- The items after the first one, and the closing bracket. -/
def itemsText : List Json → List Char
  | [] => [']']
  | j :: js => ',' :: j.text ++ itemsText js

/-- The members after the first one, and the closing brace. -/
def membersText : List (String × Json) → List Char
  | [] => ['\x7d']
  | (k, j) :: ms => ',' :: quote k ++ ':' :: j.text ++ membersText ms

end

/-- The text of a value as a string. -/
def render (j : Json) : String := String.ofList j.text

end Json

end TypeAtlas
