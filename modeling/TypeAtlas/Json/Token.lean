import TypeAtlas.Json.Numeral

/-!
# The tokens of JSON text

The text is scanned character by character: a `Scanner` holds what it is inside of (`Mode`) and the tokens found so
far, and `Scanner.step` takes one character.  Strings are collected in pieces, since a character outside the basic
plane may be written as two escapes (`Piece.assemble`).  Between tokens only blanks, tabs and line ends are skipped.
-/

namespace TypeAtlas

namespace Json

/-- A token.  A string that holds half of a surrogate pair is a string without a value. -/
inductive Token where
  | leftBrace
  | rightBrace
  | leftBracket
  | rightBracket
  | comma
  | colon
  | null
  | bool (b : Bool)
  /-- A number, as the value that it denotes. -/
  | number (value : Json)
  | text (s : Option String)
deriving Inhabited

/-- A piece of a string: a character, or a 16-bit unit written as an escape. -/
inductive Piece where
  | char (c : Char)
  | unit (n : Nat)
deriving DecidableEq

namespace Piece

/-- Whether a unit opens a surrogate pair. -/
def isLead (n : Nat) : Bool := decide (0xD800 ≤ n) && decide (n < 0xDC00)

/-- Whether a unit closes a surrogate pair. -/
def isTrail (n : Nat) : Bool := decide (0xDC00 ≤ n) && decide (n < 0xE000)

/-- The character of a surrogate pair. -/
def ofPair (lead trail : Nat) : Char :=
  Char.ofNat (0x10000 + (lead - 0xD800) * 0x400 + (trail - 0xDC00))

/-- The characters that the pieces spell; none if a surrogate stands alone. -/
def assemble : List Piece → Option (List Char)
  | [] => some []
  | char c :: ps => (assemble ps).map (c :: ·)
  | [unit n] => if isLead n || isTrail n then none else some [Char.ofNat n]
  | unit n :: unit m :: ps =>
    if isLead n then
      if isTrail m then (assemble ps).map (ofPair n m :: ·) else none
    else if isTrail n then none
    else (assemble (unit m :: ps)).map (Char.ofNat n :: ·)
  | unit n :: char c :: ps =>
    if isLead n || isTrail n then none
    else (assemble ps).map fun cs => Char.ofNat n :: c :: cs

end Piece

/-- What the scanner is inside of.  Lists are in reverse order of the text. -/
inductive Mode where
  /-- Between two tokens. -/
  | between
  /-- Inside `null`, `true` or `false`. -/
  | word (letters : List Char)
  /-- Inside a number. -/
  | numeral (chars : List Char)
  /-- Inside a string. -/
  | text (pieces : List Piece)
  /-- Inside a string, after a backslash. -/
  | escape (pieces : List Piece)
  /-- Inside a string, before the last `left + 1` hexadecimal digits of an escape whose digits so far give `n`. -/
  | hex (pieces : List Piece) (n left : Nat)

/-- The value of a hexadecimal digit. -/
def hexDigit? (c : Char) : Option Nat :=
  if c.isDigit then some (c.toNat - '0'.toNat)
  else if 'a' ≤ c ∧ c ≤ 'f' then some (c.toNat - 'a'.toNat + 10)
  else if 'A' ≤ c ∧ c ≤ 'F' then some (c.toNat - 'A'.toNat + 10)
  else none

/-- The character that a one-letter escape stands for. -/
def shortEscape? : Char → Option Char
  | '"' => some '"'
  | '\\' => some '\\'
  | '/' => some '/'
  | 'b' => some '\x08'
  | 'f' => some '\x0c'
  | 'n' => some '\n'
  | 'r' => some '\r'
  | 't' => some '\t'
  | _ => none

/-- The token that a word is. -/
def wordToken? (letters : List Char) : Option Token :=
  match String.ofList letters with
  | "null" => some .null
  | "true" => some (.bool true)
  | "false" => some (.bool false)
  | _ => none

/-- The token that a number is. -/
def numeralToken? (chars : List Char) : Option Token :=
  (Numeral.ofChars? chars).map fun n => .number (n.toJson chars)

/-- Whether a character may stand inside a number. -/
def isNumeralChar (c : Char) : Bool :=
  c.isDigit || c == '-' || c == '+' || c == '.' || c == 'e' || c == 'E'

/-- The scanner: where it is, and the tokens so far, last first. -/
structure Scanner where
  mode : Mode
  tokens : List Token

namespace Scanner

/-- The scanner before the first character. -/
def start : Scanner := ⟨.between, []⟩

/-- A character that starts a token, is one, or is blank. -/
def open? (tokens : List Token) (c : Char) : Option Scanner :=
  if c = ' ' ∨ c = '\t' ∨ c = '\n' ∨ c = '\r' then some ⟨.between, tokens⟩
  else if c = '\x7b' then some ⟨.between, .leftBrace :: tokens⟩
  else if c = '\x7d' then some ⟨.between, .rightBrace :: tokens⟩
  else if c = '[' then some ⟨.between, .leftBracket :: tokens⟩
  else if c = ']' then some ⟨.between, .rightBracket :: tokens⟩
  else if c = ',' then some ⟨.between, .comma :: tokens⟩
  else if c = ':' then some ⟨.between, .colon :: tokens⟩
  else if c = '"' then some ⟨.text [], tokens⟩
  else if c = '-' ∨ c.isDigit then some ⟨.numeral [c], tokens⟩
  else if c.isLower then some ⟨.word [c], tokens⟩
  else none

/-- Take one character. -/
def step (s : Scanner) (c : Char) : Option Scanner :=
  match s.mode with
  | .between => open? s.tokens c
  | .word letters =>
    if c.isLower then some ⟨.word (c :: letters), s.tokens⟩
    else do open? ((← wordToken? letters.reverse) :: s.tokens) c
  | .numeral chars =>
    if isNumeralChar c then some ⟨.numeral (c :: chars), s.tokens⟩
    else do open? ((← numeralToken? chars.reverse) :: s.tokens) c
  | .text pieces =>
    if c = '"' then
      some ⟨.between, .text ((Piece.assemble pieces.reverse).map String.ofList) :: s.tokens⟩
    else if c = '\\' then some ⟨.escape pieces, s.tokens⟩
    else if c.toNat < 0x20 then none
    else some ⟨.text (.char c :: pieces), s.tokens⟩
  | .escape pieces =>
    if c = 'u' then some ⟨.hex pieces 0 3, s.tokens⟩
    else do return ⟨.text (.char (← shortEscape? c) :: pieces), s.tokens⟩
  | .hex pieces n 0 => do return ⟨.text (.unit (n * 16 + (← hexDigit? c)) :: pieces), s.tokens⟩
  | .hex pieces n (left + 1) => do return ⟨.hex pieces (n * 16 + (← hexDigit? c)) left, s.tokens⟩

/-- The tokens at the end of the text: a word or a number may end there, a string may not. -/
def finish (s : Scanner) : Option (List Token) :=
  match s.mode with
  | .between => some s.tokens.reverse
  | .word letters => do return ((← wordToken? letters.reverse) :: s.tokens).reverse
  | .numeral chars => do return ((← numeralToken? chars.reverse) :: s.tokens).reverse
  | _ => none

end Scanner

/-- The tokens of a text. -/
def tokenize (cs : List Char) : Option (List Token) :=
  (cs.foldlM Scanner.step Scanner.start).bind Scanner.finish

end Json

end TypeAtlas
