import TypeAtlas.Json.Basic

/-!
# Numbers in JSON text

A number is a whole part, perhaps a fraction, perhaps an exponent (`Numeral.ofChars?`).  A number of digits alone
is a natural number; every other one is kept as written.  A number has to fit into the range of doubles
(`Numeral.finite`): its leading digits are kept as long as they fit into 64 bits, and the value that they give with
the power of ten that remains may not round to infinity.
-/

namespace TypeAtlas

/-- A number as written: sign, digits before and after the point, and the exponent. -/
structure Numeral where
  negative : Bool
  whole : List Nat
  fraction : List Nat
  exponent : Option Int
deriving DecidableEq

namespace Numeral

/-- The value of a decimal digit. -/
def digit (c : Char) : Nat := c.toNat - '0'.toNat

/-- The value of a list of decimal digits. -/
def ofDigits (ds : List Nat) : Nat := ds.foldl (fun n d => n * 10 + d) 0

/-- The digits at the front of a text, and the rest of it. -/
def spanDigits (cs : List Char) : List Nat × List Char :=
  ((cs.takeWhile Char.isDigit).map digit, cs.dropWhile Char.isDigit)

/-- A whole part has a digit, and a leading zero stands alone. -/
def wholeOk : List Nat → Bool
  | [] => false
  | [_] => true
  | d :: _ => d != 0

/-- The fraction at the front of a text, if there is one: a point needs a digit after it. -/
def fraction? : List Char → Option (List Nat × List Char)
  | '.' :: cs =>
    match spanDigits cs with
    | ([], _) => none
    | (ds, rest) => some (ds, rest)
  | cs => some ([], cs)

/-- The sign of an exponent: whether it is negative, and the rest. -/
def exponentSign : List Char → Bool × List Char
  | '-' :: cs => (true, cs)
  | '+' :: cs => (false, cs)
  | cs => (false, cs)

/-- The exponent that a whole text is: none if the text is empty. -/
def exponent? : List Char → Option (Option Int)
  | [] => some none
  | c :: cs =>
    if c = 'e' ∨ c = 'E' then
      match exponentSign cs with
      | (negative, cs) =>
        match spanDigits cs with
        | (d :: ds, []) =>
          let n : Int := ofDigits (d :: ds)
          some (some (if negative then -n else n))
        | _ => none
    else none

/-- The number that a text is, if it is one. -/
def ofChars? (cs : List Char) : Option Numeral := do
  let (negative, cs) := match cs with
    | '-' :: cs => (true, cs)
    | cs => (false, cs)
  let (whole, cs) := spanDigits cs
  guard (wholeOk whole)
  let (fraction, cs) ← fraction? cs
  let exponent ← exponent? cs
  return { negative, whole, fraction, exponent }

/-! ## Range -/

/-- Go on reading digits after `n` while the value fits into 64 bits: the value, and how many digits it took. -/
def absorb (n : Nat) : List Nat → Nat × Nat
  | [] => (n, 0)
  | d :: ds =>
    if n * 10 + d < Nat.pow 2 64 then
      let (v, k) := absorb (n * 10 + d) ds
      (v, k + 1)
    else (n, 0)

/-- The nearest number with 53 significant bits, a tie going to the even neighbour. -/
def nearest53 (n : Nat) : Nat :=
  if n < Nat.pow 2 53 then n
  else
    let unit := Nat.pow 2 (n.log2 - 52)
    let q := n / unit
    let r := n % unit
    let up := 2 * r > unit ∨ (2 * r = unit ∧ q % 2 = 1)
    (if up then q + 1 else q) * unit

/-- The least number that rounds to infinity: half a unit above the largest double. -/
def overflow : Nat := Nat.pow 2 1024 - Nat.pow 2 970

/-- Whether a significand with a power of ten is in the range of doubles. -/
def inRange (significand : Nat) (exponent : Int) : Bool :=
  significand == 0 || decide (exponent < 0) ||
    (decide (exponent ≤ 308) && decide (nearest53 significand * nearest53 (Nat.pow 10 exponent.toNat) < overflow))

/-- Whether the number is in the range of doubles. -/
def finite (n : Numeral) : Bool :=
  let (s, kept) := absorb 0 n.whole
  let (s, places) := absorb s n.fraction
  inRange s ((n.whole.length : Int) - kept - places + n.exponent.getD 0)

/-- Whether the number is written with digits alone. -/
def plain (n : Numeral) : Bool := !n.negative && n.fraction.isEmpty && n.exponent.isNone

/-- The value of the number that is written `cs`. -/
def toJson (cs : List Char) (n : Numeral) : Json :=
  if !n.finite then .unreadable
  else if n.plain then .nat (ofDigits n.whole)
  else .numeral (String.ofList cs)

end Numeral

end TypeAtlas
