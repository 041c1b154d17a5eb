/-!
# Decimal numerals

A numeral is an optional minus sign, digits, an optional fraction and an optional exponent. It
denotes `± coefficient · 10 ^ exponent`, and reading it loses nothing: rounding is the business of
`JsonSpan.Binary64`.
-/

namespace JsonSpan

/-- A signed number `± coefficient · 10 ^ exponent`. -/
structure Decimal where
  negative : Bool
  coefficient : Nat
  exponent : Int
  deriving DecidableEq, Repr

namespace Decimal

def digitValue (c : Char) : Nat :=
  c.toNat - '0'.toNat

/-- The number that digits denote, the first the most significant. -/
def ofDigits (digits : List Char) : Nat :=
  digits.foldl (fun n c => 10 * n + digitValue c) 0

/-- The digits at the front of a text, and what follows them. -/
def spanDigits (cs : List Char) : List Char × List Char :=
  (cs.takeWhile Char.isDigit, cs.dropWhile Char.isDigit)

/-- A minus sign at the front, and what follows it. -/
def spanMinus : List Char → Bool × List Char
  | '-' :: cs => (true, cs)
  | cs => (false, cs)

/-- The exponent at the front of a text: `e` or `E`, a sign or none, and digits. -/
def exponentOf : List Char → Int
  | c :: cs =>
    if c = 'e' ∨ c = 'E' then
      match cs with
      | '-' :: ds => -(ofDigits (spanDigits ds).1 : Int)
      | '+' :: ds => ofDigits (spanDigits ds).1
      | ds => ofDigits (spanDigits ds).1
    else 0
  | [] => 0

/-- The number that the numeral at the front of a text denotes. Digits after the point add to the
coefficient and lower the exponent by one each. -/
def ofNumeral (cs : List Char) : Decimal :=
  let (negative, cs) := spanMinus cs
  let (whole, cs) := spanDigits cs
  let (fraction, cs) :=
    match cs with
    | '.' :: ds => spanDigits ds
    | ds => ([], ds)
  ⟨negative, ofDigits (whole ++ fraction), exponentOf cs - fraction.length⟩

end Decimal

end JsonSpan
