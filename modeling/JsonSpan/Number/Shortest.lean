import JsonSpan.Number.Binary64

/-!
# Shortest decimal text of a double-precision number

A finite number is written with the fewest digits that read back as the same number, and of those
with the ones nearest to it. On the grid of the multiples of `10 ^ g` only the two neighbours of the
number can be nearest, so both are read back, for `g` going down from above the number; the first
grid on which one of them reads back is the coarsest. Seventeen digits always do, and the exact
value stands at the end of the search.

The notation is positional and never has an exponent.
-/

namespace JsonSpan.Binary64

/-- The point of the grid of multiples of `10 ^ g` that is nearest to `n / d` among those that read
back as `magnitude`; of two equally near the greater. -/
def gridPoint? (magnitude n d : Nat) (g : Int) : Option Nat :=
  let (n', d') := scale 10 (-g) n d
  let low := n' / d'
  let fits (k : Nat) : Bool := nearestDecimal k g == magnitude
  if n' % d' = 0 then
    if fits low then some low else none
  else if fits (low + 1) && (!fits low || d' ≤ 2 * (n' % d')) then some (low + 1)
  else if fits low then some low
  else none

/-- The exact value of a finite magnitude as a coefficient and a power of ten. -/
def exactDecimal (magnitude : Nat) : Nat × Int :=
  let (m, q) := significand magnitude
  (m * Nat.pow 2 q.toNat * Nat.pow 5 (-q).toNat, min q 0)

/-- The first grid, going down from `10 ^ g`, that has a point which reads back. -/
def searchGrids (magnitude n d : Nat) : Nat → Int → Nat × Int
  | 0, _ => exactDecimal magnitude
  | fuel + 1, g =>
    match gridPoint? magnitude n d g with
    | some k => (k, g)
    | none => searchGrids magnitude n d fuel (g - 1)

/-- An exponent whose power of ten is greater than `n / d`, but by less than two digits. -/
def decimalSize (n d : Nat) : Int :=
  if d ≤ n then (Nat.toDigits 10 (n / d)).length
  else 2 - (Nat.toDigits 10 (d / n)).length

/-- The shortest decimal that reads back as a finite positive magnitude, as a coefficient and a
power of ten. -/
def shortest (magnitude : Nat) : Nat × Int :=
  let (m, q) := significand magnitude
  let (n, d) := scale 2 q m 1
  searchGrids magnitude n d 20 (decimalSize n d)

/-- A list without the zeros at its end. -/
def dropTrailingZeros (digits : List Char) : List Char :=
  (digits.reverse.dropWhile (· == '0')).reverse

/-- `coefficient · 10 ^ exponent` in positional notation, without a fraction that is zero. -/
def positional (coefficient : Nat) (exponent : Int) : List Char :=
  let digits := Nat.toDigits 10 coefficient
  if 0 ≤ exponent then digits ++ List.replicate exponent.toNat '0'
  else
    let places := (-exponent).toNat
    let padded := List.replicate (places + 1 - digits.length) '0' ++ digits
    let whole := padded.take (padded.length - places)
    let fraction := dropTrailingZeros (padded.drop (padded.length - places))
    if fraction.isEmpty then whole else whole ++ '.' :: fraction

/-- The text of a number: `NaN`, or a sign and `inf` or the shortest positional digits. -/
def text (x : Binary64) : String :=
  if x.isNaN then "NaN"
  else
    let body :=
      if x.magnitude = infinity then "inf".toList
      else if x.magnitude = 0 then ['0']
      else
        let (coefficient, exponent) := shortest x.magnitude
        positional coefficient exponent
    String.ofList (if x.isNegative then '-' :: body else body)

end JsonSpan.Binary64
