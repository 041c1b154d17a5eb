import JsonSpan.Number.Decimal

/-!
# Double-precision numbers

The 64-bit floating-point numbers, represented by their bits and computed with in exact arithmetic
on natural numbers, so that every statement about them is one about integers. Numbers are read from
decimals by rounding to nearest, a tie to the even neighbour, and compared as numbers: the two zeros
are equal and a NaN is comparable with nothing.

Below the sign bit, the bits of a number are its *magnitude*: numbers of the same sign are ordered
as their magnitudes, and the magnitude after that of the largest finite number is infinity.
-/

namespace JsonSpan

/-- A double-precision number, by its bit pattern. -/
structure Binary64 where
  bits : UInt64
  deriving DecidableEq, Repr

namespace Binary64

/-- The weight of the sign bit. -/
def signWeight : Nat := 0x8000000000000000

/-- The number of magnitudes that share one exponent. -/
def binade : Nat := 0x10000000000000

/-- The magnitude of infinity. Every greater one is a NaN. -/
def infinity : Nat := 2047 * binade

/-- The number with a sign and a magnitude. -/
def ofMagnitude (negative : Bool) (magnitude : Nat) : Binary64 :=
  ⟨((if negative then signWeight else 0) + magnitude).toUInt64⟩

def isNegative (x : Binary64) : Bool :=
  signWeight ≤ x.bits.toNat

/-- The bits below the sign. -/
def magnitude (x : Binary64) : Nat :=
  x.bits.toNat % signWeight

/-- Whether the bits denote no number. -/
def isNaN (x : Binary64) : Bool :=
  infinity < x.magnitude

/-- The integer that orders the numbers; none for a NaN. -/
def key? (x : Binary64) : Option Int :=
  if x.isNaN then none
  else if x.isNegative then some (-(x.magnitude : Int))
  else some x.magnitude

/-- How two numbers compare; not at all if either is a NaN. -/
def compare? (x y : Binary64) : Option Ordering :=
  match x.key?, y.key? with
  | some a, some b => some (compare a b)
  | _, _ => none

/-- Equality of numbers: the zeros are equal, a NaN is not equal to itself. -/
def sameNumber (x y : Binary64) : Bool :=
  x.compare? y == some .eq

/-- The significand and the power of two of a finite magnitude: it denotes `m · 2 ^ q`. -/
def significand (magnitude : Nat) : Nat × Int :=
  let exponent := magnitude / binade
  if exponent = 0 then (magnitude, -1074)
  else (binade + magnitude % binade, (exponent : Int) - 1075)

/-- `n · b ^ e / d` as a quotient of natural numbers. -/
def scale (b : Nat) (e : Int) (n d : Nat) : Nat × Nat :=
  (n * b.pow e.toNat, d * b.pow (-e).toNat)

/-- The integer nearest to `n / d`, a tie going to the even one. -/
def roundEven (n d : Nat) : Nat :=
  let q := n / d
  let r := n % d
  if 2 * r < d then q
  else if d < 2 * r then q + 1
  else q + q % 2

/-- The power of two at which the significand of `n / d` is an integer of 53 bits, or -1074 if that
is greater. -/
def unitExponent (n d : Nat) : Int :=
  let k : Int := (n.log2 : Int) - d.log2
  let (n', d') := scale 2 (52 - k) n d
  max (-1074) (if n' / d' < binade then k - 53 else k - 52)

/-- The magnitude nearest to the positive number `n / d`. A significand that rounds up to 54 bits
carries into the exponent, and from the largest finite number into infinity. -/
def nearest (n d : Nat) : Nat :=
  let q := unitExponent n d
  let (n', d') := scale 2 (-q) n d
  min infinity ((q + 1074).toNat * binade + roundEven n' d')

/-- The magnitude nearest to `coefficient · 10 ^ exponent`. What is far outside the range of finite
numbers is not computed out. -/
def nearestDecimal (coefficient : Nat) (exponent : Int) : Nat :=
  let size : Int := (Nat.toDigits 10 coefficient).length + exponent
  if coefficient = 0 ∨ size < -330 then 0
  else if 330 < size then infinity
  else
    let (n, d) := scale 10 exponent coefficient 1
    nearest n d

/-- The double-precision number nearest to a decimal. -/
def ofDecimal (d : Decimal) : Binary64 :=
  ofMagnitude d.negative (nearestDecimal d.coefficient d.exponent)

end Binary64

end JsonSpan
