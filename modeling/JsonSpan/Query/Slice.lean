/-!
# Slice arithmetic

The indices that a slice picks from an array. Negative bounds count from the end, and bounds beyond
the array are moved to its ends. Upwards the walk starts at the first element by default and ends
after the last; downwards it starts at the last and ends before the first. The last index walked to
lies strictly before the bound. A step of zero picks nothing.
-/

namespace JsonSpan.Slice

/-- A bound with the length of the array added, if it is negative. -/
def fromEnd (length i : Int) : Int :=
  if i < 0 then length + i else i

/-- An integer moved into a range. -/
def clamp (low high i : Int) : Int :=
  max low (min high i)

/-- Where a walk starts and the bound it stays before. -/
def ends (length : Int) (start stop : Option Int) (step : Int) : Int × Int :=
  if 0 < step then
    (clamp 0 length ((start.map (fromEnd length)).getD 0),
      clamp 0 length ((stop.map (fromEnd length)).getD length))
  else
    (clamp (-1) (length - 1) ((start.map (fromEnd length)).getD (length - 1)),
      clamp (-1) (length - 1) ((stop.map (fromEnd length)).getD (-1)))

/-- The walk from `i` on by steps, strictly before a bound. -/
def walk (step bound i : Int) : List Int :=
  if 0 < step ∧ i < bound ∨ step < 0 ∧ bound < i then i :: walk step bound (i + step) else []
termination_by if 0 < step then (bound - i).toNat else (i - bound).toNat
decreasing_by
  split <;> omega

/-- The indices that a slice picks from an array of some length. -/
def indices (length : Nat) (start stop step : Option Int) : List Nat :=
  let step := step.getD 1
  let (first, bound) := ends length start stop step
  (walk step bound first).filterMap Int.toNat?

end JsonSpan.Slice
