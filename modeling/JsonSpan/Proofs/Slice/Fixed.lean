import JsonSpan.Proofs.Slice.Progression

/-!
# Slices with integers of 64 bits

The bounds and the step of a slice have 64 bits, and so have the integers in between when its indices
are worked out by a machine. Here every operation is one on such integers. A sum for a bound stays at
the end of their range, a difference and the choice between two ends give nothing where they make no
sense, and a walk that would leave their range is over.

For an array that has fewer than `2 ^ 63` elements nothing of this happens, save that a walk may end by
leaving the range, and then it has already passed its bound. So the indices are those that integers
of any size give (`Slice.indices_fixed`).
-/

namespace JsonSpan.Slice

namespace Fixed

/-! ### Integers of 64 bits -/

/-- The integer in 64 bits, if it has room there. -/
def ofInt? (i : Int) : Option Int64 :=
  if Int64.minValue.toInt ≤ i ∧ i ≤ Int64.maxValue.toInt then some (Int64.ofInt i) else none

/-- A sum, if it has room. -/
def add? (i j : Int64) : Option Int64 :=
  ofInt? (i.toInt + j.toInt)

def sub? (i j : Int64) : Option Int64 :=
  ofInt? (i.toInt - j.toInt)

/-- A sum, or the end of the range that it lies beyond. -/
def saturatingAdd (i j : Int64) : Int64 :=
  (add? i j).getD (if j < 0 then Int64.minValue else Int64.maxValue)

/-- An integer moved into a range, if the range has a first and a last one. -/
def clamp? (low high i : Int64) : Option Int64 :=
  if low ≤ high then some (if i < low then low else if high < i then high else i) else none

/-- A position of an array, if the integer is one. -/
def position? (i : Int64) : Option Nat :=
  i.toInt.toNat?

/-- The length of an array, or the greatest integer there is. -/
def ofLength (length : Nat) : Int64 :=
  (ofInt? length).getD Int64.maxValue

theorem ofInt?_eq_some_iff {i : Int} {k : Int64} : ofInt? i = some k ↔ k.toInt = i := by
  rw [ofInt?, Int64.toInt_minValue, Int64.toInt_maxValue]
  constructor
  · intro h
    split at h
    · cases h
      exact Int64.toInt_ofInt_of_le (by omega) (by omega)
    · cases h
  · rintro rfl
    have hlow := k.le_toInt
    have hhigh := k.toInt_lt
    rw [if_pos (by omega), Int64.ofInt_toInt]

theorem exists_ofInt? {i : Int} (hlow : -9223372036854775808 ≤ i) (hhigh : i < 9223372036854775808) :
    ∃ k, ofInt? i = some k ∧ k.toInt = i := by
  have htoInt := Int64.toInt_ofInt_of_le hlow hhigh
  exact ⟨Int64.ofInt i, ofInt?_eq_some_iff.2 htoInt, htoInt⟩

/-! ### The indices of a slice -/

/-- A bound with the length of the array added, if it is negative. -/
def fromEnd (length i : Int64) : Int64 :=
  if i < 0 then saturatingAdd length i else i

/-- Where a walk starts and the bound it stays before. -/
def ends? (length : Int64) (start stop : Option Int64) (step : Int64) : Option (Int64 × Int64) :=
  if step = 0 then some (0, 0)
  else if 0 < step then do
    let first ← clamp? 0 length ((start.map (fromEnd length)).getD 0)
    let bound ← clamp? 0 length ((stop.map (fromEnd length)).getD length)
    return (first, bound)
  else do
    let last ← sub? length 1
    let first ← clamp? (-1) last ((start.map (fromEnd length)).getD last)
    let bound ← clamp? (-1) last ((stop.map (fromEnd length)).getD (-1))
    return (first, bound)

/-- The walk from `i` on by steps, strictly before a bound and as long as there is room. -/
def walk (step bound i : Int64) : List Int64 :=
  if 0 < step ∧ i < bound ∨ step < 0 ∧ bound < i then
    match _ : add? i step with
    | some next => i :: walk step bound next
    | none => [i]
  else []
termination_by if 0 < step then (bound.toInt - i.toInt).toNat else (i.toInt - bound.toInt).toNat
decreasing_by
  have hnext := ofInt?_eq_some_iff.1 ‹add? i step = some next›
  simp only [Int64.lt_iff_toInt_lt, Int64.toInt_zero] at *
  split <;> omega

/-- The integers that a slice of an array walks along. -/
def walked? (length : Nat) (start stop step : Option Int64) : Option (List Int64) := do
  let (first, bound) ← ends? (ofLength length) start stop (step.getD 1)
  return walk (step.getD 1) bound first

/-- The indices that a slice picks from an array of some length. -/
def indices? (length : Nat) (start stop step : Option Int64) : Option (List Nat) :=
  (walked? length start stop step).map (·.filterMap position?)

/-! ### Nothing is lost -/

variable {length step : Int64}

/-- A walk visits the integers of a walk without limits: where the next sum has no room, it lies past
the bound. -/
theorem map_toInt_walk (step bound i : Int64) :
    (walk step bound i).map (·.toInt) = Slice.walk step.toInt bound.toInt i.toInt := by
  have hstep (i : Int64) : (0 < step ∧ i < bound ∨ step < 0 ∧ bound < i) ↔
      (0 < step.toInt ∧ i.toInt < bound.toInt ∨ step.toInt < 0 ∧ bound.toInt < i.toInt) := by
    simp only [Int64.lt_iff_toInt_lt, Int64.toInt_zero]
  fun_induction walk step bound i with
  | case1 i h next hnext ih =>
    rw [List.map_cons, ih, ofInt?_eq_some_iff.1 hnext, Slice.walk.eq_def _ _ i.toInt,
      if_pos ((hstep i).1 h)]
  | case2 i h hnone =>
    have hroom : ¬∃ k, add? i step = some k := by simp [hnone]
    have hpast : Slice.walk step.toInt bound.toInt (i.toInt + step.toInt) = [] := by
      rw [Slice.walk, if_neg]
      intro hbefore
      have hlow := bound.le_toInt
      have hhigh := bound.toInt_lt
      have hi := i.le_toInt
      have hi' := i.toInt_lt
      obtain ⟨k, hk, -⟩ := exists_ofInt? (i := i.toInt + step.toInt) (by omega) (by omega)
      exact hroom ⟨k, hk⟩
    rw [List.map_cons, List.map_nil, Slice.walk.eq_def _ _ i.toInt, if_pos ((hstep i).1 h), hpast]
  | case3 i h => rw [List.map_nil, Slice.walk, if_neg fun hbefore => h ((hstep i).2 hbefore)]

theorem exists_add? (hlength : 0 ≤ length.toInt) {i : Int64} (hi : i < 0) :
    ∃ k, add? length i = some k ∧ k.toInt = length.toInt + i.toInt := by
  have hnegative := Int64.lt_iff_toInt_lt.1 hi
  have hlow := i.le_toInt
  have hhigh := length.toInt_lt
  rw [Int64.toInt_zero] at hnegative
  exact exists_ofInt? (by omega) (by omega)

theorem toInt_fromEnd (hlength : 0 ≤ length.toInt) (i : Int64) :
    (fromEnd length i).toInt = Slice.fromEnd length.toInt i.toInt := by
  have hnegative : i < 0 ↔ i.toInt < 0 := by rw [Int64.lt_iff_toInt_lt, Int64.toInt_zero]
  rw [fromEnd, Slice.fromEnd]
  split
  · next hi =>
    obtain ⟨k, hk, hsum⟩ := exists_add? hlength hi
    rw [saturatingAdd, hk, if_pos (hnegative.1 hi), Option.getD_some, hsum]
  · next hi => rw [if_neg fun h => hi (hnegative.2 h)]

theorem exists_clamp? {low high : Int64} (h : low.toInt ≤ high.toInt) (i : Int64) :
    ∃ k, clamp? low high i = some k ∧ k.toInt = clamp low.toInt high.toInt i.toInt := by
  refine ⟨_, if_pos (Int64.le_iff_toInt_le.2 h), ?_⟩
  simp only [Int64.lt_iff_toInt_lt, clamp]
  split
  · omega
  split
  · omega
  · omega

theorem exists_bound (hlength : 0 ≤ length.toInt) {low high : Int64} (h : low.toInt ≤ high.toInt)
    (given : Option Int64) (default : Int64) :
    ∃ k, clamp? low high ((given.map (fromEnd length)).getD default) = some k ∧
      k.toInt = clamp low.toInt high.toInt
        (((given.map (·.toInt)).map (Slice.fromEnd length.toInt)).getD default.toInt) := by
  cases given with
  | none => exact exists_clamp? h default
  | some i =>
    rw [Option.map_some, Option.map_some, Option.map_some, Option.getD_some, Option.getD_some,
      ← toInt_fromEnd hlength]
    exact exists_clamp? h (fromEnd length i)

theorem exists_ends? (hlength : 0 ≤ length.toInt) (start stop : Option Int64) (hstep : step ≠ 0) :
    ∃ first bound, ends? length start stop step = some (first, bound) ∧
      (first.toInt, bound.toInt) =
        ends length.toInt (start.map (·.toInt)) (stop.map (·.toInt)) step.toInt := by
  have hpositive : 0 < step ↔ 0 < step.toInt := by rw [Int64.lt_iff_toInt_lt, Int64.toInt_zero]
  have hzero : (0 : Int64).toInt = 0 := rfl
  have hone : (1 : Int64).toInt = 1 := rfl
  have hminusOne : (-1 : Int64).toInt = -1 := rfl
  rw [ends?, if_neg hstep, ends]
  by_cases hup : 0 < step
  · have hrange : (0 : Int64).toInt ≤ length.toInt := hlength
    obtain ⟨first, hfirst, hf⟩ := exists_bound hlength hrange start 0
    obtain ⟨bound, hbound, hb⟩ := exists_bound hlength hrange stop length
    rw [if_pos hup, if_pos (hpositive.1 hup), hfirst, hbound]
    exact ⟨first, bound, rfl, by rw [hf, hb, hzero]⟩
  · have hhigh := length.toInt_lt
    obtain ⟨last, hlast, hl⟩ :=
      exists_ofInt? (i := length.toInt - (1 : Int64).toInt) (by omega) (by omega)
    have hrange : (-1 : Int64).toInt ≤ last.toInt := by omega
    obtain ⟨first, hfirst, hf⟩ := exists_bound hlength hrange start last
    obtain ⟨bound, hbound, hb⟩ := exists_bound hlength hrange stop (-1)
    rw [if_neg hup, if_neg fun h => hup (hpositive.2 h), sub?, hlast, Option.bind_eq_bind,
      Option.bind_some, hfirst, hbound]
    exact ⟨first, bound, rfl, by rw [hf, hb, hl, hone, hminusOne]⟩

theorem toInt_ofLength {length : Nat} (hlength : length < Nat.pow 2 63) :
    (ofLength length).toInt = length := by
  have hhigh : length < 9223372036854775808 := hlength
  obtain ⟨k, hk, hi⟩ := exists_ofInt? (i := length) (by omega) (by omega)
  rw [ofLength, hk, Option.getD_some, hi]

theorem getD_map_toInt (step : Option Int64) :
    (step.map (·.toInt)).getD 1 = (step.getD 1).toInt := by
  cases step <;> rfl

theorem exists_walked? {length : Nat} (hlength : length < Nat.pow 2 63)
    (start stop step : Option Int64) :
    ∃ is, walked? length start stop step = some is ∧
      is.map (·.toInt) =
        sequence length (start.map (·.toInt)) (stop.map (·.toInt)) (step.map (·.toInt)) := by
  have hlen := toInt_ofLength hlength
  rw [walked?]
  by_cases hzero : step.getD 1 = 0
  · rw [sequence, getD_map_toInt, hzero, ends?, if_pos rfl]
    refine ⟨walk 0 0 0, rfl, ?_⟩
    rw [map_toInt_walk, walk_eq_progression]
    rfl
  · have hlength : 0 ≤ (ofLength length).toInt := by omega
    obtain ⟨first, bound, hends, hsame⟩ := exists_ends? hlength start stop hzero
    rw [hlen] at hsame
    rw [hends]
    refine ⟨walk (step.getD 1) bound first, rfl, ?_⟩
    rw [map_toInt_walk, ← walk_ends, getD_map_toInt, ← hsame]

theorem map_position? {length : Nat} {start stop step : Option Int} {is : List Int64}
    (h : is.map (·.toInt) = sequence length start stop step) :
    is.map position? = (indices length start stop step).map some := by
  have hposition : (is.map (·.toInt)).map Int.toNat? = is.map position? := List.map_map
  have hcast : ((indices length start stop step).map Nat.cast).map Int.toNat? =
      (indices length start stop step).map some := List.map_map
  rw [← hposition, h, ← hcast, cast_indices]

theorem filterMap_position? {is : List Int64} {found : List Nat}
    (h : is.map position? = found.map some) : is.filterMap position? = found :=
  calc is.filterMap position? = (is.map position?).filterMap id := by
        rw [List.filterMap_map, Function.id_comp]
    _ = (found.map some).filterMap id := by rw [h]
    _ = found.filterMap some := List.filterMap_map
    _ = found := List.filterMap_some

end Fixed

/-- An array of fewer than `2 ^ 63` elements has the same slices in 64 bits: the ends of the walk and
the sums for them have room, the walk loses nothing where it stops for want of room, and every
integer on it is a position. What is picked is the slice of the positions in turn: its indices lie
within the array, and they ascend or descend with the step; a step of zero picks none. -/
theorem indices_fixed {length : Nat} (hlength : length < Nat.pow 2 63)
    (start stop step : Option Int64) :
    let found := indices length (start.map (·.toInt)) (stop.map (·.toInt)) (step.map (·.toInt))
    (∃ is, Fixed.walked? length start stop step = some is ∧
      is.map Fixed.position? = found.map some ∧ Fixed.indices? length start stop step = some found) ∧
    (∀ i < 0, ∃ k, Fixed.add? (Fixed.ofLength length) i = some k) ∧
    found.map Nat.cast =
      sequence length (start.map (·.toInt)) (stop.map (·.toInt)) (step.map (·.toInt)) ∧
    (step = some 0 → found = []) ∧
    (∀ i ∈ found, i < length) ∧
    found.Pairwise fun a b => 0 < step.getD 1 ∧ a < b ∨ step.getD 1 < 0 ∧ b < a := by
  intro found
  have hcast := cast_indices length (start.map (·.toInt)) (stop.map (·.toInt)) (step.map (·.toInt))
  refine ⟨?_, ?_, hcast, ?_, fun i => lt_of_mem_indices, ?_⟩
  · obtain ⟨is, his, hsame⟩ := Fixed.exists_walked? hlength start stop step
    have hpositions := Fixed.map_position? hsame
    refine ⟨is, his, hpositions, ?_⟩
    rw [Fixed.indices?, his, Option.map_some, Fixed.filterMap_position? hpositions]
  · intro i hi
    have hlen := Fixed.toInt_ofLength hlength
    have hnonneg : 0 ≤ (Fixed.ofLength length).toInt := by omega
    obtain ⟨k, hk, -⟩ := Fixed.exists_add? hnonneg hi
    exact ⟨k, hk⟩
  · rintro rfl
    exact List.map_eq_nil_iff.1 (hcast.trans (progression_zero _ _))
  · simp only [Int64.lt_iff_toInt_lt, Int64.toInt_zero, ← Fixed.getD_map_toInt]
    exact pairwise_indices length _ _ _

/-- The last step of this walk has no room in 64 bits, and its first index counts from the end. -/
theorem indices_fixed_leaving :
    let found := indices 5 (some (-1)) none (some Int64.maxValue.toInt)
    5 < Nat.pow 2 63 ∧ Fixed.add? 4 Int64.maxValue = none ∧
    Fixed.indices? 5 (some (-1)) none (some Int64.maxValue) = some found ∧ found = [4] ∧
    sequence 5 (some (-1)) none (some Int64.maxValue.toInt) = [4] := by
  intro found
  have hfound : found = [4] := by decide +kernel
  obtain ⟨⟨_, _, _, hfixed⟩, -, hsequence, -⟩ :=
    indices_fixed (by decide : 5 < Nat.pow 2 63) (some (-1)) none (some Int64.maxValue)
  exact ⟨by decide, by decide, hfixed, hfound,
    hsequence.symm.trans (congrArg (List.map Nat.cast) hfound)⟩

end JsonSpan.Slice
