import Mathlib.Data.List.Basic
import Mathlib.Data.Nat.Basic
import Mathlib.Order.Basic
import JsonSpan.Proofs.Query.Order

/-!
# Slices as progressions

A slice of a sequence is an arithmetic progression: from where it starts it goes on by its step, as
long as it stays strictly before its bound. `Slice.sequence` says so without a walk, by the number of
terms, and for all lengths, bounds and steps it is what the evaluator walks along
(`Slice.cast_indices`). Two cases are spelled out: a slice between two positions takes what lies
between them, and a slice down by one takes everything in reverse.
-/

namespace JsonSpan.Slice

/-! ### Progressions -/

/-- How many terms of a progression lie strictly before a bound: the distance to it in steps, rounded
up. -/
def count (first bound step : Int) : Nat :=
  if 0 < step then ((bound - first + step - 1) / step).toNat
  else if step < 0 then ((first - bound - step - 1) / -step).toNat
  else 0

/-- The terms of a progression up to a bound. -/
def progression (first bound step : Int) : List Int :=
  (List.range (count first bound step)).map fun k : Nat => first + k * step

theorem lt_count_iff (k : Nat) (first bound step : Int) :
    k < count first bound step ↔
      0 < step ∧ first + k * step < bound ∨ step < 0 ∧ bound < first + k * step := by
  rw [count]
  split
  · next hup =>
    rw [Int.lt_toNat, Int.lt_iff_add_one_le, Int.le_ediv_iff_mul_le hup, Int.add_mul]
    generalize (k : Int) * step = along
    omega
  split
  · next hdown =>
    have hpos : 0 < -step := by omega
    rw [Int.lt_toNat, Int.lt_iff_add_one_le, Int.le_ediv_iff_mul_le hpos, Int.add_mul, Int.mul_neg]
    generalize (k : Int) * step = along
    omega
  · omega

/-- A walk gives a progression. -/
theorem walk_eq_progression (step bound i : Int) : walk step bound i = progression i bound step := by
  fun_induction walk step bound i with
  | case1 i h ih =>
    have hcount : count i bound step = count (i + step) bound step + 1 := by
      refine eq_of_forall_lt_iff fun k => ?_
      rw [lt_count_iff]
      cases k with
      | zero => simpa using h
      | succ k =>
        have hterm : i + ((k + 1 : Nat) : Int) * step = i + step + k * step := by
          rw [Int.natCast_succ, Int.add_mul]
          omega
        rw [Nat.add_lt_add_iff_right, lt_count_iff, hterm]
    rw [ih, progression, progression, hcount, List.range_succ_eq_map, List.map_cons, List.map_map]
    congr 1
    · simp
    · refine List.map_congr_left fun k _ => ?_
      rw [Function.comp_apply, Int.natCast_succ, Int.add_mul]
      omega
  | case2 i h =>
    have hcount : count i bound step = 0 := by
      by_contra hne
      refine h ?_
      simpa using (lt_count_iff 0 i bound step).1 (Nat.pos_of_ne_zero hne)
    rw [progression, hcount]
    rfl

theorem range_of_mem_progression {first bound step i : Int} (h : i ∈ progression first bound step) :
    0 < step ∧ first ≤ i ∧ i < bound ∨ step < 0 ∧ i ≤ first ∧ bound < i := by
  obtain ⟨k, hk, rfl⟩ := List.mem_map.1 h
  rcases (lt_count_iff k first bound step).1 (List.mem_range.1 hk) with ⟨hup, hlt⟩ | ⟨hdown, hlt⟩
  · have : 0 ≤ (k : Int) * step := Int.mul_nonneg (Int.natCast_nonneg k) (Int.le_of_lt hup)
    omega
  · have : (k : Int) * step ≤ 0 :=
      Int.mul_nonpos_of_nonneg_of_nonpos (Int.natCast_nonneg k) (Int.le_of_lt hdown)
    omega

/-! ### Slices of a sequence -/

/-- A bound counted from the start of a sequence of some length, and moved to where steps in a
direction can lead: upwards up to the end, downwards to before the start. -/
def adjust (length step i : Int) : Int :=
  let i := if i < 0 then i + length else i
  let low := if step < 0 then -1 else 0
  let high := if step < 0 then length - 1 else length
  if i < low then low else if high < i then high else i

/-- The positions of a slice of a sequence of some length. -/
def sequence (length : Int) (start stop step : Option Int) : List Int :=
  let step := step.getD 1
  let first := (start.map (adjust length step)).getD (if step < 0 then length - 1 else 0)
  let bound := (stop.map (adjust length step)).getD (if step < 0 then -1 else length)
  progression first bound step

theorem progression_zero (first bound : Int) : progression first bound 0 = [] := rfl

theorem clamp_getD {length step low high default : Int}
    (h : ∀ i, clamp low high (fromEnd length i) = adjust length step i)
    (hdefault : clamp low high default = default) (given : Option Int) :
    clamp low high ((given.map (fromEnd length)).getD default) =
      (given.map (adjust length step)).getD default := by
  cases given with
  | none => exact hdefault
  | some i => exact h i

theorem walk_ends (length : Nat) (start stop step : Option Int) :
    walk (step.getD 1) (ends length start stop (step.getD 1)).2
      (ends length start stop (step.getD 1)).1 = sequence length start stop step := by
  rw [walk_eq_progression, sequence]
  generalize step.getD 1 = step
  rcases Int.lt_trichotomy step 0 with hdown | rfl | hup
  · have hadjust : ∀ i, clamp (-1) (length - 1) (fromEnd length i) = adjust length step i := by
      intro i
      simp only [clamp, fromEnd, adjust, if_pos hdown]
      omega
    have hlast : clamp (-1) (length - 1) (length - 1) = (length : Int) - 1 := by
      rw [clamp]
      omega
    have hbefore : clamp (-1) (length - 1) (-1) = -1 := by
      rw [clamp]
      omega
    rw [ends, if_neg (by omega), if_pos hdown, if_pos hdown, clamp_getD hadjust hlast,
      clamp_getD hadjust hbefore]
  · rw [progression_zero, progression_zero]
  · have hadjust : ∀ i, clamp 0 length (fromEnd length i) = adjust length step i := by
      intro i
      simp only [clamp, fromEnd, adjust, if_neg (Int.not_lt.2 (Int.le_of_lt hup))]
      omega
    have hfirst : clamp 0 length 0 = 0 := by
      rw [clamp]
      omega
    have hend : clamp 0 length length = (length : Int) := by
      rw [clamp]
      omega
    rw [ends, if_pos hup, if_neg (by omega), if_neg (by omega), clamp_getD hadjust hfirst,
      clamp_getD hadjust hend]

theorem nonneg_of_mem_sequence {length : Nat} {start stop step : Option Int} {i : Int}
    (h : i ∈ sequence length start stop step) : 0 ≤ i := by
  rw [← walk_ends, walk_eq_progression] at h
  generalize step.getD 1 = step at h
  rcases range_of_mem_progression h with ⟨hup, hle, -⟩ | ⟨hdown, -, hlt⟩
  · rw [ends, if_pos hup, clamp] at hle
    omega
  · rw [ends, if_neg (by omega)] at hlt
    simp only [clamp] at hlt
    omega

/-- The indices that the evaluator picks are the positions of the slice, none of them lost. -/
theorem cast_indices (length : Nat) (start stop step : Option Int) :
    (indices length start stop step).map Nat.cast = sequence length start stop step := by
  have hindices : indices length start stop step =
      (sequence length start stop step).filterMap Int.toNat? := by
    rw [← walk_ends]
    rfl
  rw [hindices, List.map_filterMap]
  refine (List.filterMap_congr fun i hi => ?_).trans List.filterMap_some
  obtain ⟨n, rfl⟩ := Int.eq_ofNat_of_zero_le (nonneg_of_mem_sequence hi)
  rfl

theorem indices_eq_of_sequence {length : Nat} {start stop step : Option Int} {is : List Nat}
    (h : sequence length start stop step = is.map Nat.cast) :
    indices length start stop step = is := by
  have hcast : (indices length start stop step).map (Nat.cast : Nat → Int) = is.map Nat.cast := by
    rw [cast_indices, h]
  exact List.map_injective_iff.2 (fun _ _ => Int.ofNat_inj.1) hcast

theorem indices_between (length a b : Nat) :
    indices length (some a) (some b) none =
      List.range' (min a length) (min b length - min a length) := by
  have hadjust : ∀ i : Nat, adjust length 1 i = (min i length : Nat) := by
    intro i
    simp only [adjust]
    omega
  have hcount : count (min a length : Nat) (min b length : Nat) 1 = min b length - min a length := by
    rw [count, if_pos (by decide), Int.ediv_one]
    omega
  refine indices_eq_of_sequence ?_
  rw [List.range'_eq_map_range, List.map_map]
  show progression (adjust length 1 a) (adjust length 1 b) 1 = _
  rw [hadjust, hadjust, progression, hcount]
  refine List.map_congr_left fun k _ => ?_
  simp

theorem indices_all (length : Nat) : indices length none none none = List.range length := by
  have hcount : count 0 length 1 = length := by
    rw [count, if_pos (by decide), Int.ediv_one]
    omega
  refine indices_eq_of_sequence ?_
  show progression 0 length 1 = _
  rw [progression, hcount]
  refine List.map_congr_left fun k _ => ?_
  simp

theorem indices_reverse (length : Nat) :
    indices length none none (some (-1)) = (List.range length).reverse := by
  have hcount : count ((length : Int) - 1) (-1) (-1) = length := by
    rw [count, if_neg (by decide), if_pos (by decide), Int.neg_neg, Int.ediv_one]
    omega
  refine indices_eq_of_sequence ?_
  rw [List.range_eq_range', List.reverse_range', List.map_map]
  show progression ((length : Int) - 1) (-1) (-1) = _
  rw [progression, hcount]
  refine List.map_congr_left fun k hk => ?_
  have hlt := List.mem_range.1 hk
  simp only [Function.comp_apply]
  omega

end JsonSpan.Slice
