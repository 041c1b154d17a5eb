import JsonSpan.Proofs.Text.Decoding

/-!
# What the forgiving reading changes

Read forgivingly and written again, bytes come out as they went in exactly if they are UTF-8
(`Utf8.encode_decodeLossy_eq_iff`), and never shorter than they went in
(`Utf8.length_le_encode_decodeLossy`): U+FFFD takes three bytes, and what it stands for is cut short
after three at most.
-/

namespace JsonSpan.Utf8

/-! ### Bytes that are UTF-8 -/

theorem map_getD_of_mapM {α β : Type} {f : α → Option β} (d : β) {as : List α} {bs : List β}
    (h : as.mapM f = some bs) : as.map (fun a => (f a).getD d) = bs := by
  induction as generalizing bs with
  | nil =>
    cases h
    rfl
  | cons a as ih =>
    rw [List.mapM_cons] at h
    obtain ⟨b, hb, h⟩ := Option.bind_eq_some_iff.1 h
    obtain ⟨more, hmore, h⟩ := Option.bind_eq_some_iff.1 h
    cases h
    rw [List.map_cons, ih hmore, hb]
    rfl

theorem decodeLossy_of_decode? {bs : Bytes} {cs : List Char} (h : decode? bs = some cs) :
    decodeLossy bs = cs :=
  map_getD_of_mapM _ h

theorem isValid_encode (cs : List Char) : isValid (encode cs) := by
  rw [isValid, decode?_encode]
  rfl

theorem encode_decodeLossy_eq_iff {bs : Bytes} : encode (decodeLossy bs) = bs ↔ isValid bs := by
  constructor
  · intro h
    rw [← h]
    exact isValid_encode _
  · intro h
    obtain ⟨cs, hcs⟩ := Option.isSome_iff_exists.1 h
    rw [decodeLossy_of_decode? hcs, ← decode?_eq_some.1 hcs]

/-! ### Lengths -/

theorem length_readTail_broken {k n taken length : Nat} {r : Bytes}
    (h : readTail k n taken r = .broken length) : length < taken + k := by
  induction k generalizing n taken r with
  | zero => cases h
  | succ k ih =>
    cases r with
    | nil =>
      cases h
      omega
    | cons b r =>
      rw [readTail] at h
      split at h
      · have := ih h
        omega
      · cases h
        omega

/-- What is no character is cut short before the fourth byte. -/
theorem length_step_broken {b : UInt8} {r : Bytes} {length : Nat} (h : step b r = .broken length) :
    length ≤ 3 := by
  obtain ⟨a, ha, rfl⟩ := exists_ofNat b
  rw [step] at h
  split at h
  · cases h
    decide
  · cases h
  · next k hk =>
    have hk := tailLength?_eq_some ha hk
    split at h
    · cases h
      decide
    · dsimp only at h
      split at h
      · have := length_readTail_broken h
        omega
      · cases h
        decide

/-- The character that is written for a step. -/
def Step.written (s : Step) : Char :=
  s.char?.getD '\ufffd'

theorem length_le_written (b : UInt8) (r : Bytes) :
    (step b r).length ≤ (String.utf8EncodeChar (step b r).written).length := by
  cases h : step b r with
  | char c length =>
    obtain ⟨t, r', -, rfl, hc⟩ := step_eq_char h
    exact Nat.le_of_eq (congrArg List.length hc).symm
  | broken length => exact length_step_broken h

theorem steps_zero (b : UInt8) (r : Bytes) :
    steps 0 (b :: r) = step b r :: steps ((step b r).length - 1) r := by
  rw [steps]
  cases step b r <;> rfl

theorem length_le_encode_steps (skip : Nat) (bs : Bytes) :
    bs.length ≤ skip + (encode ((steps skip bs).map Step.written)).length := by
  induction bs generalizing skip with
  | nil => exact Nat.zero_le _
  | cons b r ih =>
    cases skip with
    | succ skip =>
      have := ih skip
      rw [steps, List.length_cons]
      omega
    | zero =>
      have hstep := length_le_written b r
      have hmore := ih ((step b r).length - 1)
      rw [steps_zero, List.map_cons, encode_cons, List.length_append, List.length_cons]
      have hpos : 0 < (String.utf8EncodeChar (step b r).written).length := by
        rw [String.length_utf8EncodeChar]
        exact Char.utf8Size_pos _
      omega

/-- No byte is lost without another in its place. -/
theorem length_le_encode_decodeLossy (bs : Bytes) :
    bs.length ≤ (encode (decodeLossy bs)).length := by
  have := length_le_encode_steps 0 bs
  rwa [Nat.zero_add] at this

end JsonSpan.Utf8
