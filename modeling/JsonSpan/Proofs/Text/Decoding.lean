import Mathlib.Data.List.Basic
import JsonSpan.Proofs.Text.Utf8

/-!
# UTF-8 has no second spelling

What is read from bytes as a text is encoded as these bytes (`Utf8.decode?_eq_some`): the ranges of
the first two bytes of a character leave no overlong form, no surrogate and nothing beyond U+10FFFF,
so the bits that are read are those that are written.
-/

namespace JsonSpan.Utf8

/-! ### Writing a number -/

theorem val_ofNat {n : Nat} (h : n.isValidChar) : (Char.ofNat n).val.toNat = n := by
  rw [Char.ofNat, dif_pos h]
  rfl

section

variable {a m m₂ m₃ : Nat}

theorem encodeChar_two (ha : 0xc2 ≤ a) (ha' : a ≤ 0xdf) (hm : m < 0x40) :
    String.utf8EncodeChar (Char.ofNat (a % 0x20 * 0x40 + m)) =
      [UInt8.ofNat a, UInt8.ofNat (m + 0x80)] := by
  generalize hn : a % 0x20 * 0x40 + m = n
  have hbits : n / 64 % 0x20 + 0xc0 = a ∧ n % 0x40 = m := by omega
  rw [String.utf8EncodeChar, val_ofNat (.inl (by omega)), if_neg (by omega), if_pos (by omega),
    hbits.1, hbits.2]

theorem encodeChar_three (ha : 0xe0 ≤ a) (ha' : a ≤ 0xef) (hm : m < 0x40) (hm₂ : m₂ < 0x40)
    (he0 : a = 0xe0 → 0x20 ≤ m) (hed : a = 0xed → m < 0x20) :
    String.utf8EncodeChar (Char.ofNat ((a % 0x10 * 0x40 + m) * 0x40 + m₂)) =
      [UInt8.ofNat a, UInt8.ofNat (m + 0x80), UInt8.ofNat (m₂ + 0x80)] := by
  generalize hn : (a % 0x10 * 0x40 + m) * 0x40 + m₂ = n
  have hbits : n / 4096 % 0x10 + 0xe0 = a ∧ n / 64 % 0x40 = m ∧ n % 0x40 = m₂ := by omega
  have hvalid : n.isValidChar := by
    rw [Nat.isValidChar]
    omega
  rw [String.utf8EncodeChar, val_ofNat hvalid, if_neg (by omega), if_neg (by omega),
    if_pos (by omega), hbits.1, hbits.2.1, hbits.2.2]

theorem encodeChar_four (ha : 0xf0 ≤ a) (ha' : a ≤ 0xf4) (hm : m < 0x40) (hm₂ : m₂ < 0x40)
    (hm₃ : m₃ < 0x40) (hf0 : a = 0xf0 → 0x10 ≤ m) (hf4 : a = 0xf4 → m < 0x10) :
    String.utf8EncodeChar (Char.ofNat (((a % 0x08 * 0x40 + m) * 0x40 + m₂) * 0x40 + m₃)) =
      [UInt8.ofNat a, UInt8.ofNat (m + 0x80), UInt8.ofNat (m₂ + 0x80), UInt8.ofNat (m₃ + 0x80)] := by
  generalize hn : ((a % 0x08 * 0x40 + m) * 0x40 + m₂) * 0x40 + m₃ = n
  have hbits : n / 262144 % 0x08 + 0xf0 = a ∧ n / 4096 % 0x40 = m ∧ n / 64 % 0x40 = m₂ ∧
      n % 0x40 = m₃ := by omega
  rw [String.utf8EncodeChar, val_ofNat (.inr ⟨by omega, by omega⟩), if_neg (by omega),
    if_neg (by omega), if_neg (by omega), hbits.1, hbits.2.1, hbits.2.2.1, hbits.2.2.2]

end

/-! ### Reading one character -/

theorem exists_ofNat (b : UInt8) : ∃ n, n < 256 ∧ b = UInt8.ofNat n :=
  ⟨b.toNat, b.toNat_lt, UInt8.ofNat_toNat.symm⟩

theorem isTail_iff {n : Nat} (h : n < 256) : isTail (UInt8.ofNat n) ↔ 0x80 ≤ n ∧ n ≤ 0xbf := by
  simp only [isTail, Bool.and_eq_true, decide_eq_true_eq, UInt8.le_iff_toNat_le, toNat_ofNat h]
  rfl

theorem exists_tail {b : UInt8} (h : isTail b) : ∃ m, m < 0x40 ∧ b = UInt8.ofNat (m + 0x80) := by
  obtain ⟨n, hn, rfl⟩ := exists_ofNat b
  rw [isTail_iff hn] at h
  refine ⟨n - 0x80, by omega, congrArg UInt8.ofNat ?_⟩
  omega

/-- Overlong forms, surrogates and numbers beyond the last character are what the range of the second
byte shuts out. -/
theorem exists_second {a : Nat} (ha : a < 256) {b : UInt8} (hlow : (second (UInt8.ofNat a)).1 ≤ b)
    (hhigh : b ≤ (second (UInt8.ofNat a)).2) :
    ∃ m, m < 0x40 ∧ b = UInt8.ofNat (m + 0x80) ∧ (a = 0xe0 → 0x20 ≤ m) ∧ (a = 0xed → m < 0x20) ∧
      (a = 0xf0 → 0x10 ≤ m) ∧ (a = 0xf4 → m < 0x10) := by
  obtain ⟨n, hn, rfl⟩ := exists_ofNat b
  rw [second_ofNat ha, UInt8.le_iff_toNat_le, toNat_ofNat hn] at hlow hhigh
  refine ⟨n - 0x80, ?_⟩
  split_ifs at hlow hhigh <;> simp at hlow hhigh
  all_goals
    refine ⟨by omega, congrArg UInt8.ofNat (by omega), by omega, by omega, by omega, by omega⟩

theorem readTail_eq_char {k n taken length : Nat} {r : Bytes} {c : Char}
    (h : readTail k n taken r = .char c length) :
    ∃ (ms : List Nat) (r' : Bytes), r = ms.map (fun m => UInt8.ofNat (m + 0x80)) ++ r' ∧
      ms.length = k ∧ (∀ m ∈ ms, m < 0x40) ∧ c = Char.ofNat (ms.foldl (· * 0x40 + ·) n) ∧
      length = taken + k := by
  induction k generalizing n taken r with
  | zero =>
    cases h
    exact ⟨[], r, rfl, rfl, by simp, rfl, rfl⟩
  | succ k ih =>
    cases r with
    | nil => cases h
    | cons b r =>
      rw [readTail] at h
      split at h
      · next hb =>
        obtain ⟨m, hm, rfl⟩ := exists_tail hb
        obtain ⟨ms, r', rfl, hlength, hms, rfl, rfl⟩ := ih h
        have hmod : (UInt8.ofNat (m + 0x80)).toNat % 0x40 = m := by
          rw [toNat_ofNat (by omega)]
          omega
        rw [hmod]
        refine ⟨m :: ms, r', rfl, congrArg (· + 1) hlength, List.forall_mem_cons.2 ⟨hm, hms⟩, rfl, ?_⟩
        omega
      · cases h

theorem tailLength?_eq_some {a k : Nat} (ha : a < 256)
    (h : tailLength? (UInt8.ofNat a) = some k) :
    k = 0 ∧ a ≤ 0x7f ∨ k = 1 ∧ 0xc2 ≤ a ∧ a ≤ 0xdf ∨ k = 2 ∧ 0xe0 ≤ a ∧ a ≤ 0xef ∨
      k = 3 ∧ 0xf0 ≤ a ∧ a ≤ 0xf4 := by
  rw [tailLength?_ofNat ha] at h
  split_ifs at h <;> cases h <;> omega

theorem encodeChar_of_tailLength? {a k m : Nat} {ms : List Nat} (ha : a < 256)
    (hk : tailLength? (UInt8.ofNat a) = some (k + 1)) (hlength : ms.length = k)
    (hm : m < 0x40) (hms : ∀ m ∈ ms, m < 0x40) (he0 : a = 0xe0 → 0x20 ≤ m)
    (hed : a = 0xed → m < 0x20) (hf0 : a = 0xf0 → 0x10 ≤ m) (hf4 : a = 0xf4 → m < 0x10) :
    String.utf8EncodeChar
        (Char.ofNat (ms.foldl (· * 0x40 + ·) (firstBits (UInt8.ofNat a) * 0x40 + m))) =
      UInt8.ofNat a :: (m :: ms).map fun m => UInt8.ofNat (m + 0x80) := by
  rw [firstBits_ofNat ha]
  rcases tailLength?_eq_some ha hk with ⟨h, _⟩ | ⟨h, hlow, hhigh⟩ | ⟨h, hlow, hhigh⟩ | ⟨h, hlow, hhigh⟩
  · cases h
  · obtain rfl := List.length_eq_zero_iff.1 (hlength.trans (Nat.succ.inj h))
    rw [if_neg (by omega), if_pos hhigh]
    exact encodeChar_two hlow hhigh hm
  · obtain ⟨m₂, rfl⟩ := List.length_eq_one_iff.1 (hlength.trans (Nat.succ.inj h))
    rw [if_neg (by omega), if_neg (by omega), if_pos hhigh]
    exact encodeChar_three hlow hhigh hm (hms m₂ (by simp)) he0 hed
  · obtain ⟨m₂, m₃, rfl⟩ := List.length_eq_two.1 (hlength.trans (Nat.succ.inj h))
    rw [if_neg (by omega), if_neg (by omega), if_neg (by omega)]
    exact encodeChar_four hlow hhigh hm (hms m₂ (by simp)) (hms m₃ (by simp)) hf0 hf4

theorem step_eq_char {b : UInt8} {r : Bytes} {c : Char} {length : Nat}
    (h : step b r = .char c length) :
    ∃ t r', r = t ++ r' ∧ length = t.length + 1 ∧ String.utf8EncodeChar c = b :: t := by
  obtain ⟨a, ha, rfl⟩ := exists_ofNat b
  rw [step] at h
  cases hk : tailLength? (UInt8.ofNat a) with
  | none =>
    rw [hk] at h
    cases h
  | some k =>
    rw [hk] at h
    cases k with
    | zero =>
      cases h
      have hle : a ≤ 0x7f := by
        have := tailLength?_eq_some ha hk
        omega
      have hval : (Char.ofNat a).toNat = a := val_ofNat (.inl (by omega))
      refine ⟨[], r, rfl, rfl, ?_⟩
      rw [toNat_ofNat ha, encodeChar_ascii (by omega), Byte.ofChar, hval]
    | succ k =>
      cases r with
      | nil => cases h
      | cons b r =>
        dsimp only at h
        split at h
        · next hrange =>
          obtain ⟨m, hm, rfl, he0, hed, hf0, hf4⟩ := exists_second ha hrange.1 hrange.2
          obtain ⟨ms, r', rfl, hlength, hms, rfl, rfl⟩ := readTail_eq_char h
          have hmod : (UInt8.ofNat (m + 0x80)).toNat % 0x40 = m := by
            rw [toNat_ofNat (by omega)]
            omega
          refine ⟨(m :: ms).map fun m => UInt8.ofNat (m + 0x80), r', rfl, ?_, ?_⟩
          · rw [List.length_map, List.length_cons, hlength]
            omega
          · rw [hmod]
            exact encodeChar_of_tailLength? ha hk hlength hm hms he0 hed hf0 hf4
        · cases h

theorem exists_encodeChar (c : Char) :
    ∃ b t, String.utf8EncodeChar c = b :: t ∧ ¬ isTail b ∧ ∀ b ∈ t, isTail b := by
  have hv : c.val.toNat < 0xd800 ∨ 0xdfff < c.val.toNat ∧ c.val.toNat < 0x110000 := c.valid
  unfold String.utf8EncodeChar
  dsimp only
  split
  · refine ⟨_, _, rfl, ?_, by simp⟩
    rw [isTail_iff (by omega)]
    omega
  · split
    · refine ⟨_, _, rfl, ?_, ?_⟩
      · rw [isTail_iff (by omega)]
        omega
      · simp only [List.forall_mem_cons]
        exact ⟨isTail_ofNat (by omega), by simp⟩
    · split
      · refine ⟨_, _, rfl, ?_, ?_⟩
        · rw [isTail_iff (by omega)]
          omega
        · simp only [List.forall_mem_cons]
          exact ⟨isTail_ofNat (by omega), isTail_ofNat (by omega), by simp⟩
      · refine ⟨_, _, rfl, ?_, ?_⟩
        · rw [isTail_iff (by omega)]
          omega
        · simp only [List.forall_mem_cons]
          exact ⟨isTail_ofNat (by omega), isTail_ofNat (by omega), isTail_ofNat (by omega), by simp⟩

/-! ### Whole texts -/

theorem exists_char_of_decode? {b : UInt8} {r : Bytes} {cs : List Char}
    (h : decode? (b :: r) = some cs) : ∃ c length, step b r = .char c length := by
  rw [decode?, steps] at h
  cases hstep : step b r with
  | char c length => exact ⟨c, length, rfl⟩
  | broken length =>
    rw [hstep, List.mapM_cons] at h
    cases h

theorem decode?_eq_some {bs : Bytes} {cs : List Char} : decode? bs = some cs ↔ bs = encode cs := by
  constructor
  · intro h
    induction hn : bs.length using Nat.strongRecOn generalizing bs cs with
    | _ n ih =>
      cases bs with
      | nil =>
        cases h
        rfl
      | cons b r =>
        obtain ⟨c, length, hstep⟩ := exists_char_of_decode? h
        obtain ⟨t, r', rfl, rfl, hc⟩ := step_eq_char hstep
        rw [decode?_of_step hstep] at h
        obtain ⟨cs', hcs', rfl⟩ := Option.map_eq_some_iff.1 h
        have hlt : r'.length < n := by
          rw [← hn, List.length_cons, List.length_append]
          omega
        rw [encode_cons, ← ih _ hlt hcs' rfl, hc, List.cons_append]
  · rintro rfl
    exact decode?_encode cs

end JsonSpan.Utf8
