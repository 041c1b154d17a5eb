import JsonSpan.Text.Utf8
import Mathlib.Tactic.SplitIfs

/-!
# Reading back UTF-8

The strict reading of the UTF-8 bytes of a text gives the text (`Utf8.decode?_encode`). No character
reaches over an ASCII byte, so a byte string is read in parts, before and after any such byte in it
(`Utf8.decode?_append`).
-/

namespace JsonSpan.Utf8

/-! ### Bytes as numbers -/

theorem toNat_ofNat {n : Nat} (h : n < 256) : (UInt8.ofNat n).toNat = n := by
  rw [UInt8.toNat_ofNat']
  omega

theorem isTail_ofNat {n : Nat} (h : n < 0x40) : isTail (UInt8.ofNat (n + 0x80)) = true := by
  have hn := toNat_ofNat (n := n + 0x80) (by omega)
  simp only [isTail, Bool.and_eq_true, decide_eq_true_eq, UInt8.le_iff_toNat_le, hn]
  exact ⟨by show 128 ≤ n + 128; omega, by show n + 128 ≤ 191; omega⟩

theorem tailLength?_ofNat {n : Nat} (h : n < 256) :
    tailLength? (UInt8.ofNat n) =
      if n ≤ 0x7f then some 0
      else if 0xc2 ≤ n ∧ n ≤ 0xdf then some 1
      else if 0xe0 ≤ n ∧ n ≤ 0xef then some 2
      else if 0xf0 ≤ n ∧ n ≤ 0xf4 then some 3
      else none := by
  simp only [tailLength?, UInt8.le_iff_toNat_le, toNat_ofNat h]
  rfl

theorem firstBits_ofNat {n : Nat} (h : n < 256) :
    firstBits (UInt8.ofNat n) =
      if n ≤ 0x7f then n else if n ≤ 0xdf then n % 0x20 else if n ≤ 0xef then n % 0x10
      else n % 0x08 := by
  simp only [firstBits, UInt8.le_iff_toNat_le, toNat_ofNat h]
  rfl

theorem second_ofNat {n : Nat} (h : n < 256) :
    second (UInt8.ofNat n) =
      if n = 0xe0 then (0xa0, 0xbf) else if n = 0xed then (0x80, 0x9f)
      else if n = 0xf0 then (0x90, 0xbf) else if n = 0xf4 then (0x80, 0x8f) else (0x80, 0xbf) := by
  simp only [second, ← UInt8.toNat_inj, toNat_ofNat h]
  rfl

/-! ### One character -/

theorem readTail_cons {k n taken m : Nat} {r : Bytes} (hm : m < 0x40) :
    readTail (k + 1) n taken (UInt8.ofNat (m + 0x80) :: r) =
      readTail k (n * 0x40 + m) (taken + 1) r := by
  have hn := toNat_ofNat (n := m + 0x80) (by omega)
  rw [readTail, if_pos (isTail_ofNat hm), hn]
  congr 2
  omega

theorem step_more {a m k : Nat} {r : Bytes} (hk : tailLength? (UInt8.ofNat a) = some (k + 1))
    (hm : m < 0x40) (hlow : (second (UInt8.ofNat a)).1.toNat ≤ m + 0x80)
    (hhigh : m + 0x80 ≤ (second (UInt8.ofNat a)).2.toNat) :
    step (UInt8.ofNat a) (UInt8.ofNat (m + 0x80) :: r) =
      readTail k (firstBits (UInt8.ofNat a) * 0x40 + m) 2 r := by
  have hn := toNat_ofNat (n := m + 0x80) (by omega)
  have hmod : (m + 0x80) % 0x40 = m := by omega
  rw [step, hk]
  simp only [UInt8.le_iff_toNat_le, hn]
  rw [if_pos ⟨hlow, hhigh⟩, hmod]

theorem step_two {n : Nat} {r : Bytes} (h : 0x80 ≤ n) (h' : n ≤ 0x7ff) :
    step (UInt8.ofNat (n / 64 % 0x20 + 0xc0)) (UInt8.ofNat (n % 0x40 + 0x80) :: r) =
      .char (Char.ofNat n) 2 := by
  have ha : n / 64 % 0x20 + 0xc0 < 256 := by omega
  have hk : tailLength? (UInt8.ofNat (n / 64 % 0x20 + 0xc0)) = some 1 := by
    rw [tailLength?_ofNat ha, if_neg (by omega), if_pos (by omega)]
  rw [step_more hk (by omega), readTail, firstBits_ofNat ha, if_neg (by omega), if_pos (by omega)]
  · congr 2
    omega
  · rw [second_ofNat ha]
    split_ifs <;> simp <;> omega
  · rw [second_ofNat ha]
    split_ifs <;> simp <;> omega

theorem step_three {n : Nat} {r : Bytes} (h : 0x800 ≤ n) (h' : n ≤ 0xffff)
    (hv : n < 0xd800 ∨ 0xdfff < n) :
    step (UInt8.ofNat (n / 4096 % 0x10 + 0xe0))
        (UInt8.ofNat (n / 64 % 0x40 + 0x80) :: UInt8.ofNat (n % 0x40 + 0x80) :: r) =
      .char (Char.ofNat n) 3 := by
  have ha : n / 4096 % 0x10 + 0xe0 < 256 := by omega
  have hk : tailLength? (UInt8.ofNat (n / 4096 % 0x10 + 0xe0)) = some 2 := by
    rw [tailLength?_ofNat ha, if_neg (by omega), if_neg (by omega), if_pos (by omega)]
  rw [step_more hk (by omega), readTail_cons (by omega), readTail, firstBits_ofNat ha,
    if_neg (by omega), if_neg (by omega), if_pos (by omega)]
  · congr 2
    omega
  -- overlong forms and surrogates are what the range of the second byte shuts out
  · rw [second_ofNat ha]
    split_ifs <;> simp <;> omega
  · rw [second_ofNat ha]
    split_ifs <;> simp <;> omega

theorem step_four {n : Nat} {r : Bytes} (h : 0x10000 ≤ n) (h' : n < 0x110000) :
    step (UInt8.ofNat (n / 262144 % 0x08 + 0xf0))
        (UInt8.ofNat (n / 4096 % 0x40 + 0x80) :: UInt8.ofNat (n / 64 % 0x40 + 0x80) ::
          UInt8.ofNat (n % 0x40 + 0x80) :: r) =
      .char (Char.ofNat n) 4 := by
  have ha : n / 262144 % 0x08 + 0xf0 < 256 := by omega
  have hk : tailLength? (UInt8.ofNat (n / 262144 % 0x08 + 0xf0)) = some 3 := by
    rw [tailLength?_ofNat ha, if_neg (by omega), if_neg (by omega), if_neg (by omega),
      if_pos (by omega)]
  rw [step_more hk (by omega), readTail_cons (by omega), readTail_cons (by omega), readTail,
    firstBits_ofNat ha, if_neg (by omega), if_neg (by omega), if_neg (by omega)]
  · congr 2
    omega
  · rw [second_ofNat ha]
    split_ifs <;> simp <;> omega
  · rw [second_ofNat ha]
    split_ifs <;> simp <;> omega

theorem step_encode (c : Char) (r : Bytes) :
    ∃ b t, String.utf8EncodeChar c = b :: t ∧ step b (t ++ r) = .char c (t.length + 1) := by
  have hv : c.val.toNat < 0xd800 ∨ 0xdfff < c.val.toNat ∧ c.val.toNat < 0x110000 := c.valid
  have hback : Char.ofNat c.val.toNat = c := Char.ofNat_toNat c
  unfold String.utf8EncodeChar
  dsimp only
  split
  · next h =>
    refine ⟨_, _, rfl, ?_⟩
    have hlt : c.val.toNat < 256 := by omega
    rw [step, tailLength?_ofNat hlt, if_pos h, toNat_ofNat hlt, hback]
    rfl
  · split
    · refine ⟨_, _, rfl, ?_⟩
      refine (step_two (r := r) (by omega) (by omega)).trans ?_
      rw [hback]
      rfl
    · split
      · refine ⟨_, _, rfl, ?_⟩
        refine (step_three (r := r) (by omega) (by omega) (by omega)).trans ?_
        rw [hback]
        rfl
      · refine ⟨_, _, rfl, ?_⟩
        refine (step_four (r := r) (by omega) (by omega)).trans ?_
        rw [hback]
        rfl

/-! ### Whole texts -/

theorem steps_length (t r : Bytes) : steps t.length (t ++ r) = steps 0 r := by
  induction t with
  | nil => rfl
  | cons b t ih => exact ih

theorem encode_cons (c : Char) (cs : List Char) :
    encode (c :: cs) = String.utf8EncodeChar c ++ encode cs :=
  List.flatMap_cons

theorem decode?_of_step {b : UInt8} {t r : Bytes} {c : Char}
    (h : step b (t ++ r) = .char c (t.length + 1)) :
    decode? (b :: (t ++ r)) = (decode? r).map (c :: ·) := by
  rw [decode?, steps, h]
  show (List.mapM Step.char? (.char c (t.length + 1) :: steps t.length (t ++ r))) = _
  rw [steps_length, List.mapM_cons]
  show (List.mapM Step.char? (steps 0 r) >>= fun cs => some (c :: cs)) = _
  rw [decode?]
  cases List.mapM Step.char? (steps 0 r) <;> rfl

theorem decode?_encode_append (c : Char) (r : Bytes) :
    decode? (String.utf8EncodeChar c ++ r) = (decode? r).map (c :: ·) := by
  obtain ⟨b, t, henc, hstep⟩ := step_encode c r
  rw [henc]
  exact decode?_of_step hstep

/-- Reading the bytes of a text gives the text. -/
theorem decode?_encode (cs : List Char) : decode? (encode cs) = some cs := by
  induction cs with
  | nil => rfl
  | cons c cs ih => rw [encode_cons, decode?_encode_append, ih, Option.map_some]

theorem le_of_mem_encodeChar {c : Char} {b : UInt8} (h : b ∈ String.utf8EncodeChar c) :
    0x80 ≤ b.toNat ∨ c.toNat < 0x80 ∧ b.toNat = c.toNat := by
  have hc : c.toNat = c.val.toNat := rfl
  have hv : c.val.toNat < 0xd800 ∨ 0xdfff < c.val.toNat ∧ c.val.toNat < 0x110000 := c.valid
  unfold String.utf8EncodeChar at h
  dsimp only at h
  split at h
  · rw [List.mem_singleton.1 h, toNat_ofNat (by omega)]
    omega
  · left
    split at h
    · rcases List.mem_cons.1 h with rfl | h
      · rw [toNat_ofNat (by omega)]
        omega
      · rw [List.mem_singleton.1 h, toNat_ofNat (by omega)]
        omega
    · split at h <;> simp only [List.mem_cons, List.not_mem_nil, or_false] at h
      · rcases h with rfl | rfl | rfl <;> rw [toNat_ofNat (by omega)] <;> omega
      · rcases h with rfl | rfl | rfl | rfl <;> rw [toNat_ofNat (by omega)] <;> omega

theorem encodeChar_ascii {c : Char} (h : c.toNat < 0x80) :
    String.utf8EncodeChar c = [Byte.ofChar c] := by
  have hc : c.val.toNat ≤ 0x7f := Nat.le_of_lt_succ h
  unfold String.utf8EncodeChar
  dsimp only
  rw [if_pos hc]
  rfl

theorem encode_ascii {cs : List Char} (h : ∀ c ∈ cs, c.toNat < 0x80) :
    encode cs = cs.map Byte.ofChar := by
  induction cs with
  | nil => rfl
  | cons c cs ih =>
    rw [encode_cons, encodeChar_ascii (h c (by simp)), ih fun d hd => h d (by simp [hd])]
    rfl

/-! ### Parts of a byte string -/

/-- Whether all of a byte string is UTF-8. -/
def isValid (bytes : Bytes) : Bool :=
  (decode? bytes).isSome

def Step.length : Step → Nat
  | .char _ length | .broken length => length

theorem length_readTail (k n taken : Nat) (r : Bytes) :
    (readTail k n taken r).length ≤ taken + r.length := by
  induction k generalizing n taken r with
  | zero => exact Nat.le_add_right taken r.length
  | succ k ih =>
    cases r with
    | nil => exact Nat.le_refl taken
    | cons b r =>
      unfold readTail
      split
      · have := ih (n * 0x40 + b.toNat % 0x40) (taken + 1) r
        rw [List.length_cons]
        omega
      · exact Nat.le_add_right taken _

theorem length_step (first : UInt8) (rest : Bytes) : (step first rest).length ≤ rest.length + 1 := by
  unfold step
  split
  · exact Nat.le_add_left 1 _
  · exact Nat.le_add_left 1 _
  · next k _ =>
    split
    · exact Nat.le_refl 1
    · next b r =>
      have := length_readTail k (firstBits first * 0x40 + b.toNat % 0x40) 2 r
      dsimp only
      split
      · rw [List.length_cons]
        omega
      · exact Nat.le_add_left 1 _

theorem lt_second {c : UInt8} (hc : c ≤ 0x7f) (first : UInt8) : c < (second first).1 := by
  have hlow : (0x80 : UInt8) ≤ (second first).1 := by
    unfold second
    split_ifs <;> decide
  simp only [UInt8.le_iff_toNat_le, UInt8.lt_iff_toNat_lt] at hc hlow ⊢
  exact Nat.lt_of_le_of_lt hc (Nat.lt_of_lt_of_le (by decide) hlow)

section

variable {c : UInt8} (hc : c ≤ 0x7f)

include hc

theorem readTail_append (k n taken : Nat) (r more : Bytes) :
    readTail k n taken (r ++ c :: more) = readTail k n taken r := by
  induction k generalizing n taken r with
  | zero => rfl
  | succ k ih =>
    cases r with
    | nil =>
      have htail : isTail c = false := by
        simp only [isTail, Bool.and_eq_false_iff, decide_eq_false_iff_not, UInt8.le_iff_toNat_le] at hc ⊢
        exact .inl (Nat.not_le_of_lt (Nat.lt_of_le_of_lt hc (by decide)))
      simp [readTail, htail]
    | cons b r => rw [List.cons_append, readTail, readTail, ih]

theorem step_append (first : UInt8) (r more : Bytes) : step first (r ++ c :: more) = step first r := by
  rw [step, step]
  cases tailLength? first with
  | none => rfl
  | some k =>
    cases k with
    | zero => rfl
    | succ k =>
      cases r with
      | nil =>
        have hlt := lt_second hc first
        simp only [List.nil_append]
        rw [if_neg fun h => UInt8.not_le.2 hlt h.1]
      | cons b r => simp only [List.cons_append, readTail_append hc]

theorem steps_append {skip : Nat} {a : Bytes} (h : skip ≤ a.length) (more : Bytes) :
    steps skip (a ++ c :: more) = steps skip a ++ steps 0 (c :: more) := by
  induction a generalizing skip with
  | nil =>
    rw [Nat.le_zero.1 h]
    rfl
  | cons b a ih =>
    rw [List.length_cons] at h
    cases skip with
    | succ skip => exact ih (Nat.le_of_succ_le_succ h)
    | zero =>
      have hlen := length_step b a
      rw [List.cons_append, steps, steps, step_append hc]
      cases hs : step b a with
      | char d length =>
        rw [hs, Step.length] at hlen
        exact congrArg _ (ih (by omega))
      | broken length =>
        rw [hs, Step.length] at hlen
        exact congrArg _ (ih (by omega))

/-- A byte string is read before and after an ASCII byte in it. -/
theorem decode?_append (a more : Bytes) :
    decode? (a ++ c :: more) =
      (decode? a).bind fun cs => (decode? more).map fun ds => cs ++ Char.ofNat c.toNat :: ds := by
  have hstep : steps 0 (c :: more) = .char (Char.ofNat c.toNat) 1 :: steps 0 more := by
    rw [steps, step, tailLength?, if_pos hc]
  rw [decode?, steps_append hc (Nat.zero_le _), hstep, List.mapM_append, List.mapM_cons]
  rw [decode?, decode?]
  cases List.mapM Step.char? (steps 0 a) with
  | none => rfl
  | some cs => cases List.mapM Step.char? (steps 0 more) <;> rfl

theorem isValid_append {a more : Bytes} : isValid (a ++ c :: more) ↔ isValid a ∧ isValid more := by
  unfold isValid
  rw [decode?_append hc]
  cases decode? a <;> cases decode? more <;> simp

end

theorem isValid_of_ascii {bs : Bytes} (h : ∀ b ∈ bs, b ≤ 0x7f) : isValid bs := by
  induction bs with
  | nil => rfl
  | cons b bs ih =>
    rw [List.forall_mem_cons] at h
    exact (isValid_append h.1 (a := [])).2 ⟨rfl, ih h.2⟩

end JsonSpan.Utf8

namespace JsonSpan

theorem utf8_append (a b : String) : utf8 (a ++ b) = utf8 a ++ utf8 b := by
  simp [utf8]

theorem Utf8.decode?_utf8 (s : String) : decode? (utf8 s) = some s.toList :=
  decode?_encode s.toList

theorem Utf8.isValid_utf8 (s : String) : isValid (utf8 s) := by
  rw [isValid, decode?_utf8]
  rfl

theorem mem_of_mem_utf8 {s : String} {c : Char} (hc : c.toNat < 0x80)
    (h : Byte.ofChar c ∈ utf8 s) : c ∈ s.toList := by
  have hbyte : (Byte.ofChar c).toNat = c.toNat := Utf8.toNat_ofNat (by omega)
  obtain ⟨d, hd, hmem⟩ := List.mem_flatMap.1 h
  rcases Utf8.le_of_mem_encodeChar hmem with hle | ⟨-, heq⟩
  · omega
  · rwa [Char.toNat_inj.1 (hbyte.symm.trans heq)]

end JsonSpan
