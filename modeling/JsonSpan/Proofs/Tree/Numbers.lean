import JsonSpan.Proofs.Tree.Strings

/-!
# Reading number tokens

A number token is one for the scanners too (`Numeral.isNumber`), and the decimal that is read from its
characters is the one it denotes (`Numeral.ofNumeral_chars`).
-/

namespace JsonSpan

/-! ### The parts of a number -/

theorem isDigit_iff {c : Char} : c.isDigit = true ↔ 48 ≤ c.toNat ∧ c.toNat ≤ 57 := by
  rw [Char.isDigit, Bool.and_eq_true, decide_eq_true_eq, decide_eq_true_eq]
  exact Iff.rfl

theorem isDigit_byteOfChar {c : Char} (h : c.isDigit = true) :
    Byte.isDigit (Byte.ofChar c) = true := by
  obtain ⟨hlow, hhigh⟩ := isDigit_iff.1 h
  have hb := toNat_byteOfChar (c := c) (by omega)
  simp only [Byte.isDigit, Bool.and_eq_true, decide_eq_true_eq, UInt8.le_iff_toNat_le, hb]
  exact ⟨hlow, hhigh⟩

namespace Digits

def bytes (ds : Digits) : Bytes :=
  ds.chars.map Byte.ofChar

theorem isDigit_of_mem_bytes {ds : Digits} {b : UInt8} (h : b ∈ ds.bytes) : Byte.isDigit b = true := by
  obtain ⟨c, hc, rfl⟩ := List.mem_map.1 h
  exact isDigit_byteOfChar (ds.digits c hc)

theorem isDigits (ds : Digits) : Dialect.IsDigits ds.bytes :=
  ⟨by simpa [bytes] using ds.nonempty, fun _ => isDigit_of_mem_bytes⟩

end Digits

namespace Numeral

def exponentBytes (n : Numeral) : Bytes :=
  n.exponentChars.map Byte.ofChar

def fractionBytes (n : Numeral) : Bytes :=
  n.fractionChars.map Byte.ofChar

theorem isExponent (n : Numeral) : Dialect.IsExponent n.exponentBytes := by
  unfold exponentBytes exponentChars
  cases n.exponent with
  | none => exact .absent
  | some e =>
    have hmark : Byte.ofChar (if e.capital then 'E' else 'e') = Byte.ofChar 'e' ∨
        Byte.ofChar (if e.capital then 'E' else 'e') = Byte.ofChar 'E' := by
      cases e.capital
      · exact .inl rfl
      · exact .inr rfl
    have hsign : e.sign.chars.map Byte.ofChar ∈ [[], [Byte.plus], [Byte.minus]] := by
      cases e.sign <;> decide
    have hexponent := Dialect.IsExponent.present hmark hsign e.digits.isDigits
    simpa [Exponent.chars, Digits.bytes] using hexponent

theorem isFraction (n : Numeral) : Dialect.IsFraction n.fractionBytes := by
  unfold fractionBytes fractionChars
  cases n.fraction with
  | none => exact .absent
  | some ds => exact .present ds.isDigits

def signBytes (n : Numeral) : Bytes :=
  if n.negative then [Byte.minus] else []

theorem bytes_eq (n : Numeral) :
    n.bytes = n.signBytes ++ (n.whole.bytes ++ (n.fractionBytes ++ n.exponentBytes)) := by
  cases h : n.negative <;>
    simp [bytes, chars, signBytes, h, Digits.bytes, fractionBytes, exponentBytes, List.map_append]

theorem isNumber (n : Numeral) : Dialect.IsNumber n.bytes := by
  have hsign : n.signBytes ∈ [[], [Byte.minus]] := by
    unfold signBytes
    cases n.negative <;> decide
  have hnumber := Dialect.IsNumber.mk hsign n.whole.isDigits n.isFraction n.isExponent
  rwa [List.append_assoc, List.append_assoc, ← bytes_eq] at hnumber

/-! ### The value of a number -/

end Numeral

theorem Decimal.spanDigits_append {ds r : List Char} (hd : ∀ c ∈ ds, c.isDigit)
    (hr : ∀ c ∈ r.head?, c.isDigit = false) : spanDigits (ds ++ r) = (ds, r) := by
  have hr' : r.takeWhile Char.isDigit = [] ∧ r.dropWhile Char.isDigit = r := by
    cases r with
    | nil => exact ⟨rfl, rfl⟩
    | cons c r =>
      have hc : c.isDigit = false := hr c rfl
      exact ⟨List.takeWhile_cons_of_neg (by simp [hc]), List.dropWhile_cons_of_neg (by simp [hc])⟩
  rw [spanDigits, List.takeWhile_append_of_pos hd, List.dropWhile_append_of_pos hd, hr'.1, hr'.2,
    List.append_nil]

namespace Digits

theorem spanDigits (ds : Digits) {r : List Char} (hr : ∀ c ∈ r.head?, c.isDigit = false) :
    Decimal.spanDigits (ds.chars ++ r) = (ds.chars, r) :=
  Decimal.spanDigits_append ds.digits hr

theorem exists_chars (ds : Digits) : ∃ c more, ds.chars = c :: more ∧ c.isDigit = true := by
  obtain ⟨c, more, hc⟩ := List.exists_cons_of_ne_nil ds.nonempty
  exact ⟨c, more, hc, ds.digits c (by rw [hc]; simp)⟩

end Digits

theorem Exponent.exponentOf_chars (e : Exponent) : Decimal.exponentOf e.chars = e.value := by
  have hmark : (if e.capital then 'E' else 'e') = 'e' ∨ (if e.capital then 'E' else 'e') = 'E' := by
    cases e.capital <;> decide
  have hspan : (Decimal.spanDigits e.digits.chars).1 = e.digits.chars := by
    have := e.digits.spanDigits (r := []) (by simp)
    rw [List.append_nil] at this
    rw [this]
  rw [chars, List.cons_append, Decimal.exponentOf.eq_def]
  dsimp only
  rw [if_pos hmark, value]
  cases e.sign with
  | plus => exact congrArg (fun ds => ((Decimal.ofDigits ds : Nat) : Int)) hspan
  | minus => exact congrArg (fun ds => -((Decimal.ofDigits ds : Nat) : Int)) hspan
  | none =>
    -- the first character is a digit, and so neither of the signs
    obtain ⟨c, more, hc, hd⟩ := e.digits.exists_chars
    have hminus : c ≠ '-' := by rintro rfl; exact absurd hd (by decide)
    have hplus : c ≠ '+' := by rintro rfl; exact absurd hd (by decide)
    rw [ExponentSign.chars, List.nil_append]
    dsimp only
    split
    · next heq => exact absurd (List.cons.inj (hc.symm.trans heq)).1 hminus
    · next heq => exact absurd (List.cons.inj (hc.symm.trans heq)).1 hplus
    · rw [hspan]

namespace Numeral

theorem exponentOf_exponentChars (n : Numeral) :
    Decimal.exponentOf n.exponentChars = n.exponent.elim 0 Exponent.value := by
  unfold exponentChars
  cases n.exponent with
  | none => rfl
  | some e => exact e.exponentOf_chars

theorem isDigit_head_exponentChars (n : Numeral) :
    ∀ c ∈ n.exponentChars.head?, c.isDigit = false ∧ c ≠ '.' := by
  unfold exponentChars
  cases n.exponent with
  | none => simp
  | some e =>
    intro c hc
    simp only [Exponent.chars, List.cons_append, List.head?_cons, Option.mem_some_iff] at hc
    subst hc
    cases e.capital <;> decide

theorem isDigit_head_fractionChars (n : Numeral) :
    ∀ c ∈ (n.fractionChars ++ n.exponentChars).head?, c.isDigit = false := by
  unfold fractionChars
  cases n.fraction with
  | none => exact fun c hc => (isDigit_head_exponentChars n c hc).1
  | some ds =>
    intro c hc
    cases hc
    decide

theorem spanMinus_chars (n : Numeral) :
    Decimal.spanMinus n.chars =
      (n.negative, n.whole.chars ++ (n.fractionChars ++ n.exponentChars)) := by
  unfold chars
  simp only [List.append_assoc]
  cases n.negative with
  | true => rfl
  | false =>
    obtain ⟨c, more, hc, hd⟩ := n.whole.exists_chars
    have hminus : c ≠ '-' := by rintro rfl; exact absurd hd (by decide)
    simp only [hc, Bool.false_eq_true, ↓reduceIte, List.nil_append, List.cons_append]
    unfold Decimal.spanMinus
    split
    · next heq => exact absurd (List.cons.inj heq).1 hminus
    · rfl

theorem spanFraction (n : Numeral) :
    (match n.fractionChars ++ n.exponentChars with
      | '.' :: ds => Decimal.spanDigits ds
      | ds => ([], ds)) = (n.fractionDigits, n.exponentChars) := by
  unfold fractionChars fractionDigits
  cases n.fraction with
  | none =>
    dsimp only
    rw [List.nil_append]
    split
    · next heq =>
      have := (isDigit_head_exponentChars n '.' (by rw [heq]; rfl)).2
      exact absurd rfl this
    · rfl
  | some ds => exact ds.spanDigits fun c hc => (isDigit_head_exponentChars n c hc).1

theorem ofNumeral_chars (n : Numeral) : Decimal.ofNumeral n.chars = n.value := by
  have hwhole := n.whole.spanDigits (isDigit_head_fractionChars n)
  have hfraction := n.spanFraction
  unfold Decimal.ofNumeral
  simp only [spanMinus_chars, hwhole]
  rw [value, ← exponentOf_exponentChars]
  generalize n.fractionChars ++ n.exponentChars = cs at hfraction
  split
  · next ds =>
    have h : Decimal.spanDigits ds = (n.fractionDigits, n.exponentChars) := hfraction
    simp only [h]
  · next hne =>
    have h : ([], cs) = (n.fractionDigits, n.exponentChars) := by
      split at hfraction
      · exact absurd rfl (hne _)
      · exact hfraction
    obtain ⟨hdigits, hrest⟩ := Prod.mk.inj h
    rw [← hdigits, ← hrest]

theorem toNat_lt_of_isDigit {c : Char} (h : c.isDigit = true) : c.toNat < 256 := by
  have := (isDigit_iff.1 h).2
  omega

theorem toNat_lt_of_mem_chars {n : Numeral} {c : Char} (h : c ∈ n.chars) : c.toNat < 256 := by
  have hdigits (ds : Digits) : ∀ c ∈ ds.chars, c.toNat < 256 :=
    fun c hc => toNat_lt_of_isDigit (ds.digits c hc)
  simp only [chars, List.mem_append] at h
  rcases h with ((h | h) | h) | h
  · split at h
    · rw [List.mem_singleton.1 h]
      decide
    · cases h
  · exact hdigits _ c h
  · unfold fractionChars at h
    split at h
    · rcases List.mem_cons.1 h with rfl | h
      · decide
      · exact hdigits _ c h
    · cases h
  · unfold exponentChars at h
    split at h
    · next e _ =>
      rw [Exponent.chars, List.cons_append] at h
      rcases List.mem_cons.1 h with rfl | h
      · cases e.capital <;> decide
      · rcases List.mem_append.1 h with h | h
        · cases hs : e.sign <;> rw [hs] at h <;> simp only [ExponentSign.chars, List.mem_singleton,
            List.not_mem_nil] at h <;> rw [h] <;> decide
        · exact hdigits _ c h
    · cases h

theorem asciiChars_bytes (n : Numeral) : Scalar.asciiChars n.bytes = n.chars := by
  rw [Scalar.asciiChars, bytes, List.map_map]
  refine (List.map_congr_left fun c hc => ?_).trans (List.map_id _)
  exact charOfNat_byteOfChar (toNat_lt_of_mem_chars hc)

end Numeral

end JsonSpan
