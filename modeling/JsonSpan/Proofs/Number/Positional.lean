import JsonSpan.Proofs.Number.Rounding
import JsonSpan.Proofs.Tree.Spelling

/-!
# The text of a number is a numeral that reads back

Positional notation writes a decimal with a whole part that starts with no superfluous zero, and with
a fraction that ends with none. What it leaves out does not change the value, so a finite number is
read back from its own text (`Binary64.exists_numeral`).
-/

namespace JsonSpan

/-! ### Digits -/

namespace Decimal

theorem ofDigits_eq (cs : List Char) : ofDigits cs = Nat.ofDigitChars 10 cs 0 :=
  Nat.ofDigitChars_eq_foldl.symm

theorem ofDigits_toDigits (n : Nat) : ofDigits (Nat.toDigits 10 n) = n := by
  rw [ofDigits_eq, Nat.ofDigitChars_ten_toDigits]

theorem ofDigits_append_zeros (cs : List Char) (k : Nat) :
    ofDigits (cs ++ List.replicate k '0') = ofDigits cs * 10 ^ k := by
  rw [ofDigits_eq, ofDigits_eq, Nat.ofDigitChars_append, Nat.ofDigitChars_replicate_zero, Nat.mul_comm]

theorem ofDigits_zeros_append (cs : List Char) (k : Nat) :
    ofDigits (List.replicate k '0' ++ cs) = ofDigits cs := by
  rw [ofDigits_eq, ofDigits_eq, Nat.ofDigitChars_append, Nat.ofDigitChars_replicate_zero, Nat.mul_zero]

theorem isDigit_of_mem_toDigits {n : Nat} {c : Char} (h : c ∈ Nat.toDigits 10 n) : c.isDigit :=
  Nat.isDigit_of_mem_toDigits (by decide) (by decide) h

theorem head?_toDigits {n : Nat} (hn : 0 < n) : (Nat.toDigits 10 n).head? ≠ some '0' := by
  induction n using Nat.strongRecOn with
  | ind n ih =>
    rw [Nat.toDigits_eq_if (by decide)]
    split
    · next hless =>
      have hall : ∀ m < 10, 0 < m → [Nat.digitChar m].head? ≠ some '0' := by decide
      exact hall n hless hn
    · next hge =>
      have hmore := ih (n / 10) (by omega) (by omega)
      rwa [List.head?_append_of_ne_nil _ Nat.toDigits_ne_nil]

end Decimal

def Digits.ofNat (n : Nat) : Digits :=
  ⟨Nat.toDigits 10 n, Nat.toDigits_ne_nil, fun _ => Decimal.isDigit_of_mem_toDigits⟩

namespace Binary64

/-! ### Positional notation -/

theorem dropTrailingZeros_append (cs : List Char) :
    ∃ k, cs = dropTrailingZeros cs ++ List.replicate k '0' := by
  have hall : ∀ c ∈ cs.reverse.takeWhile (· == '0'), c = '0' := fun c hc =>
    beq_iff_eq.1 (List.all_eq_true.1 List.all_takeWhile c hc)
  refine ⟨(cs.reverse.takeWhile (· == '0')).length, ?_⟩
  have hzeros := List.eq_replicate_of_mem hall
  have hsplit : cs.reverse.takeWhile (· == '0') ++ cs.reverse.dropWhile (· == '0') = cs.reverse :=
    List.takeWhile_append_dropWhile
  have hreverse := congrArg List.reverse hsplit
  rw [List.reverse_append, List.reverse_reverse, hzeros, List.reverse_replicate] at hreverse
  exact hreverse.symm

/-- The digits of a number with zeros before them, so that more than a number of places are there. -/
def paddedDigits (c places : Nat) : List Char :=
  List.replicate (places + 1 - (Nat.toDigits 10 c).length) '0' ++ Nat.toDigits 10 c

theorem isDigit_of_mem_paddedDigits {c places : Nat} : ∀ d ∈ paddedDigits c places, d.isDigit := by
  intro d hd
  rcases List.mem_append.1 hd with hd | hd
  · rw [List.eq_of_mem_replicate hd]
    decide
  · exact Decimal.isDigit_of_mem_toDigits hd

theorem length_paddedDigits (c places : Nat) :
    places < (paddedDigits c places).length := by
  rw [paddedDigits, List.length_append, List.length_replicate]
  omega

theorem noLeadingZero_paddedDigits {c : Nat} (hc : 0 < c) (places : Nat) :
    (paddedDigits c places).take ((paddedDigits c places).length - places) = ['0'] ∨
      ((paddedDigits c places).take ((paddedDigits c places).length - places)).head? ≠ some '0' := by
  have hlength : (paddedDigits c places).length =
      places + 1 - (Nat.toDigits 10 c).length + (Nat.toDigits 10 c).length := by
    rw [paddedDigits, List.length_append, List.length_replicate]
  by_cases hle : (Nat.toDigits 10 c).length ≤ places
  · left
    obtain ⟨k, hk⟩ : ∃ k, places + 1 - (Nat.toDigits 10 c).length = k + 1 :=
      ⟨places - (Nat.toDigits 10 c).length, by omega⟩
    have hone : (paddedDigits c places).length - places = 1 := by omega
    rw [hone, paddedDigits, hk]
    rfl
  · right
    have hzero : places + 1 - (Nat.toDigits 10 c).length = 0 := by omega
    have hpadded : paddedDigits c places = Nat.toDigits 10 c := by
      rw [paddedDigits, hzero]
      rfl
    rw [hpadded, List.head?_take, if_neg (by omega)]
    exact Decimal.head?_toDigits hc

theorem positional_of_neg (c : Nat) {e : Int} (he : ¬0 ≤ e) {whole all : List Char}
    (hwhole : (paddedDigits c (-e).toNat).take ((paddedDigits c (-e).toNat).length - (-e).toNat) = whole)
    (hall : (paddedDigits c (-e).toNat).drop ((paddedDigits c (-e).toNat).length - (-e).toNat) = all) :
    positional c e = if (dropTrailingZeros all).isEmpty then whole
      else whole ++ '.' :: dropTrailingZeros all := by
  rw [← hwhole, ← hall, positional]
  dsimp only
  rw [if_neg he]
  rfl

theorem exists_numeral_whole {c : Nat} (hc : 0 < c) {e : Int} (he : 0 ≤ e) :
    ∃ n : Numeral, n.negative = false ∧ n.chars = positional c e ∧
      (n.value.coefficient : ℚ) * 10 ^ n.value.exponent = (c : ℚ) * 10 ^ e := by
  have hpositional : positional c e = Nat.toDigits 10 c ++ List.replicate e.toNat '0' := by
    rw [positional]
    exact if_pos he
  have hdigits : ∀ d ∈ Nat.toDigits 10 c ++ List.replicate e.toNat '0', d.isDigit := by
    intro d hd
    rcases List.mem_append.1 hd with hd | hd
    · exact Decimal.isDigit_of_mem_toDigits hd
    · rw [List.eq_of_mem_replicate hd]
      decide
  have hhead : (Nat.toDigits 10 c ++ List.replicate e.toNat '0').head? ≠ some '0' := by
    rw [List.head?_append_of_ne_nil _ Nat.toDigits_ne_nil]
    exact Decimal.head?_toDigits hc
  refine ⟨⟨false, ⟨_, by simp, hdigits⟩, none, none, .inr hhead⟩, rfl, ?_, ?_⟩
  · simp [Numeral.chars, Numeral.fractionChars, Numeral.exponentChars, hpositional]
  · have hto : ((e.toNat : Nat) : Int) = e := Int.toNat_of_nonneg he
    simp only [Numeral.value, Numeral.fractionDigits, List.append_nil, Option.elim_none,
      List.length_nil, Nat.cast_zero, sub_zero, zpow_zero, mul_one, Decimal.ofDigits_append_zeros,
      Decimal.ofDigits_toDigits]
    push_cast
    rw [← zpow_natCast, hto]

theorem value_without_zeros {c k : Nat} {whole fraction : List Char}
    (hvalue : Decimal.ofDigits (whole ++ fraction ++ List.replicate k '0') = c) :
    (Decimal.ofDigits (whole ++ fraction) : ℚ) * 10 ^ (0 - (fraction.length : Int)) =
      (c : ℚ) * 10 ^ (-((fraction.length : Int) + k)) := by
  have hten : (10 : ℚ) ≠ 0 := by norm_num
  rw [Decimal.ofDigits_append_zeros] at hvalue
  rw [← hvalue]
  push_cast
  rw [mul_assoc, ← zpow_natCast, ← zpow_add₀ hten]
  congr 2
  ring

theorem exists_numeral_places {c : Nat} (hc : 0 < c) {e : Int} (he : ¬0 ≤ e) :
    ∃ n : Numeral, n.negative = false ∧ n.chars = positional c e ∧
      (n.value.coefficient : ℚ) * 10 ^ n.value.exponent = (c : ℚ) * 10 ^ e := by
  have hto : (((-e).toNat : Nat) : Int) = -e := Int.toNat_of_nonneg (by omega)
  rw [positional_of_neg c he rfl rfl]
  generalize (-e).toNat = places at hto ⊢
  have hwhole := noLeadingZero_paddedDigits hc places
  have hlength := length_paddedDigits c places
  have hdigits := @isDigit_of_mem_paddedDigits c places
  have hvalue : Decimal.ofDigits (paddedDigits c places) = c := by
    rw [paddedDigits, Decimal.ofDigits_zeros_append, Decimal.ofDigits_toDigits]
  have hsplit := List.take_append_drop ((paddedDigits c places).length - places)
    (paddedDigits c places)
  have hfraction : ((paddedDigits c places).drop
      ((paddedDigits c places).length - places)).length = places := by
    rw [List.length_drop]
    omega
  have hne : (paddedDigits c places).take ((paddedDigits c places).length - places) ≠ [] := by
    rw [← List.length_pos_iff, List.length_take]
    omega
  generalize (paddedDigits c places).take ((paddedDigits c places).length - places) = whole
    at hwhole hsplit hne ⊢
  generalize (paddedDigits c places).drop ((paddedDigits c places).length - places) = all
    at hsplit hfraction ⊢
  obtain ⟨k, hk⟩ := dropTrailingZeros_append all
  generalize dropTrailingZeros all = fraction at hk ⊢
  rw [← hsplit, hk, ← List.append_assoc] at hdigits hvalue
  have hexponent : e = -((fraction.length : Int) + k) := by
    rw [hk, List.length_append, List.length_replicate] at hfraction
    omega
  have hsame := value_without_zeros hvalue
  rw [← hexponent] at hsame
  have hwholeDigits : ∀ d ∈ whole, d.isDigit := fun d hd => hdigits d (by simp [hd])
  have hfractionDigits : ∀ d ∈ fraction, d.isDigit := fun d hd => hdigits d (by simp [hd])
  by_cases hnil : fraction = []
  · subst hnil
    exact ⟨⟨false, ⟨whole, hne, hwholeDigits⟩, none, none, hwhole⟩, rfl,
      by simp [Numeral.chars, Numeral.fractionChars, Numeral.exponentChars], hsame⟩
  · rw [if_neg (by simpa using hnil)]
    exact ⟨⟨false, ⟨whole, hne, hwholeDigits⟩, some ⟨fraction, hnil, hfractionDigits⟩, none, hwhole⟩,
      rfl, by simp [Numeral.chars, Numeral.fractionChars, Numeral.exponentChars], hsame⟩

theorem exists_numeral_positional {c : Nat} (hc : 0 < c) (e : Int) :
    ∃ n : Numeral, n.negative = false ∧ n.chars = positional c e ∧
      (n.value.coefficient : ℚ) * 10 ^ n.value.exponent = (c : ℚ) * 10 ^ e := by
  by_cases he : 0 ≤ e
  · exact exists_numeral_whole hc he
  · exact exists_numeral_places hc he

/-! ### Sign and magnitude -/

def isFinite (x : Binary64) : Bool :=
  x.magnitude < infinity

theorem ofMagnitude_magnitude (x : Binary64) : ofMagnitude x.isNegative x.magnitude = x := by
  have hbits : x.bits.toNat < 2 * signWeight := x.bits.toNat_lt
  have hsum : (if x.isNegative then signWeight else 0) + x.magnitude = x.bits.toNat := by
    have hpos : 0 < signWeight := by decide
    have hsplit := Nat.div_add_mod x.bits.toNat signWeight
    rw [isNegative, magnitude]
    by_cases hle : signWeight ≤ x.bits.toNat
    · have hone : x.bits.toNat / signWeight = 1 :=
        Nat.div_eq_of_lt_le (by omega) (by omega)
      rw [if_pos (by simpa using hle), ← hsplit, hone, Nat.mul_one]
      simp
    · rw [if_neg (by simpa using hle), Nat.mod_eq_of_lt (by omega), Nat.zero_add]
  rw [ofMagnitude, hsum]
  obtain ⟨bits⟩ := x
  exact congrArg mk (UInt64.ofNat_toNat)

/-- A finite number is read back from its text, which is a numeral. -/
theorem exists_numeral {x : Binary64} (hx : x.isFinite) :
    ∃ n : Numeral, n.chars = x.text.toList ∧ ofDecimal n.value = x := by
  have hfinite : x.magnitude < infinity := by simpa [isFinite] using hx
  have hnan : x.isNaN = false := by
    simpa [isNaN] using hfinite.le
  -- It is enough to find a numeral for the magnitude: the sign stands before it.
  suffices h : ∃ n : Numeral, n.negative = false ∧
      n.chars = (if x.magnitude = 0 then ['0'] else
        positional (shortest x.magnitude).1 (shortest x.magnitude).2) ∧
      nearestDecimal n.value.coefficient n.value.exponent = x.magnitude by
    obtain ⟨n, hnegative, hchars, hvalue⟩ := h
    refine ⟨{ n with negative := x.isNegative }, ?_, ?_⟩
    · rw [text, hnan, if_neg Bool.false_ne_true, if_neg hfinite.ne, String.toList_ofList]
      dsimp only
      rw [← hchars]
      cases hsign : x.isNegative <;>
        simp [Numeral.chars, Numeral.fractionChars, Numeral.exponentChars, hnegative]
    · rw [ofDecimal]
      calc ofMagnitude x.isNegative (nearestDecimal n.value.coefficient n.value.exponent)
          = ofMagnitude x.isNegative x.magnitude := by rw [hvalue]
        _ = x := ofMagnitude_magnitude x
  by_cases hzero : x.magnitude = 0
  · refine ⟨⟨false, ⟨['0'], by decide, by decide⟩, none, none, .inl rfl⟩, rfl, ?_, ?_⟩
    · rw [if_pos hzero]
      rfl
    · rw [hzero]
      rfl
  · have hpos : 0 < x.magnitude := Nat.pos_of_ne_zero hzero
    have hback := nearestDecimal_shortest hpos hfinite
    have hcoefficient : 0 < (shortest x.magnitude).1 := by
      rw [Nat.pos_iff_ne_zero]
      intro hnone
      rw [hnone, nearestDecimal] at hback
      simp at hback
      omega
    obtain ⟨n, hnegative, hchars, hvalue⟩ :=
      exists_numeral_positional hcoefficient (shortest x.magnitude).2
    refine ⟨n, hnegative, ?_, ?_⟩
    · rw [if_neg hzero, hchars]
    · rw [nearestDecimal_congr hvalue, hback]

theorem text_mem_of_not_isFinite {x : Binary64} (hx : x.isFinite = false) :
    x.text ∈ ["NaN", "inf", "-inf"] := by
  have hge : infinity ≤ x.magnitude := by simpa [isFinite] using hx
  rw [text]
  by_cases hnan : x.isNaN = true
  · rw [if_pos hnan]
    decide
  · have hinf : x.magnitude = infinity := by
      have hle : x.magnitude ≤ infinity := by simpa [isNaN] using hnan
      omega
    rw [if_neg hnan, if_pos hinf]
    cases x.isNegative <;> decide

end Binary64

end JsonSpan
