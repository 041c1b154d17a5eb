import JsonSpan.Number.Shortest
import Mathlib.Algebra.Order.Field.Power
import Mathlib.Data.Int.Log
import Mathlib.Data.Rat.Floor
import Mathlib.Tactic.FieldSimp
import Mathlib.Tactic.GCongr
import Mathlib.Tactic.Positivity
import Mathlib.Tactic.Ring

/-!
# Rounding depends on the value alone

The number nearest to a quotient, or to a decimal, is the same for every way to write the value: the
exponent of its unit is that of the leading bit (`unitExponent_eq`), and a common factor does not
change how a quotient is rounded. A finite magnitude is nearest to its own value, so whichever grid
the search for the shortest decimal ends on, its point reads back (`nearestDecimal_shortest`).
-/

namespace JsonSpan.Binary64

/-! ### Scaled quotients -/

theorem scale_pos {b n d : Nat} (hb : 0 < b) (e : Int) (hn : 0 < n) (hd : 0 < d) :
    0 < (scale b e n d).1 ∧ 0 < (scale b e n d).2 :=
  ⟨Nat.mul_pos hn (Nat.pow_pos hb), Nat.mul_pos hd (Nat.pow_pos hb)⟩

theorem zpow_toNat_div {b : Nat} (hb : 0 < b) (e : Int) :
    (b : ℚ) ^ e.toNat / (b : ℚ) ^ (-e).toNat = (b : ℚ) ^ e := by
  have hne : (b : ℚ) ≠ 0 := by exact_mod_cast hb.ne'
  rw [← zpow_natCast, ← zpow_natCast, ← zpow_sub₀ hne]
  congr 1
  omega

theorem scale_div {b : Nat} (hb : 0 < b) (e : Int) (n d : Nat) :
    ((scale b e n d).1 : ℚ) / (scale b e n d).2 = (n : ℚ) / d * (b : ℚ) ^ e := by
  have hpow : ∀ k : Nat, ((b.pow k : Nat) : ℚ) = (b : ℚ) ^ k := fun k => Nat.cast_pow b k
  rw [← zpow_toNat_div hb e, scale, Nat.cast_mul, Nat.cast_mul, hpow, hpow, mul_div_mul_comm]

/-! ### The exponent of the unit -/

theorem log_eq_of_bounds {b : Nat} (hb : 1 < b) {r : ℚ} {k : Int} (hlow : (b : ℚ) ^ k ≤ r)
    (hhigh : r < (b : ℚ) ^ (k + 1)) : Int.log b r = k := by
  have hr : 0 < r := lt_of_lt_of_le (zpow_pos (by exact_mod_cast Nat.lt_of_succ_lt hb) k) hlow
  have h₁ := (Int.zpow_le_iff_le_log hb hr).1 hlow
  have h₂ := (Int.lt_zpow_iff_log_lt hb hr).1 hhigh
  omega

theorem log2_bounds {n d : Nat} (hn : 0 < n) (hd : 0 < d) :
    (2 : ℚ) ^ ((n.log2 : Int) - d.log2 - 1) < (n : ℚ) / d ∧
      (n : ℚ) / d < (2 : ℚ) ^ ((n.log2 : Int) - d.log2 + 1) := by
  have hdq : (0 : ℚ) < d := by exact_mod_cast hd
  have hn₁ : (2 : ℚ) ^ n.log2 ≤ n := by exact_mod_cast Nat.log2_self_le hn.ne'
  have hn₂ : (n : ℚ) < 2 ^ (n.log2 + 1) := by exact_mod_cast Nat.lt_log2_self
  have hd₁ : (2 : ℚ) ^ d.log2 ≤ d := by exact_mod_cast Nat.log2_self_le hd.ne'
  have hd₂ : (d : ℚ) < 2 ^ (d.log2 + 1) := by exact_mod_cast Nat.lt_log2_self
  constructor
  · rw [lt_div_iff₀ hdq]
    calc (2 : ℚ) ^ ((n.log2 : Int) - d.log2 - 1) * d
        < 2 ^ ((n.log2 : Int) - d.log2 - 1) * 2 ^ (d.log2 + 1) := by gcongr
      _ = 2 ^ n.log2 := by
        rw [← zpow_natCast, ← zpow_natCast, ← zpow_add₀ two_ne_zero]
        congr 1
        push_cast
        ring
      _ ≤ n := hn₁
  · rw [div_lt_iff₀ hdq]
    calc (n : ℚ) < 2 ^ (n.log2 + 1) := hn₂
      _ = 2 ^ ((n.log2 : Int) - d.log2 + 1) * 2 ^ d.log2 := by
        rw [← zpow_natCast, ← zpow_natCast, ← zpow_add₀ two_ne_zero]
        congr 1
        push_cast
        ring
      _ ≤ 2 ^ ((n.log2 : Int) - d.log2 + 1) * d := by gcongr

theorem unitExponent_eq {n d : Nat} (hn : 0 < n) (hd : 0 < d) :
    unitExponent n d = max (-1074) (Int.log 2 ((n : ℚ) / d) - 52) := by
  obtain ⟨hlow, hhigh⟩ := log2_bounds hn hd
  rw [unitExponent]
  dsimp only
  generalize (n.log2 : Int) - d.log2 = k at hlow hhigh ⊢
  have hscale := scale_div (b := 2) (by decide) (52 - k) n d
  obtain ⟨_, hpos⟩ := scale_pos (b := 2) (by decide) (52 - k) hn hd
  have hpow : (2 : ℚ) ^ (52 - k) = 2 ^ (52 : Nat) / 2 ^ k := by
    rw [zpow_sub₀ two_ne_zero]
    rfl
  have hless : (scale 2 (52 - k) n d).1 / (scale 2 (52 - k) n d).2 < binade ↔
      (n : ℚ) / d < (2 : ℚ) ^ k := by
    have hposq : (0 : ℚ) < (scale 2 (52 - k) n d).2 := by exact_mod_cast hpos
    rw [Nat.div_lt_iff_lt_mul hpos, ← Nat.cast_lt (α := ℚ), Nat.cast_mul, ← div_lt_iff₀ hposq,
      hscale, Nat.cast_ofNat, hpow]
    have hk : (0 : ℚ) < 2 ^ k := by positivity
    rw [← mul_div_assoc, div_lt_iff₀ hk]
    have hbinade : ((binade : Nat) : ℚ) = 2 ^ (52 : Nat) := by norm_num [binade]
    rw [hbinade, mul_comm]
    exact mul_lt_mul_iff_right₀ (by positivity)
  congr 1
  split
  · next h =>
    have hlog : Int.log 2 ((n : ℚ) / d) = k - 1 :=
      log_eq_of_bounds (by decide) hlow.le (by simpa using hless.1 h)
    omega
  · next h =>
    have hlog : Int.log 2 ((n : ℚ) / d) = k :=
      log_eq_of_bounds (by decide) (not_lt.1 fun hlt => h (hless.2 hlt)) hhigh
    omega

/-! ### One value, written in two ways -/

theorem roundEven_mul (n d : Nat) {j : Nat} (hj : 0 < j) :
    roundEven (n * j) (d * j) = roundEven n d := by
  have hdiv : n * j / (d * j) = n / d := Nat.mul_div_mul_right n d hj
  have hmod : n * j % (d * j) = n % d * j := Nat.mul_mod_mul_right j n d
  have hless : ∀ a b : Nat, a * j < b * j ↔ a < b := fun a b => Nat.mul_lt_mul_right hj
  rw [roundEven, roundEven]
  simp only [hdiv, hmod, ← Nat.mul_assoc, hless]

theorem roundEven_congr {n d n' d' : Nat} (hd : 0 < d) (hd' : 0 < d') (h : n * d' = n' * d) :
    roundEven n d = roundEven n' d' := by
  calc roundEven n d = roundEven (n * d') (d * d') := (roundEven_mul n d hd').symm
    _ = roundEven (n' * d) (d' * d) := by rw [h, Nat.mul_comm d d']
    _ = roundEven n' d' := roundEven_mul n' d' hd

/-- The magnitude nearest to a quotient depends on its value alone. -/
theorem nearest_congr {n d n' d' : Nat} (hn : 0 < n) (hd : 0 < d) (hn' : 0 < n') (hd' : 0 < d')
    (h : (n : ℚ) / d = (n' : ℚ) / d') : nearest n d = nearest n' d' := by
  have hq : unitExponent n d = unitExponent n' d' := by
    rw [unitExponent_eq hn hd, unitExponent_eq hn' hd', h]
  have hcross : n * d' = n' * d := by
    have hdq : (d : ℚ) ≠ 0 := by exact_mod_cast hd.ne'
    have hdq' : (d' : ℚ) ≠ 0 := by exact_mod_cast hd'.ne'
    rw [div_eq_div_iff hdq hdq'] at h
    exact_mod_cast h
  rw [nearest, nearest, hq]
  generalize unitExponent n' d' = q
  have hround : roundEven (scale 2 (-q) n d).1 (scale 2 (-q) n d).2 =
      roundEven (scale 2 (-q) n' d').1 (scale 2 (-q) n' d').2 := by
    refine roundEven_congr (scale_pos (by decide) _ hn hd).2 (scale_pos (by decide) _ hn' hd').2 ?_
    calc n * Nat.pow 2 (-q).toNat * (d' * Nat.pow 2 (- -q).toNat)
        = n * d' * (Nat.pow 2 (-q).toNat * Nat.pow 2 (- -q).toNat) := by ring
      _ = n' * d * (Nat.pow 2 (-q).toNat * Nat.pow 2 (- -q).toNat) := by rw [hcross]
      _ = n' * Nat.pow 2 (-q).toNat * (d * Nat.pow 2 (- -q).toNat) := by ring
  dsimp only
  rw [hround]

theorem length_toDigits_add {c : Nat} (hc : 0 < c) (e : Int) :
    ((Nat.toDigits 10 c).length : Int) + e = Int.log 10 ((c : ℚ) * 10 ^ e) + 1 := by
  have hpos : 0 < (Nat.toDigits 10 c).length := Nat.length_toDigits_pos
  obtain ⟨k, hk⟩ : ∃ k, (Nat.toDigits 10 c).length = k + 1 := ⟨_, (Nat.sub_add_cancel hpos).symm⟩
  have hhigh : c < 10 ^ (k + 1) :=
    (Nat.length_toDigits_le_iff (by decide) (Nat.succ_pos k)).1 hk.le
  have hlow : 10 ^ k ≤ c := by
    rcases Nat.eq_zero_or_pos k with rfl | hkpos
    · exact hc
    · refine Nat.le_of_not_lt fun hlt => ?_
      have := (Nat.length_toDigits_le_iff (b := 10) (by decide) hkpos).2 hlt
      omega
  have hten : (10 : ℚ) ≠ 0 := by norm_num
  have hscale : (0 : ℚ) < 10 ^ e := by positivity
  have hlow' : (10 : ℚ) ^ k ≤ c := by exact_mod_cast hlow
  have hhigh' : (c : ℚ) < 10 ^ (k + 1) := by exact_mod_cast hhigh
  have hlog : Int.log 10 ((c : ℚ) * 10 ^ e) = k + e := by
    refine log_eq_of_bounds (by decide) ?_ ?_
    · rw [Nat.cast_ofNat, zpow_add₀ hten, zpow_natCast]
      gcongr
    · rw [Nat.cast_ofNat, show (k : Int) + e + 1 = (k + 1 : Nat) + e by push_cast; ring,
        zpow_add₀ hten, zpow_natCast]
      gcongr
  rw [hlog, hk]
  push_cast
  ring

theorem nearestDecimal_congr {c c' : Nat} {e e' : Int}
    (h : (c : ℚ) * 10 ^ e = (c' : ℚ) * 10 ^ e') : nearestDecimal c e = nearestDecimal c' e' := by
  have hpow : ∀ e : Int, (10 : ℚ) ^ e ≠ 0 := fun e => by positivity
  rcases Nat.eq_zero_or_pos c with rfl | hc
  · have hc' : c' = 0 := by
      rw [Nat.cast_zero, zero_mul] at h
      have := (mul_eq_zero.1 h.symm).resolve_right (hpow e')
      exact_mod_cast this
    rw [hc', nearestDecimal, nearestDecimal]
    simp
  have hc' : 0 < c' := by
    refine Nat.pos_of_ne_zero ?_
    rintro rfl
    rw [Nat.cast_zero, zero_mul] at h
    have := (mul_eq_zero.1 h).resolve_right (hpow e)
    have : c = 0 := by exact_mod_cast this
    omega
  have hsize := length_toDigits_add hc e
  have hsize' := length_toDigits_add hc' e'
  rw [← h] at hsize'
  have hnearest : nearest (scale 10 e c 1).1 (scale 10 e c 1).2 =
      nearest (scale 10 e' c' 1).1 (scale 10 e' c' 1).2 := by
    obtain ⟨hn, hd⟩ := scale_pos (b := 10) (by decide) e hc Nat.one_pos
    obtain ⟨hn', hd'⟩ := scale_pos (b := 10) (by decide) e' hc' Nat.one_pos
    refine nearest_congr hn hd hn' hd' ?_
    rw [scale_div (by decide), scale_div (by decide), Nat.cast_one, div_one, div_one, Nat.cast_ofNat]
    exact h
  rw [nearestDecimal, nearestDecimal]
  dsimp only
  rw [hsize, hsize', hnearest]
  simp only [hc.ne', hc'.ne', false_or]

/-! ### Finite magnitudes read back -/

theorem roundEven_one (n : Nat) : roundEven n 1 = n := by
  have hmod : n % 1 = 0 := Nat.mod_one n
  simp [roundEven, hmod]

theorem significand_spec {magnitude m : Nat} {q : Int} (hpos : 0 < magnitude)
    (hfinite : magnitude < infinity) (h : significand magnitude = (m, q)) :
    0 < m ∧ m < 2 * binade ∧ -1074 ≤ q ∧ q ≤ 971 ∧ (q + 1074).toNat * binade + m = magnitude ∧
      (binade ≤ m ∨ q = -1074) := by
  have hinfinity : infinity = 2047 * binade := rfl
  have hbinade : 0 < binade := by decide
  have hsplit := Nat.div_add_mod magnitude binade
  have hmod := Nat.mod_lt magnitude hbinade
  rw [significand] at h
  split at h
  · next hzero =>
    cases h
    rw [hzero, Nat.mul_zero, Nat.zero_add] at hsplit
    refine ⟨hpos, by omega, by decide, by decide, by simp, .inr rfl⟩
  · next hne =>
    cases h
    have hexp : magnitude / binade < 2047 :=
      Nat.div_lt_of_lt_mul (by rw [Nat.mul_comm]; exact hfinite)
    obtain ⟨k, hk⟩ : ∃ k, magnitude / binade = k + 1 := ⟨_, (Nat.succ_pred_eq_of_ne_zero hne).symm⟩
    rw [hk] at hexp hsplit ⊢
    have hmul : binade * (k + 1) = k * binade + binade := by ring
    have hto : (((k + 1 : Nat) : Int) - 1075 + 1074).toNat = k := by omega
    rw [hto]
    refine ⟨by omega, by omega, by omega, by omega, by omega, .inl (by omega)⟩

/-- The number nearest to the value of a finite magnitude is that magnitude. -/
theorem nearest_significand {magnitude m n d : Nat} {q : Int} (hpos : 0 < magnitude)
    (hfinite : magnitude < infinity) (h : significand magnitude = (m, q)) (hn : 0 < n) (hd : 0 < d)
    (hvalue : (n : ℚ) / d = m * 2 ^ q) : nearest n d = magnitude := by
  obtain ⟨hm, hless, hlow, _, hsum, hnormal⟩ := significand_spec hpos hfinite h
  have htwo : (0 : ℚ) < 2 ^ q := by positivity
  have hbinade : ((binade : Nat) : ℚ) = 2 ^ (52 : Int) := by norm_num [binade]
  have hhigh : (m : ℚ) * 2 ^ q < 2 ^ (q + 53) := by
    have hmq : (m : ℚ) < 2 * binade := by exact_mod_cast hless
    rw [zpow_add₀ two_ne_zero, mul_comm]
    refine mul_lt_mul_of_pos_left ?_ htwo
    calc (m : ℚ) < 2 * binade := hmq
      _ = 2 ^ (53 : Int) := by rw [hbinade]; norm_num
  have hunit : unitExponent n d = q := by
    rw [unitExponent_eq hn hd, hvalue]
    have hmpos : (0 : ℚ) < m * 2 ^ q := by
      have : (0 : ℚ) < m := by exact_mod_cast hm
      positivity
    have hlog := (Int.lt_zpow_iff_log_lt (b := 2) (by decide) hmpos).1 (by exact_mod_cast hhigh)
    rcases hnormal with hnormal | rfl
    · have hge : (2 : ℚ) ^ (q + 52) ≤ m * 2 ^ q := by
        have hmq : ((binade : Nat) : ℚ) ≤ m := by exact_mod_cast hnormal
        rw [zpow_add₀ two_ne_zero, mul_comm, ← hbinade]
        gcongr
      have hlog' := (Int.zpow_le_iff_le_log (b := 2) (by decide) hmpos).1 (by exact_mod_cast hge)
      omega
    · omega
  have hround : roundEven (scale 2 (-q) n d).1 (scale 2 (-q) n d).2 = m := by
    rw [← roundEven_one m]
    refine roundEven_congr (scale_pos (by decide) _ hn hd).2 Nat.one_pos ?_
    have hdq : ((scale 2 (-q) n d).2 : ℚ) ≠ 0 := by
      exact_mod_cast (scale_pos (b := 2) (by decide) (-q) hn hd).2.ne'
    have hscale := scale_div (b := 2) (by decide) (-q) n d
    rw [hvalue, Nat.cast_ofNat, mul_assoc, ← zpow_add₀ two_ne_zero, add_neg_cancel, zpow_zero,
      mul_one, div_eq_iff hdq] at hscale
    rw [Nat.mul_one]
    exact_mod_cast hscale
  rw [nearest]
  dsimp only
  rw [hunit, hround, hsum]
  exact Nat.min_eq_right hfinite.le

/-! ### The shortest decimal reads back -/

theorem least_gt : (10 : ℚ) ^ (-331 : Int) ≤ 2 ^ (-1074 : Int) := by
  have h : 2 ^ 1074 ≤ 10 ^ 331 := by decide +kernel
  have hq : (2 : ℚ) ^ 1074 ≤ 10 ^ 331 := by exact_mod_cast h
  rw [zpow_neg, zpow_neg, zpow_ofNat, zpow_ofNat]
  exact inv_anti₀ (by positivity) hq

theorem largest_lt : 2 * (binade : ℚ) * 2 ^ (971 : Int) ≤ 10 ^ (330 : Int) := by
  have h : 2 * binade * 2 ^ 971 ≤ 10 ^ 330 := by decide +kernel
  rw [zpow_ofNat, zpow_ofNat]
  exact_mod_cast h

theorem size_exactDecimal {m : Nat} {q : Int} (hm : 0 < m) (hless : m < 2 * binade)
    (hlow : -1074 ≤ q) (hhigh : q ≤ 971) :
    -330 ≤ Int.log 10 ((m : ℚ) * 2 ^ q) + 1 ∧ Int.log 10 ((m : ℚ) * 2 ^ q) + 1 ≤ 330 := by
  have hmq : (1 : ℚ) ≤ m := by exact_mod_cast hm
  have hpos : (0 : ℚ) < m * 2 ^ q := by positivity
  have hge : (10 : ℚ) ^ (-331 : Int) ≤ m * 2 ^ q := by
    calc (10 : ℚ) ^ (-331 : Int) ≤ 2 ^ (-1074 : Int) := least_gt
      _ ≤ 2 ^ q := zpow_le_zpow_right₀ (by norm_num) hlow
      _ ≤ m * 2 ^ q := le_mul_of_one_le_left (by positivity) hmq
  have hlt : (m : ℚ) * 2 ^ q < 10 ^ (330 : Int) := by
    have hmless : (m : ℚ) < 2 * binade := by exact_mod_cast hless
    calc (m : ℚ) * 2 ^ q < 2 * binade * 2 ^ q := by gcongr
      _ ≤ 2 * binade * 2 ^ (971 : Int) :=
        mul_le_mul_of_nonneg_left (zpow_le_zpow_right₀ (by norm_num) hhigh) (by positivity)
      _ ≤ 10 ^ (330 : Int) := largest_lt
  have h₁ : -331 ≤ Int.log 10 ((m : ℚ) * 2 ^ q) :=
    (Int.zpow_le_iff_le_log (b := 10) (by decide) hpos).1 hge
  have h₂ : Int.log 10 ((m : ℚ) * 2 ^ q) < 330 :=
    (Int.lt_zpow_iff_log_lt (b := 10) (by decide) hpos).1 hlt
  omega

theorem exactDecimal_value {magnitude m : Nat} {q : Int} (h : significand magnitude = (m, q)) :
    ((exactDecimal magnitude).1 : ℚ) * 10 ^ (exactDecimal magnitude).2 = m * 2 ^ q := by
  rw [exactDecimal, h]
  dsimp only
  rcases Int.le_total 0 q with hq | hq
  · have hneg : (-q).toNat = 0 := by omega
    have hto : ((q.toNat : Nat) : Int) = q := Int.toNat_of_nonneg hq
    rw [hneg, Int.min_eq_right hq, zpow_zero, mul_one]
    show ((m * 2 ^ q.toNat * 5 ^ 0 : Nat) : ℚ) = _
    push_cast
    rw [mul_one, ← zpow_natCast, hto]
  · have hto : (((-q).toNat : Nat) : Int) = -q := Int.toNat_of_nonneg (by omega)
    have hpos : q.toNat = 0 := by omega
    rw [hpos, Int.min_eq_left hq]
    show ((m * 2 ^ 0 * 5 ^ (-q).toNat : Nat) : ℚ) * _ = _
    push_cast
    rw [mul_one, ← zpow_natCast, hto, show (10 : ℚ) = 5 * 2 by norm_num, mul_zpow, mul_assoc,
      ← mul_assoc ((5 : ℚ) ^ (-q)), ← zpow_add₀ (by norm_num), neg_add_cancel, zpow_zero, one_mul]

theorem nearestDecimal_exactDecimal {magnitude : Nat} (hpos : 0 < magnitude)
    (hfinite : magnitude < infinity) :
    nearestDecimal (exactDecimal magnitude).1 (exactDecimal magnitude).2 = magnitude := by
  obtain ⟨m, q, h⟩ : ∃ m q, significand magnitude = (m, q) := ⟨_, _, rfl⟩
  obtain ⟨hm, hless, hlow, hhigh, _, _⟩ := significand_spec hpos hfinite h
  have hvalue := exactDecimal_value h
  generalize (exactDecimal magnitude).1 = c at hvalue ⊢
  generalize (exactDecimal magnitude).2 = e at hvalue ⊢
  have hc : 0 < c := by
    refine Nat.pos_of_ne_zero ?_
    rintro rfl
    have hmq : (0 : ℚ) < m := by exact_mod_cast hm
    rw [Nat.cast_zero, zero_mul] at hvalue
    exact absurd hvalue (by positivity)
  have hsize := length_toDigits_add hc e
  obtain ⟨hsmall, hlarge⟩ := size_exactDecimal hm hless hlow hhigh
  rw [← hvalue] at hsmall hlarge
  obtain ⟨hn, hd⟩ := scale_pos (b := 10) (by decide) e hc Nat.one_pos
  have hquotient : ((scale 10 e c 1).1 : ℚ) / (scale 10 e c 1).2 = m * 2 ^ q := by
    rw [scale_div (by decide), Nat.cast_one, div_one, Nat.cast_ofNat, hvalue]
  rw [nearestDecimal]
  dsimp only
  rw [if_neg (by omega), if_neg (by omega)]
  exact nearest_significand hpos hfinite h hn hd hquotient

theorem nearestDecimal_of_gridPoint {magnitude n d k : Nat} {g : Int}
    (h : gridPoint? magnitude n d g = some k) : nearestDecimal k g = magnitude := by
  rw [gridPoint?] at h
  dsimp only at h
  split at h
  · split at h
    · next hfits =>
      cases h
      exact beq_iff_eq.1 hfits
    · cases h
  · split at h
    · next hfits =>
      cases h
      exact beq_iff_eq.1 (Bool.and_eq_true_iff.1 hfits).1
    · split at h
      · next hfits =>
        cases h
        exact beq_iff_eq.1 hfits
      · cases h

theorem nearestDecimal_searchGrids {magnitude : Nat} (hpos : 0 < magnitude)
    (hfinite : magnitude < infinity) (n d : Nat) : ∀ (fuel : Nat) (g : Int),
      nearestDecimal (searchGrids magnitude n d fuel g).1 (searchGrids magnitude n d fuel g).2 =
        magnitude
  | 0, _ => nearestDecimal_exactDecimal hpos hfinite
  | fuel + 1, g => by
    rw [searchGrids]
    split
    · next k hk => exact nearestDecimal_of_gridPoint hk
    · exact nearestDecimal_searchGrids hpos hfinite n d fuel (g - 1)

/-- The shortest decimal of a finite magnitude reads back as that magnitude. -/
theorem nearestDecimal_shortest {magnitude : Nat} (hpos : 0 < magnitude)
    (hfinite : magnitude < infinity) :
    nearestDecimal (shortest magnitude).1 (shortest magnitude).2 = magnitude :=
  nearestDecimal_searchGrids hpos hfinite _ _ 20 _

end JsonSpan.Binary64
