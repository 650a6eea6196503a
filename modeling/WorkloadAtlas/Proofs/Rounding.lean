import Mathlib
import WorkloadAtlas.Number.Decimal
/-!
Rounding to the nearest double. The reals that round to one double fill an interval around its value; a quotient that
lies in the interval of a double is rounded to that double.
-/

namespace WorkloadAtlas.Number

theorem zpow_eq_div {a : ℚ} (ha : a ≠ 0) (k : ℤ) : a ^ k = a ^ k.toNat / a ^ (-k).toNat := by
  rw [← zpow_natCast, ← zpow_natCast, ← zpow_sub₀ ha]
  congr 1
  omega

theorem two_zpow_pos (k : ℤ) : (0 : ℚ) < 2 ^ k :=
  zpow_pos (by norm_num) k

theorem two_zpow_sub_one (k : ℤ) : (2 : ℚ) ^ (k - 1) = 1 / 2 * 2 ^ k := by
  rw [zpow_sub₀ two_ne_zero, zpow_one]
  ring

theorem ten_zpow_pos (k : ℤ) : (0 : ℚ) < 10 ^ k :=
  zpow_pos (by norm_num) k

/-- A half is rounded to the even neighbour, so an odd number must be nearer than that. -/
theorem roundDiv_eq {num den n : Nat} (hden : 0 < den) (low : 2 * (n * den) ≤ 2 * num + den)
    (high : 2 * num ≤ 2 * (n * den) + den)
    (odd : n % 2 = 1 → 2 * (n * den) < 2 * num + den ∧ 2 * num < 2 * (n * den) + den) : roundDiv num den = n := by
  have hnum := Nat.div_add_mod num den
  have hmod := Nat.mod_lt num hden
  have hle : num / den ≤ n := by
    rw [← Nat.lt_succ_iff, Nat.div_lt_iff_lt_mul hden, Nat.succ_mul]
    omega
  have hge : n ≤ num / den + 1 := by
    by_contra hlt
    have hmul : den * (num / den + 2) ≤ den * n := Nat.mul_le_mul_left den (by omega)
    rw [Nat.mul_add, Nat.mul_comm den n] at hmul
    omega
  unfold roundDiv
  simp only
  generalize num / den = quotient at hnum hle hge
  rcases Nat.lt_or_eq_of_le hle with hlt | rfl
  · obtain rfl : n = quotient + 1 := by omega
    have hmul : (quotient + 1) * den = den * quotient + den := by
      rw [Nat.succ_mul, Nat.mul_comm]
    rw [hmul] at low high odd
    have hfirst : ¬ 2 * (num % den) < den := by omega
    rw [if_neg hfirst]
    split
    · rfl
    · omega
  · rw [Nat.mul_comm quotient den] at low high odd
    split
    · rfl
    · have hsecond : ¬ den < 2 * (num % den) := by omega
      rw [if_neg hsecond]
      omega

theorem roundDiv_eq_of_near {num den n : Nat} (hden : 0 < den) (low : (n : ℚ) - 1 / 2 ≤ num / den)
    (high : (num : ℚ) / den ≤ n + 1 / 2)
    (odd : n % 2 = 1 → (n : ℚ) - 1 / 2 < num / den ∧ (num : ℚ) / den < n + 1 / 2) : roundDiv num den = n := by
  have hpos : (0 : ℚ) < den := by exact_mod_cast hden
  apply roundDiv_eq hden
  · rw [le_div_iff₀ hpos] at low
    have h : (2 * (n * den) : ℚ) ≤ 2 * num + den := by linarith
    exact_mod_cast h
  · rw [div_le_iff₀ hpos] at high
    have h : (2 * num : ℚ) ≤ 2 * (n * den) + den := by linarith
    exact_mod_cast h
  · intro hodd
    obtain ⟨hlow, hhigh⟩ := odd hodd
    rw [lt_div_iff₀ hpos] at hlow
    rw [div_lt_iff₀ hpos] at hhigh
    have hlow' : (2 * (n * den) : ℚ) < 2 * num + den := by linarith
    have hhigh' : (2 * num : ℚ) < 2 * (n * den) + den := by linarith
    exact ⟨by exact_mod_cast hlow', by exact_mod_cast hhigh'⟩

section Nearest

variable {num den : Nat}

theorem reaches_iff (hden : 0 < den) (k : ℤ) :
    Format.reaches num den k = true ↔ (2 : ℚ) ^ k ≤ num / den := by
  have hpos : (0 : ℚ) < den := by exact_mod_cast hden
  have hdown : (0 : ℚ) < 2 ^ (-k).toNat := by positivity
  unfold Format.reaches
  rw [decide_eq_true_iff, zpow_eq_div two_ne_zero, div_le_div_iff₀ hdown hpos, mul_comm (2 ^ k.toNat : ℚ)]
  norm_cast

/-- The power of two at which the first digit of a quotient stands. -/
def power (num den : Nat) : ℤ :=
  let guess : ℤ := (num.log2 : ℤ) - den.log2
  if Format.reaches num den guess then guess else guess - 1

theorem power_spec (hnum : 0 < num) (hden : 0 < den) :
    (2 : ℚ) ^ power num den ≤ num / den ∧ (num : ℚ) / den < 2 ^ (power num den + 1) := by
  have hpos : (0 : ℚ) < den := by exact_mod_cast hden
  have hnum2 : (2 : ℚ) ^ (num.log2 : ℤ) ≤ num ∧ (num : ℚ) < 2 ^ ((num.log2 : ℤ) + 1) := by
    constructor
    · exact_mod_cast Nat.log2_self_le hnum.ne'
    · exact_mod_cast Nat.lt_log2_self
  have hden2 : (2 : ℚ) ^ (den.log2 : ℤ) ≤ den ∧ (den : ℚ) < 2 ^ ((den.log2 : ℤ) + 1) := by
    constructor
    · exact_mod_cast Nat.log2_self_le hden.ne'
    · exact_mod_cast Nat.lt_log2_self
  have hbelow : (2 : ℚ) ^ ((num.log2 : ℤ) - den.log2 - 1) ≤ num / den := by
    rw [le_div_iff₀ hpos]
    calc (2 : ℚ) ^ ((num.log2 : ℤ) - den.log2 - 1) * den
        ≤ 2 ^ ((num.log2 : ℤ) - den.log2 - 1) * 2 ^ ((den.log2 : ℤ) + 1) :=
          mul_le_mul_of_nonneg_left hden2.2.le (two_zpow_pos _).le
      _ = 2 ^ (num.log2 : ℤ) := by
          rw [← zpow_add₀ two_ne_zero]
          congr 1
          ring
      _ ≤ num := hnum2.1
  have habove : (num : ℚ) / den < 2 ^ ((num.log2 : ℤ) - den.log2 + 1) := by
    rw [div_lt_iff₀ hpos]
    calc (num : ℚ) < 2 ^ ((num.log2 : ℤ) + 1) := hnum2.2
      _ = 2 ^ ((num.log2 : ℤ) - den.log2 + 1) * 2 ^ (den.log2 : ℤ) := by
          rw [← zpow_add₀ two_ne_zero]
          congr 1
          ring
      _ ≤ 2 ^ ((num.log2 : ℤ) - den.log2 + 1) * den :=
          mul_le_mul_of_nonneg_left hden2.1 (two_zpow_pos _).le
  unfold power
  simp only
  split
  · next hreaches => exact ⟨(reaches_iff hden _).1 hreaches, habove⟩
  · next hreaches =>
    rw [reaches_iff hden, not_le] at hreaches
    rw [sub_add_cancel]
    exact ⟨hbelow, hreaches⟩

theorem power_eq (hden : 0 < den) {k : ℤ} (low : (2 : ℚ) ^ k ≤ num / den)
    (high : (num : ℚ) / den < 2 ^ (k + 1)) :
    power num den = k := by
  have hnum : 0 < num := by
    apply Nat.pos_of_ne_zero
    rintro rfl
    rw [Nat.cast_zero, zero_div] at low
    exact absurd low (not_le.2 (two_zpow_pos k))
  obtain ⟨hlow, hhigh⟩ := power_spec hnum hden
  have hle := (zpow_lt_zpow_iff_right₀ one_lt_two).1 (hlow.trans_lt high)
  have hge := (zpow_lt_zpow_iff_right₀ one_lt_two).1 (low.trans_lt hhigh)
  omega

theorem power_le (hnum : 0 < num) (hden : 0 < den) {k : ℤ} (high : (num : ℚ) / den < 2 ^ (k + 1)) :
    power num den ≤ k := by
  have hlt := (zpow_lt_zpow_iff_right₀ one_lt_two).1 ((power_spec hnum hden).1.trans_lt high)
  omega

/-- The bits of a quotient that is rounded at a known place. -/
theorem nearest_eq (hnum : 0 < num) (hden : 0 < den) {place : ℤ} {n : Nat}
    (hplace : max (power num den - 52) (-1074) = place) (low : ((n : ℚ) - 1 / 2) * 2 ^ place ≤ num / den)
    (high : (num : ℚ) / den ≤ (n + 1 / 2) * 2 ^ place)
    (odd : n % 2 = 1 → ((n : ℚ) - 1 / 2) * 2 ^ place < num / den ∧ (num : ℚ) / den < (n + 1 / 2) * 2 ^ place) :
    double.nearest num den = min ((place + 1074).toNat * 2 ^ 52 + n) double.infinity := by
  have hunit := two_zpow_pos place
  have hdown : 0 < den * 2 ^ place.toNat := Nat.mul_pos hden (by positivity)
  have hquotient : ((num * 2 ^ (-place).toNat : Nat) : ℚ) / (den * 2 ^ place.toNat : Nat) =
      num / den / 2 ^ place := by
    rw [zpow_eq_div two_ne_zero]
    push_cast
    rw [div_div_eq_mul_div, div_mul_eq_mul_div, div_div]
  have hround : roundDiv (num * 2 ^ (-place).toNat) (den * 2 ^ place.toNat) = n := by
    apply roundDiv_eq_of_near hdown
    · rw [hquotient, le_div_iff₀ hunit]
      exact low
    · rw [hquotient, div_le_iff₀ hunit]
      exact high
    · intro hodd
      rw [hquotient, lt_div_iff₀ hunit, div_lt_iff₀ hunit]
      exact odd hodd
  unfold Format.nearest
  rw [if_neg hnum.ne']
  have hpower : (if Format.reaches num den ((num.log2 : ℤ) - den.log2) then (num.log2 : ℤ) - den.log2
    else (num.log2 : ℤ) - den.log2 - 1) = power num den := rfl
  have hprecision : ((double.precision - 1 : Nat) : ℤ) = 52 := rfl
  have hleast : double.leastExponent = -1074 := rfl
  simp only [hpower, hprecision, hleast, hplace]
  have hpow (k : Nat) : Nat.pow 2 k = 2 ^ k := rfl
  rw [hpow, hpow, hpow, hround]
  congr 2

end Nearest

/-- The value of a finite double without its sign. -/
def Binary.value (b : Binary) : ℚ :=
  b.significand * 2 ^ b.exponent

/-- What bits below those of infinity are decoded to. -/
structure Binary.IsDouble (b : Binary) : Prop where
  significand_lt : b.significand < 2 ^ 53
  least_le : -1074 ≤ b.exponent
  le_greatest : b.exponent ≤ 971
  full : -1074 < b.exponent → 2 ^ 52 ≤ b.significand

theorem decode_spec {bits : Nat} (h : bits < double.infinity) :
    (double.decode bits).IsDouble ∧
      ((double.decode bits).exponent + 1074).toNat * 2 ^ 52 + (double.decode bits).significand = bits := by
  have hinfinity : double.infinity = 2047 * 2 ^ 52 := rfl
  have hunit : Nat.pow 2 (double.precision - 1) = 2 ^ 52 := rfl
  have hleast : double.leastExponent = -1074 := rfl
  have hmod := Nat.mod_lt bits (Nat.two_pow_pos 52)
  have hsum := Nat.div_add_mod bits (2 ^ 52)
  rw [hinfinity] at h
  unfold Format.decode
  simp only [hunit, hleast]
  by_cases hstep : bits / 2 ^ 52 = 0
  · rw [if_pos hstep]
    refine ⟨⟨?_, ?_, ?_, ?_⟩, ?_⟩ <;> simp only <;> omega
  · rw [if_neg hstep]
    refine ⟨⟨?_, ?_, ?_, ?_⟩, ?_⟩ <;> simp only <;> omega

namespace Interval

/-- The reals of the interval. -/
def Holds (i : Interval) (q : ℚ) : Prop :=
  if i.closed then (i.low : ℚ) / i.den ≤ q ∧ q ≤ i.high / i.den
  else (i.low : ℚ) / i.den < q ∧ q < i.high / i.den

theorem contains_iff {i : Interval} (hden : 0 < i.den) (count : Nat) (power : ℤ) :
    i.contains count power = true ↔ i.Holds (count * 10 ^ power) := by
  have hpos : (0 : ℚ) < i.den := by exact_mod_cast hden
  have hdown : (0 : ℚ) < 10 ^ (-power).toNat := by positivity
  have hle (a b : Nat) : (a : ℚ) / i.den ≤ b / 10 ^ (-power).toNat ↔ a * 10 ^ (-power).toNat ≤ b * i.den := by
    rw [div_le_div_iff₀ hpos hdown]
    norm_cast
  have hge (a b : Nat) : (b : ℚ) / 10 ^ (-power).toNat ≤ a / i.den ↔ b * i.den ≤ a * 10 ^ (-power).toNat := by
    rw [div_le_div_iff₀ hdown hpos]
    norm_cast
  have hpoint : (count : ℚ) * 10 ^ power = (count * 10 ^ power.toNat : Nat) / 10 ^ (-power).toNat := by
    rw [zpow_eq_div (by norm_num), mul_div_assoc']
    push_cast
    rfl
  have hpow (k : Nat) : Nat.pow 10 k = 10 ^ k := rfl
  unfold contains Holds
  simp only [hpow]
  rw [hpoint]
  cases i.closed with
  | true => simp only [↓reduceIte, decide_eq_true_iff, hle, hge]
  | false => simp only [Bool.false_eq_true, ↓reduceIte, decide_eq_true_iff, ← not_le, hle, hge]

end Interval

section Double

variable {b : Binary}

theorem ofBinary_den_pos (b : Binary) : 0 < (Interval.ofBinary b).den :=
  Nat.two_pow_pos _

theorem ofBinary_scale (b : Binary) (n : Nat) :
    ((n * Nat.pow 2 (b.exponent - 2).toNat : Nat) : ℚ) / (Interval.ofBinary b).den = n / 4 * 2 ^ b.exponent := by
  have hden : ((Interval.ofBinary b).den : ℚ) = 2 ^ (-(b.exponent - 2)).toNat := by
    have hneg : -(b.exponent - 2) = 2 - b.exponent := by ring
    rw [hneg]
    exact_mod_cast rfl
  have hscale : ((Nat.pow 2 (b.exponent - 2).toNat : Nat) : ℚ) = 2 ^ (b.exponent - 2).toNat := by
    exact_mod_cast rfl
  rw [hden, Nat.cast_mul, hscale, mul_div_assoc, ← zpow_eq_div two_ne_zero, zpow_sub₀ two_ne_zero]
  ring

theorem ofBinary_value (b : Binary) :
    ((Interval.ofBinary b).value : ℚ) / (Interval.ofBinary b).den = b.value := by
  have h := ofBinary_scale b (4 * b.significand)
  unfold Interval.ofBinary Binary.value at *
  simp only at h ⊢
  rw [h]
  push_cast
  ring

theorem ofBinary_high (b : Binary) :
    ((Interval.ofBinary b).high : ℚ) / (Interval.ofBinary b).den = (b.significand + 1 / 2) * 2 ^ b.exponent := by
  have h := ofBinary_scale b (4 * b.significand + 2)
  unfold Interval.ofBinary at *
  simp only at h ⊢
  rw [h]
  push_cast
  ring

/-- How far the interval of a double goes down, in units of its last place. -/
def reach (b : Binary) : ℚ :=
  if b.significand = 2 ^ 52 ∧ -1074 < b.exponent then 1 / 4 else 1 / 2

theorem ofBinary_low (hpos : 0 < b.significand) :
    ((Interval.ofBinary b).low : ℚ) / (Interval.ofBinary b).den = (b.significand - reach b) * 2 ^ b.exponent := by
  have h := ofBinary_scale b
    (4 * b.significand - (if b.significand = 2 ^ 52 ∧ -1074 < b.exponent then 1 else 2))
  have hlow : (Interval.ofBinary b).low =
    (4 * b.significand - (if b.significand = 2 ^ 52 ∧ -1074 < b.exponent then 1 else 2)) *
      Nat.pow 2 (b.exponent - 2).toNat := rfl
  rw [hlow, h]
  unfold reach
  split
  · rw [Nat.cast_sub (by omega)]
    push_cast
    ring
  · rw [Nat.cast_sub (by omega)]
    push_cast
    ring

theorem reach_le (b : Binary) : reach b ≤ 1 / 2 := by
  unfold reach
  split
  · norm_num
  · exact le_refl _

/-- The interval of a double in units of its last place. -/
theorem holds_iff (hpos : 0 < b.significand) (q : ℚ) :
    (Interval.ofBinary b).Holds q ↔
      if b.significand % 2 = 0 then
        (b.significand - reach b) * 2 ^ b.exponent ≤ q ∧ q ≤ (b.significand + 1 / 2) * 2 ^ b.exponent
      else (b.significand - reach b) * 2 ^ b.exponent < q ∧ q < (b.significand + 1 / 2) * 2 ^ b.exponent := by
  have hclosed : (Interval.ofBinary b).closed = decide (b.significand % 2 = 0) := rfl
  unfold Interval.Holds
  rw [ofBinary_low hpos, ofBinary_high, hclosed]
  simp only [decide_eq_true_eq]

theorem bounds_of_holds (hpos : 0 < b.significand) {q : ℚ} (h : (Interval.ofBinary b).Holds q) :
    (b.significand - reach b) * 2 ^ b.exponent ≤ q ∧ q ≤ (b.significand + 1 / 2) * 2 ^ b.exponent ∧
      (b.significand % 2 = 1 →
        (b.significand - reach b) * 2 ^ b.exponent < q ∧ q < (b.significand + 1 / 2) * 2 ^ b.exponent) := by
  rw [holds_iff hpos] at h
  split at h
  · next heven =>
    refine ⟨h.1, h.2, ?_⟩
    intro hodd
    omega
  · exact ⟨h.1.le, h.2.le, fun _ => h⟩

theorem half_le_of_holds (hpos : 0 < b.significand) {q : ℚ} (h : (Interval.ofBinary b).Holds q) :
    1 / 2 * 2 ^ b.exponent ≤ q := by
  have hreach := reach_le b
  have hone : (1 : ℚ) ≤ b.significand := by exact_mod_cast hpos
  apply le_trans _ (bounds_of_holds hpos h).1
  apply mul_le_mul_of_nonneg_right _ (two_zpow_pos _).le
  linarith

theorem le_double_of_holds (hpos : 0 < b.significand) {q : ℚ} (h : (Interval.ofBinary b).Holds q) :
    q ≤ 2 * b.value := by
  have hone : (1 : ℚ) ≤ b.significand := by exact_mod_cast hpos
  apply (bounds_of_holds hpos h).2.1.trans
  unfold Binary.value
  rw [← mul_assoc]
  apply mul_le_mul_of_nonneg_right _ (two_zpow_pos _).le
  linarith

theorem zpow_add_nat (e : ℤ) (k : Nat) : (2 : ℚ) ^ (e + k) = 2 ^ k * 2 ^ e := by
  rw [zpow_add₀ two_ne_zero, zpow_natCast, mul_comm]

/-- Just below a power of two the quotient is rounded up to it from the binade below. -/
theorem nearest_of_below {num den : Nat} (hden : 0 < den) (hleast : -1074 < b.exponent)
    (low : ((2 : ℚ) ^ 52 - 1 / 4) * 2 ^ b.exponent ≤ num / den)
    (high : (num : ℚ) / den < 2 ^ 52 * 2 ^ b.exponent) :
    double.nearest num den = min ((b.exponent - 1 + 1074).toNat * 2 ^ 52 + 2 ^ 53) double.infinity := by
  have hunit := two_zpow_pos b.exponent
  have hhalf := two_zpow_sub_one b.exponent
  have hpower : power num den = b.exponent + 51 := by
    apply power_eq hden
    · have h := zpow_add_nat b.exponent 51
      norm_num at h ⊢
      rw [h]
      linarith
    · have h := zpow_add_nat b.exponent 52
      have hexponent : b.exponent + 51 + 1 = b.exponent + (52 : Nat) := by
        push_cast
        ring
      rw [hexponent, h]
      exact high
  have hnum : 0 < num := by
    apply Nat.pos_of_ne_zero
    rintro rfl
    rw [Nat.cast_zero, zero_div] at low
    linarith
  apply nearest_eq hnum hden
  · rw [hpower]
    omega
  · rw [hhalf]
    push_cast
    linarith
  · rw [hhalf]
    push_cast
    linarith
  · intro hodd
    omega

/-- Otherwise it is rounded at the last place of the double itself. -/
theorem nearest_of_not_below {num den : Nat} (hden : 0 < den) (double : b.IsDouble) (hpos : 0 < b.significand)
    (h : (Interval.ofBinary b).Holds (num / den))
    (hfull : -1074 < b.exponent → (2 : ℚ) ^ 52 * 2 ^ b.exponent ≤ num / den) :
    Number.double.nearest num den =
      min ((b.exponent + 1074).toNat * 2 ^ 52 + b.significand) Number.double.infinity := by
  have hunit := two_zpow_pos b.exponent
  have hreach := reach_le b
  obtain ⟨hlow, hhigh, hodd⟩ := bounds_of_holds hpos h
  have hsignificand : (1 : ℚ) ≤ b.significand := by exact_mod_cast hpos
  have hlower : ((b.significand : ℚ) - 1 / 2) * 2 ^ b.exponent ≤ (b.significand - reach b) * 2 ^ b.exponent := by
    apply mul_le_mul_of_nonneg_right _ hunit.le
    linarith
  have hnum : 0 < num := by
    apply Nat.pos_of_ne_zero
    rintro rfl
    have hhalf := half_le_of_holds hpos h
    rw [Nat.cast_zero, zero_div] at hhalf
    linarith
  have hupper : (num : ℚ) / den < 2 ^ (b.exponent + 52 + 1) := by
    have hexponent : b.exponent + 52 + 1 = b.exponent + (53 : Nat) := by
      push_cast
      ring
    have hlt : (b.significand : ℚ) + 1 ≤ 2 ^ 53 := by exact_mod_cast double.significand_lt
    rw [hexponent, zpow_add_nat]
    have hmul : ((b.significand : ℚ) + 1) * 2 ^ b.exponent ≤ 2 ^ 53 * 2 ^ b.exponent :=
      mul_le_mul_of_nonneg_right hlt hunit.le
    linarith
  have hle := power_le hnum hden hupper
  have hleast := double.least_le
  apply nearest_eq hnum hden
  · rcases Int.lt_or_eq_of_le hleast with hlt | heq
    · have hpower : power num den = b.exponent + 52 := by
        refine power_eq hden ?_ hupper
        have h52 := zpow_add_nat b.exponent 52
        norm_num at h52
        rw [h52]
        have hfirst := hfull hlt
        norm_num at hfirst
        exact hfirst
      omega
    · omega
  · exact hlower.trans hlow
  · exact hhigh
  · intro hone
    obtain ⟨hlow', hhigh'⟩ := hodd hone
    exact ⟨hlower.trans_lt hlow', hhigh'⟩

end Double

/-- A quotient in the interval of a double is rounded to that double. -/
theorem nearest_of_holds {bits num den : Nat} (hbits : bits < double.infinity)
    (hpos : 0 < (double.decode bits).significand) (hden : 0 < den)
    (h : (Interval.ofBinary (double.decode bits)).Holds (num / den)) : double.nearest num den = bits := by
  obtain ⟨isDouble, hsum⟩ := decode_spec hbits
  generalize double.decode bits = b at hpos h isDouble hsum
  have hleast := isDouble.least_le
  have hunit := two_zpow_pos b.exponent
  obtain ⟨hlow, hhigh, -⟩ := bounds_of_holds hpos h
  by_cases hbelow : -1074 < b.exponent ∧ (num : ℚ) / den < 2 ^ 52 * 2 ^ b.exponent
  · obtain ⟨hnormal, hlt⟩ := hbelow
    have hfull := isDouble.full hnormal
    have heq : b.significand = 2 ^ 52 := by
      by_contra hne
      have hnext : (2 : ℚ) ^ 52 + 1 ≤ b.significand := by
        have hnat : 2 ^ 52 + 1 ≤ b.significand := by omega
        exact_mod_cast hnat
      have hreach := reach_le b
      have hmul : (2 : ℚ) ^ 52 * 2 ^ b.exponent ≤ (b.significand - reach b) * 2 ^ b.exponent := by
        apply mul_le_mul_of_nonneg_right _ hunit.le
        linarith
      linarith
    have hreach : reach b = 1 / 4 := if_pos ⟨heq, hnormal⟩
    rw [hreach, heq] at hlow
    have hlow' : ((2 : ℚ) ^ 52 - 1 / 4) * 2 ^ b.exponent ≤ num / den := by exact_mod_cast hlow
    have hcarry : (b.exponent - 1 + 1074).toNat * 2 ^ 52 + 2 ^ 53 = bits := by
      have hstep : (b.exponent + 1074).toNat = (b.exponent - 1 + 1074).toNat + 1 := by omega
      rw [← hsum, heq, hstep]
      ring
    rw [nearest_of_below hden hnormal hlow' hlt, hcarry, min_eq_left hbits.le]
  · have hfull : -1074 < b.exponent → (2 : ℚ) ^ 52 * 2 ^ b.exponent ≤ num / den := by
      intro hnormal
      by_contra hlt
      exact hbelow ⟨hnormal, not_le.1 hlt⟩
    rw [nearest_of_not_below hden isDouble hpos h hfull, hsum, min_eq_left hbits.le]

end WorkloadAtlas.Number
