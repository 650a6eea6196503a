import WorkloadAtlas.Plot.Interval
import WorkloadAtlas.Proofs.Infinities
/-!
The margins of an axis. Whatever they are rounded to, they leave the data within the interval, which may become infinite
on both sides. So the interval is empty only if the data has no width and one unit is rounded away on both sides of it.
That depends on the digits: beyond two to the 53 doubles are at least two apart, so one unit is half the way to the next
one at most, and of two that are equally near the one with an even significand is taken.
-/

namespace WorkloadAtlas

namespace Number

/-- One unit more or less is rounded away: a multiple of four beyond those naturals that all are doubles. -/
def Coarse (x : Float) : Prop :=
  2 ^ 53 < |value x| ∧ ∃ k : ℤ, value x = 4 * k

section Coarse

variable {q : ℚ} {x y : Float}

/-- Beyond two to the 53 doubles are even; twice an odd number is one only up to two to the 54, with an odd
significand. -/
theorem exists_half_magnitude (hx : x.isFinite = true) (hlarge : 2 ^ 53 < (magnitude x).value) :
    ∃ n : ℕ, (magnitude x).value = 2 * n ∧ (n % 2 = 1 → (magnitude x).significand % 2 = 1 ∧ n < 2 ^ 53) := by
  have hdouble := isDouble_magnitude hx
  have hexponent : 1 ≤ (magnitude x).exponent := by
    by_contra hsmall
    have hpower : (2 : ℚ) ^ (magnitude x).exponent ≤ 1 := zpow_le_one_of_nonpos₀ one_le_two (by omega)
    have hlt := hdouble.value_lt
    have hle := mul_le_mul_of_nonneg_left hpower (show (0 : ℚ) ≤ 2 ^ 53 by norm_num)
    linarith
  obtain ⟨j, hj⟩ : ∃ j : Nat, (magnitude x).exponent = 1 + j := ⟨((magnitude x).exponent - 1).toNat, by omega⟩
  refine ⟨(magnitude x).significand * 2 ^ j, ?_, fun hodd => ?_⟩
  · rw [Binary.value, hj, zpow_one_add₀ two_ne_zero, zpow_natCast]
    push_cast
    ring
  · cases j with
    | zero =>
      rw [pow_zero, mul_one] at hodd ⊢
      exact ⟨hodd, hdouble.significand_lt⟩
    | succ j =>
      rw [pow_succ, ← mul_assoc, Nat.mul_mod_left] at hodd
      cases hodd

theorem exists_half (hx : x.isFinite = true) (hlarge : 2 ^ 53 < |value x|) : ∃ n : ℤ, value x = 2 * n ∧
    (n % 2 = 1 → (magnitude x).significand % 2 = 1 ∧ |n| < 2 ^ 53) := by
  obtain ⟨n, hn, hparity⟩ := exists_half_magnitude hx (by rwa [← abs_value])
  have hsigned (i : ℤ) (hi : i.natAbs = n) (hodd : i % 2 = 1) :
      (magnitude x).significand % 2 = 1 ∧ |i| < 2 ^ 53 := by
    obtain ⟨hsignificand, hlt⟩ := hparity (by omega)
    rw [Int.abs_eq_natAbs, hi]
    exact ⟨hsignificand, by exact_mod_cast hlt⟩
  rw [← abs_value] at hn
  rcases (abs_eq (mul_nonneg zero_le_two n.cast_nonneg)).1 hn with hvalue | hvalue
  · exact ⟨n, hvalue, hsigned n (Int.natAbs_natCast n)⟩
  · refine ⟨-n, ?_, hsigned (-n) (by omega)⟩
    rw [hvalue]
    push_cast
    ring

/-- Up to two to the 53 all integers are doubles, so the nearest double is less than one unit away. -/
theorem Rounds.near_one (h : Rounds q x) (hx : x.isFinite = true) (hq : |q| ≤ 2 ^ 53) : |q - value x| < 1 := by
  have hfloor : |⌊q⌋| ≤ 2 ^ 53 := by
    obtain ⟨hlow, hhigh⟩ := abs_le.1 hq
    rw [abs_le]
    constructor
    · exact Int.le_floor.2 (by exact_mod_cast hlow)
    · exact_mod_cast (Int.floor_le q).trans hhigh
  obtain ⟨z, hz, hzValue⟩ := (representable_intCast hfloor).exists_value
  refine ((h.nearest hx).near z hz).trans_lt ?_
  rw [hzValue, abs_of_nonneg (sub_nonneg.2 (Int.floor_le q))]
  linarith [Int.lt_floor_add_one q]

variable {t : ℤ} (hx : x.isFinite = true) (ht : |t| = 1)

include hx ht

theorem Rounds.isFinite_unit (h : Rounds (value x + t) y) : y.isFinite = true := by
  rw [h.isFinite_iff, threshold]
  have hle := (isDouble_magnitude hx).value_le
  rw [← abs_value] at hle
  have hunit : (1 : ℚ) < 2 ^ (970 : ℤ) := one_lt_zpow₀ one_lt_two (by norm_num)
  have hlast : (2 : ℚ) ^ (970 : ℤ) = 1 / 2 * 2 ^ (971 : ℤ) := two_zpow_sub_one 971
  have hsum := abs_add_le (value x) t
  have hcast : |(t : ℚ)| = 1 := by exact_mod_cast ht
  generalize (2 : ℚ) ^ (970 : ℤ) = u at *
  generalize (2 : ℚ) ^ (971 : ℤ) = w at *
  linarith

theorem Rounds.near_unit (h : Rounds (value x + t) y) :
    |value x + t - value x| = 1 ∧ |value x + t - value y| ≤ 1 := by
  have hself : |value x + t - value x| = 1 := by
    rw [add_sub_cancel_left]
    exact_mod_cast ht
  exact ⟨hself, hself ▸ (h.nearest (h.isFinite_unit hx ht)).near x hx⟩

/-- A coarse double is far enough beyond two to the 53 to have its neighbours there too. -/
theorem Rounds.large_of_coarse (h : Rounds (value x + t) y) (hcoarse : Coarse x) : 2 ^ 53 < |value y| := by
  obtain ⟨hlarge, k, hk⟩ := hcoarse
  obtain ⟨hself, hnear⟩ := h.near_unit hx ht
  have hfour : 2 ^ 53 + 4 ≤ |value x| := by
    rw [hk] at hlarge ⊢
    have hcount : 2 ^ 53 < |4 * k| := by exact_mod_cast hlarge
    have hnext : 2 ^ 53 + 4 ≤ |4 * k| := by
      rw [abs_mul, show |(4 : ℤ)| = 4 from rfl] at hcount ⊢
      omega
    exact_mod_cast hnext
  have hfirst := abs_sub_abs_le_abs_sub (value x) (value y)
  have hsplit := abs_sub_le (value x) (value x + t) (value y)
  rw [abs_sub_comm (value x) (value x + t), hself] at hsplit
  linarith

/-- A unit beside a coarse double is nowhere nearer to another one, and halfway between two the coarse one is even. -/
theorem Rounds.value_of_coarse (h : Rounds (value x + t) y) (hcoarse : Coarse x) : value y = value x := by
  have hy := h.isFinite_unit hx ht
  obtain ⟨n, hn, hparity⟩ := exists_half hy (h.large_of_coarse hx ht hcoarse)
  obtain ⟨hself, hnear⟩ := h.near_unit hx ht
  obtain ⟨-, k, hk⟩ := hcoarse
  have hunit := (abs_eq zero_le_one).1 ht
  by_contra hne
  have hmiddle : n ≠ 2 * k := by
    rintro rfl
    refine hne ?_
    rw [hn, hk]
    push_cast
    ring
  have hbeside : n = 2 * k + t := by
    rw [hk, hn] at hnear
    have hint : |4 * k + t - 2 * n| ≤ 1 := by exact_mod_cast hnear
    rw [abs_le] at hint
    omega
  have htie : |value x + t - value y| = |value x + t - value x| := by
    rw [add_sub_cancel_left, hn, hk, hbeside, ← abs_neg (t : ℚ)]
    congr 1
    push_cast
    ring
  have heven := (h.nearest hy).even x hx (Ne.symm hne) htie
  have hsignificand := (hparity (by omega)).1
  omega

/-- Any other double so great has an even one two units further, from which the unit is as far. -/
theorem Rounds.value_ne_of_not_coarse (h : Rounds (value x + t) y) (hlarge : 2 ^ 53 < |value x|) (hcoarse : ¬ Coarse x) :
    value y ≠ value x := by
  intro heq
  have hy := h.isFinite_unit hx ht
  have hunit := (abs_eq zero_le_one).1 ht
  obtain ⟨n, hn, hparity⟩ := exists_half hy (by rwa [heq])
  have hodd : n % 2 = 1 := by
    by_contra heven
    refine hcoarse ⟨hlarge, n / 2, ?_⟩
    have hdouble : n = 2 * (n / 2) := by omega
    rw [← heq, hn]
    nth_rewrite 1 [hdouble]
    push_cast
    ring
  obtain ⟨hsignificand, hlt⟩ := hparity hodd
  have hbeside : Representable (2 * (n + t : ℤ)) := by
    have hle : |n + t| ≤ 2 ^ 53 := (abs_add_le n t).trans (by omega)
    have hcast : |((n + t : ℤ) : ℚ)| ≤ 2 ^ 53 := by exact_mod_cast hle
    refine (representable_intCast hle).double ?_
    rw [abs_mul, abs_two]
    exact (mul_le_mul_of_nonneg_left hcast zero_le_two).trans_lt
      ((by norm_num : (2 : ℚ) * 2 ^ 53 = 2 ^ 54).trans_lt (two_pow_lt_overflow (by norm_num)))
  obtain ⟨z, hz, hzTwice⟩ := hbeside.exists_value
  have hzValue : value z = value x + 2 * t := by
    rw [hzTwice, ← heq, hn]
    push_cast
    ring
  have hne : value z ≠ value y := by
    rw [hzValue, heq]
    intro hsame
    have hzero : (t : ℚ) = 0 := by linarith
    have htzero : t = 0 := by exact_mod_cast hzero
    omega
  have htie : |value x + t - value y| = |value x + t - value z| := by
    rw [heq, hzValue, add_sub_cancel_left, ← abs_neg]
    congr 1
    ring
  have heven := (h.nearest hy).even z hz hne htie
  omega

end Coarse

end Number

namespace Plot.Interval

open Number

variable {min max : Float}

theorem padded_eq (hmin : min.isFinite = true) (hmax : max.isFinite = true) : padded min max =
    if max - min ≤ epsilon then ⟨min - 1.0, max + 1.0⟩
    else ⟨min - (max - min) * 0.05, max + (max - min) * 0.05⟩ := by
  rw [padded, hmin, hmax]
  rfl

theorem value_twentieth : (0.05 : Float).isFinite = true ∧ 0 < value 0.05 ∧ value 0.05 ≤ 1 := by
  have hfinite : (0.05 : Float).isFinite = true := by decide +kernel
  have hpos : (0.0 : Float) < 0.05 := by decide +kernel
  have hle : (0.05 : Float) ≤ 1.0 := by decide +kernel
  rw [lt_iff_value value_zero.1 hfinite, value_zero.2] at hpos
  rw [le_iff_value hfinite value_one.1, value_one.2] at hle
  exact ⟨hfinite, hpos, hle⟩

theorem value_epsilon : epsilon.isFinite = true ∧ 0 ≤ value epsilon := by
  have hfinite : epsilon.isFinite = true := by decide +kernel
  have hnonneg : 0.0 ≤ epsilon := by decide +kernel
  rw [le_iff_value value_zero.1 hfinite, value_zero.2] at hnonneg
  exact ⟨hfinite, hnonneg⟩

/-- Margins leave the data within the interval. -/
theorem padded_contains (hmin : min.isFinite = true) (hmax : max.isFinite = true) (hle : min ≤ max) :
    (padded min max).first ≤ min ∧ max ≤ (padded min max).last := by
  rw [le_iff_value hmin hmax] at hle
  have hspan := rounds_sub hmax hmin
  rw [padded_eq hmin hmax]
  split
  · have hfirst := rounds_sub hmin value_one.1
    have hlast := rounds_add hmax value_one.1
    rw [value_one.2] at hfirst hlast
    exact ⟨hfirst.le_of_le hmin (by linarith), hlast.ge_of_ge hmax (by linarith)⟩
  · cases hfinite : (max - min).isFinite with
    | true =>
      obtain ⟨htwentieth, hpos, hone⟩ := value_twentieth
      have hnonneg := sub_nonneg_of_le hmin hmax hle hfinite
      obtain ⟨hmargin, hlow, -⟩ := part_bounds hfinite htwentieth hpos.le hone
      rw [min_eq_right hnonneg] at hlow
      exact ⟨(rounds_sub hmin hmargin).le_of_le hmin (by linarith),
        (rounds_add hmax hmargin).ge_of_ge hmax (by linarith)⟩
    | false =>
      have hinfinite := hspan.infinite_of_nonneg (by linarith) hfinite
      have hmargin := unpack_infinity_mul hinfinite value_twentieth.1 value_twentieth.2.1
      exact ⟨infinity_le_of (unpack_sub_infinity hmin hmargin) (isNaN_of_isFinite hmin),
        le_of_infinity (isNaN_of_isFinite hmax) (unpack_add_infinity hmax hmargin)⟩

/-- Data without a width has one unit on each side. -/
theorem padded_flat (hmin : min.isFinite = true) (hmax : max.isFinite = true) (heq : value min = value max) :
    padded min max = ⟨min - 1.0, max + 1.0⟩ := by
  obtain ⟨hfinite, hzero⟩ := value_sub_eq_zero hmin hmax heq
  have hsmall : max - min ≤ epsilon := by
    rw [le_iff_value hfinite value_epsilon.1, hzero]
    exact value_epsilon.2
  rw [padded_eq hmin hmax, if_pos hsmall]

theorem padded_flat_lt_iff (hmin : min.isFinite = true) (hmax : max.isFinite = true) (heq : value min = value max) :
    (padded min max).first < (padded min max).last ↔ ¬ Coarse min := by
  have hunit : |(1 : ℤ)| = 1 := rfl
  have hunit' : |(-1 : ℤ)| = 1 := rfl
  have hfirst := rounds_sub hmin value_one.1
  have hlast := rounds_add hmax value_one.1
  rw [value_one.2] at hfirst
  rw [value_one.2, ← heq] at hlast
  have hbefore : Rounds (value min + (-1 : ℤ)) (min - 1.0) := by
    rwa [Int.cast_neg, Int.cast_one, ← sub_eq_add_neg]
  have hbehind : Rounds (value min + (1 : ℤ)) (max + 1.0) := by
    rwa [Int.cast_one]
  have hfirstFinite := hbefore.isFinite_unit hmin hunit'
  have hlastFinite := hbehind.isFinite_unit hmin hunit
  have hlow := hfirst.mono (Rounds.of_value hmin) hfirstFinite hmin (by linarith)
  have hhigh := (Rounds.of_value hmin).mono hlast hmin hlastFinite (by linarith)
  rw [padded_flat hmin hmax heq, lt_iff_value hfirstFinite hlastFinite]
  constructor
  · intro hlt hcoarse
    rw [hbefore.value_of_coarse hmin hunit' hcoarse, hbehind.value_of_coarse hmin hunit hcoarse] at hlt
    exact lt_irrefl _ hlt
  · intro hcoarse
    rcases lt_or_ge (2 ^ 53) |value min| with hlarge | hsmall
    · exact (lt_of_le_of_ne hlow (hbefore.value_ne_of_not_coarse hmin hunit' hlarge hcoarse)).trans_le hhigh
    · obtain ⟨hbelow, habove⟩ := abs_le.1 hsmall
      rcases le_or_gt 0 (value min) with hsign | hsign
      · have hnear := hfirst.near_one hfirstFinite (abs_le.2 ⟨by linarith, by linarith⟩)
        linarith [(abs_lt.1 hnear).1]
      · have hnear := hlast.near_one hlastFinite (abs_le.2 ⟨by linarith, by linarith⟩)
        linarith [(abs_lt.1 hnear).2]

/-- The interval is empty exactly for data without a width at a coarse double. -/
theorem padded_lt_iff (hmin : min.isFinite = true) (hmax : max.isFinite = true) (hle : min ≤ max) :
    (padded min max).first < (padded min max).last ↔ ¬ ((min == max) = true ∧ Coarse min) := by
  obtain ⟨hfirst, hlast⟩ := padded_contains hmin hmax hle
  rw [le_iff_value hmin hmax] at hle
  rw [beq_iff_value hmin hmax]
  rcases hle.lt_or_eq with hlt | heq
  · refine iff_of_true ?_ fun h => hlt.ne h.1
    exact lt_of_le_of_lt_of_le hfirst ((lt_iff_value hmin hmax).2 hlt) hlast
  · rw [padded_flat_lt_iff hmin hmax heq, and_iff_right heq]

end Plot.Interval

end WorkloadAtlas
