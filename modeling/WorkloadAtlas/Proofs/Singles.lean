import WorkloadAtlas.Proofs.Monotony
/-!
The values of the 32-bit format among the rationals. The value that a rational is rounded to is at least as near as any
other, and of two that are equally near it is the even one. So there is only one such value, and rounding keeps the
order.
-/

namespace WorkloadAtlas.Number

/-- A value that the 32-bit format can hold. -/
def IsSingle (v : ℚ) : Prop :=
  |v| < 2 ^ 128 ∧ ∃ k j : ℤ, v = k * 2 ^ j ∧ |k| ≤ 2 ^ 24 ∧ -149 ≤ j

/-- A value of the 32-bit format that is nearest to a rational. If another one is just as near, the distance of the two
is the unit of the last digit, and of this the nearest value is an even multiple. -/
structure IsNearestSingle (q s : ℚ) : Prop where
  single : IsSingle s
  near : ∀ t, IsSingle t → |q - s| ≤ |q - t|
  even : ∀ t, IsSingle t → t ≠ s → |q - s| = |q - t| → ∃ k : ℤ, s = 2 * k * |t - s|

section Nearest

variable {p q s t : ℚ}

theorem IsSingle.neg (h : IsSingle s) : IsSingle (-s) := by
  obtain ⟨hlt, k, j, rfl, hk, hj⟩ := h
  refine ⟨by rwa [abs_neg], -k, j, ?_, by rwa [abs_neg], hj⟩
  push_cast
  ring

theorem IsSingle.representable (h : IsSingle s) : Representable s := by
  obtain ⟨hlt, k, j, hvalue, hk, hj⟩ := h
  exact ⟨hlt.trans (two_pow_lt_overflow (by norm_num)), k, j, hvalue, hk.trans (by norm_num), by omega⟩

namespace IsNearestSingle

theorem neg (h : IsNearestSingle q s) : IsNearestSingle (-q) (-s) := by
  have hmirror (t : ℚ) : |-q - t| = |q - -t| := by
    rw [← abs_neg]
    congr 1
    ring
  refine ⟨h.single.neg, ?_, ?_⟩
  · intro t ht
    rw [hmirror, hmirror, neg_neg]
    exact h.near (-t) ht.neg
  · intro t ht hne heq
    rw [hmirror, hmirror, neg_neg] at heq
    obtain ⟨k, hk⟩ := h.even (-t) ht.neg (fun hs => hne (by rw [← hs, neg_neg])) heq
    have hgap : |-t - s| = |t - -s| := by
      rw [← abs_neg]
      congr 1
      ring
    refine ⟨-k, ?_⟩
    rw [← hgap]
    push_cast
    linear_combination -hk

theorem unique (hs : IsNearestSingle q s) (ht : IsNearestSingle q t) : s = t := by
  by_contra hne
  have heq : |q - s| = |q - t| := (hs.near t ht.single).antisymm (ht.near s hs.single)
  obtain ⟨k, hk⟩ := hs.even t ht.single (Ne.symm hne) heq
  obtain ⟨l, hl⟩ := ht.even s hs.single hne heq.symm
  rw [abs_sub_comm] at hl
  have hgap : |t - s| ≠ 0 := abs_ne_zero.2 (sub_ne_zero.2 (Ne.symm hne))
  -- Both are even multiples of their distance, which is an odd one.
  have hdistance : t - s = 2 * (l - k) * |t - s| := by linear_combination hl - hk
  have hodd : (2 * (l - k) : ℤ) = 1 ∨ (2 * (l - k) : ℤ) = -1 := by
    rcases abs_choice (t - s) with habs | habs
    · left
      have hone : (2 * (l - k) : ℚ) * |t - s| = 1 * |t - s| := by rw [← hdistance, one_mul, habs]
      exact_mod_cast mul_right_cancel₀ hgap hone
    · right
      have hone : (2 * (l - k) : ℚ) * |t - s| = -1 * |t - s| := by rw [← hdistance, habs, neg_one_mul, neg_neg]
      exact_mod_cast mul_right_cancel₀ hgap hone
  omega

theorem mono (hs : IsNearestSingle p s) (ht : IsNearestSingle q t) (h : p ≤ q) : s ≤ t := by
  by_contra hlt
  rw [not_le] at hlt
  have hbelow := middle_le hlt (hs.near t ht.single)
  have habove := le_middle hlt (ht.near s hs.single)
  obtain rfl : p = q := by linarith
  exact hlt.ne' (hs.unique ht)

/-- What is rounded to different values has no nearest value in common. -/
theorem lt_iff (hs : IsNearestSingle p s) (ht : IsNearestSingle q t) (h : p ≤ q) :
    s < t ↔ ¬ ∃ u, IsNearestSingle p u ∧ IsNearestSingle q u := by
  constructor
  · rintro hlt ⟨u, hpu, hqu⟩
    rw [hs.unique hpu, ht.unique hqu] at hlt
    exact lt_irrefl u hlt
  · intro hnone
    refine lt_of_le_of_ne (hs.mono ht h) ?_
    rintro rfl
    exact hnone ⟨s, hs, ht⟩

end IsNearestSingle

end Nearest

section Rounded

variable {q : ℚ} {n : Nat} {place : ℤ}

/-- Distances from multiples of a unit, told in that unit. -/
theorem abs_sub_units (q : ℚ) (place : ℤ) (m : ℚ) : |q - m * 2 ^ place| = |q / 2 ^ place - m| * 2 ^ place := by
  have hunit := two_zpow_pos place
  rw [← abs_of_pos hunit, ← abs_mul, abs_of_pos hunit, sub_mul, div_mul_cancel₀ _ hunit.ne']

/-- What is rounded at the last place of its 24 digits is rounded to the nearest value. -/
theorem isNearestSingle_of_rounded (hround : IsRounded (q / 2 ^ place) n) (hle : n ≤ 2 ^ 24) (hplace : -149 ≤ place)
    (hfull : -149 < place → 2 ^ 23 * 2 ^ place ≤ q) (hlt : (n : ℚ) * 2 ^ place < 2 ^ 128) :
    IsNearestSingle q (n * 2 ^ place) := by
  have hunit := two_zpow_pos place
  have key (t : ℚ) (ht : IsSingle t) : |q - n * 2 ^ place| ≤ |q - t| ∧
      (t ≠ n * 2 ^ place → |q - n * 2 ^ place| = |q - t| →
        ∃ k : ℤ, (n : ℚ) * 2 ^ place = 2 * k * |t - n * 2 ^ place|) := by
    by_cases hmultiple : ∃ m : ℤ, t = m * 2 ^ place
    · obtain ⟨m, rfl⟩ := hmultiple
      obtain ⟨hnear, htie⟩ := hround.near_int m
      rw [abs_sub_units, abs_sub_units]
      refine ⟨mul_le_mul_of_nonneg_right hnear hunit.le, fun hne heq => ?_⟩
      have hneNat : m ≠ n := by
        rintro rfl
        exact hne rfl
      obtain ⟨heven, hnext⟩ := htie hneNat (mul_right_cancel₀ hunit.ne' heq)
      have hgap : |(m : ℚ) * 2 ^ place - n * 2 ^ place| = 2 ^ place := by
        rw [← sub_mul, abs_mul, hnext, one_mul, abs_of_pos hunit]
      have hhalf : (n : ℚ) = 2 * ((n / 2 : ℕ) : ℤ) := by
        have htwice : n = 2 * (n / 2) := by omega
        exact_mod_cast htwice
      exact ⟨((n / 2 : ℕ) : ℤ), by rw [hgap, ← hhalf]⟩
    · -- A finer value lies below the power of two that the rational has reached.
      obtain ⟨-, k, j, rfl, hk, hj⟩ := ht
      have hfiner : j < place := by
        by_contra hcoarse
        refine hmultiple ⟨k * 2 ^ (j - place).toNat, ?_⟩
        push_cast
        rw [mul_assoc, ← zpow_natCast, ← zpow_add₀ two_ne_zero]
        congr 2
        omega
      have hpower : (2 : ℚ) ^ 23 * 2 ^ place ≤ q := hfull (by omega)
      have hbelow : (k : ℚ) * 2 ^ j ≤ 2 ^ 23 * 2 ^ place := by
        have hk' : (k : ℚ) ≤ 2 ^ 24 := by exact_mod_cast (le_abs_self k).trans hk
        calc (k : ℚ) * 2 ^ j ≤ 2 ^ 24 * 2 ^ j := mul_le_mul_of_nonneg_right hk' (two_zpow_pos j).le
          _ = 2 ^ 23 * 2 ^ (j + 1) := by
            rw [zpow_add₀ two_ne_zero]
            ring
          _ ≤ 2 ^ 23 * 2 ^ place :=
            mul_le_mul_of_nonneg_left (zpow_le_zpow_right₀ one_le_two (by omega)) (by positivity)
      have hbelow' : (k : ℚ) * 2 ^ j < 2 ^ 23 * 2 ^ place := by
        refine lt_of_le_of_ne hbelow fun heq => hmultiple ⟨2 ^ 23, ?_⟩
        rw [heq]
        push_cast
        rfl
      have hnear := (hround.near_int (2 ^ 23)).1
      have hnear' := mul_le_mul_of_nonneg_right hnear hunit.le
      rw [← abs_sub_units, ← abs_sub_units, Int.cast_pow, Int.cast_ofNat, abs_of_nonneg (sub_nonneg.2 hpower)] at hnear'
      rw [abs_of_pos (sub_pos.2 (hbelow'.trans_le hpower))]
      exact ⟨by linarith, fun _ heq => by linarith⟩
  have hnonneg : (0 : ℚ) ≤ n * 2 ^ place := mul_nonneg n.cast_nonneg hunit.le
  refine ⟨⟨by rwa [abs_of_nonneg hnonneg], n, place, by rw [Int.cast_natCast], ?_, hplace⟩,
    fun t ht => (key t ht).1, fun t ht => (key t ht).2⟩
  rw [abs_of_nonneg (by omega)]
  exact_mod_cast hle

/-- The error is at most half the unit of the last digit. -/
theorem error_of_rounded (hround : IsRounded (q / 2 ^ place) n) (hplace : -149 ≤ place)
    (hfull : -149 < place → 2 ^ 23 * 2 ^ place ≤ q) (hq : 0 ≤ q) :
    |q - n * 2 ^ place| ≤ q / 2 ^ 24 + 2 ^ (-150 : ℤ) := by
  have hunit := two_zpow_pos place
  have hleast := two_zpow_pos (-150)
  have hhalf : |q - n * 2 ^ place| ≤ 1 / 2 * 2 ^ place := by
    rw [abs_sub_units]
    exact mul_le_mul_of_nonneg_right hround.abs_le_half hunit.le
  rcases hplace.eq_or_lt with rfl | hnormal
  · have hstep : (2 : ℚ) ^ (-150 : ℤ) = 1 / 2 * 2 ^ (-149 : ℤ) := by
      rw [← two_zpow_sub_one]
      rfl
    have hpart : 0 ≤ q / 2 ^ 24 := by positivity
    linarith
  · have hpart : 1 / 2 * 2 ^ place ≤ q / 2 ^ 24 := by
      rw [le_div_iff₀ (by positivity)]
      calc 1 / 2 * 2 ^ place * 2 ^ 24 = 2 ^ 23 * 2 ^ place := by ring
        _ ≤ q := hfull hnormal
    linarith

end Rounded

end WorkloadAtlas.Number
