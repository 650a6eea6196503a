import Mathlib
import WorkloadAtlas.Proofs.Rounding
/-!
The shortest decimal of a double. It lies in the interval of the double, so that it is rounded to that double again, and
it is a whole number exactly if the double is one.
-/

namespace WorkloadAtlas.Number

/-- The value of a decimal. -/
def Decimal.value (d : Decimal) : ℚ :=
  d.digits * 10 ^ d.exponent

namespace Interval

variable {i : Interval} {tie : Tie} {power : ℤ}

/-- The multiple of a power of ten that is not above the value. -/
def below (i : Interval) (power : ℤ) : Nat :=
  i.value * 10 ^ (-power).toNat / (10 ^ power.toNat * i.den)

theorem below_spec (hden : 0 < i.den) (power : ℤ) :
    (i.below power : ℚ) * 10 ^ power ≤ i.value / i.den ∧
      (i.value : ℚ) / i.den < (i.below power + 1) * 10 ^ power := by
  have hgrid : 0 < 10 ^ power.toNat * i.den := Nat.mul_pos (by positivity) hden
  have hpos : (0 : ℚ) < (10 ^ power.toNat * i.den : Nat) := by exact_mod_cast hgrid
  have hunit := ten_zpow_pos power
  have hquotient : ((i.value * 10 ^ (-power).toNat : Nat) : ℚ) / (10 ^ power.toNat * i.den : Nat) =
      i.value / i.den / 10 ^ power := by
    rw [zpow_eq_div (by norm_num)]
    push_cast
    rw [div_div_eq_mul_div, div_mul_eq_mul_div, div_div, mul_comm (10 ^ power.toNat : ℚ)]
  have hfloor : (i.below power : ℚ) ≤ i.value / i.den / 10 ^ power := by
    rw [← hquotient]
    exact Nat.cast_div_le
  have hceil : (i.value : ℚ) / i.den / 10 ^ power < i.below power + 1 := by
    rw [← hquotient, div_lt_iff₀ hpos]
    have hlt := Nat.lt_mul_div_succ (i.value * 10 ^ (-power).toNat) hgrid
    rw [Nat.mul_comm (10 ^ power.toNat * i.den)] at hlt
    exact_mod_cast hlt
  exact ⟨(le_div_iff₀ hunit).1 hfloor, (div_lt_iff₀ hunit).1 hceil⟩

/-- A pick is made exactly if one of the two neighbours of the value lies in the interval, and then it lies there. -/
theorem pick?_spec (i : Interval) (tie : Tie) (power : ℤ) :
    ((i.pick? tie power).isSome = true ↔
        i.contains (i.below power) power = true ∨ i.contains (i.below power + 1) power = true) ∧
      ∀ count, i.pick? tie power = some count → i.contains count power = true := by
  have hbelow : i.value * Nat.pow 10 (-power).toNat / (Nat.pow 10 power.toNat * i.den) = i.below power := rfl
  unfold pick?
  simp only [hbelow]
  generalize i.below power = below
  cases hfirst : i.contains below power with
  | false =>
    cases hsecond : i.contains (below + 1) power with
    | false => simp
    | true => simp [hsecond]
  | true =>
    cases hsecond : i.contains (below + 1) power with
    | false => simp [hfirst]
    | true =>
      have heven : i.contains (below + below % 2) power = true := by
        rcases Nat.mod_two_eq_zero_or_one below with h | h
        · rw [h]
          exact hfirst
        · rw [h]
          exact hsecond
      simp only
      split
      · simp [hfirst]
      · split
        · simp [hsecond]
        · cases tie with
          | up => simp [hsecond]
          | even => simp [heven]

/-- A search that passes a power with a pick ends there or before. -/
theorem coarsest_spec {steps k : Nat} (hk : k < steps) (hit : (i.pick? tie (power - k)).isSome = true) :
    let d := i.coarsest tie steps power
    i.contains d.digits d.exponent = true ∧ power - k ≤ d.exponent := by
  induction steps generalizing k power with
  | zero => omega
  | succ steps ih =>
    unfold coarsest
    cases hpick : i.pick? tie power with
    | some count =>
      refine ⟨(pick?_spec i tie power).2 count hpick, ?_⟩
      simp only
      omega
    | none =>
      cases k with
      | zero =>
        rw [Nat.cast_zero, sub_zero, hpick] at hit
        cases hit
      | succ k =>
        have hpower : power - (k + 1 : Nat) = power - 1 - k := by
          push_cast
          ring
        rw [hpower] at hit ⊢
        exact ih (by omega) hit

end Interval

theorem Decimal.strip_spec (d : Decimal) (steps : Nat) :
    (d.strip steps).value = d.value ∧ d.exponent ≤ (d.strip steps).exponent := by
  induction steps generalizing d with
  | zero => exact ⟨rfl, le_refl _⟩
  | succ steps ih =>
    unfold strip
    split
    · next hten =>
      obtain ⟨hvalue, hexponent⟩ := ih ⟨d.digits / 10, d.exponent + 1⟩
      refine ⟨hvalue.trans ?_, by simp only at hexponent; omega⟩
      have hdigits : (d.digits : ℚ) = 10 * (d.digits / 10 : Nat) := by
        exact_mod_cast (Nat.mul_div_cancel' (Nat.dvd_of_mod_eq_zero hten)).symm
      unfold value
      rw [hdigits, zpow_add_one₀ (by norm_num)]
      ring
    · exact ⟨rfl, le_refl _⟩

/-- Powers of ten against powers of two, on either side of one. -/
theorem ten_zpow_lt {p k : ℤ} (coarse : 10 * p < 3 * k) (fine : 33 * p < 10 * k) : (10 : ℚ) ^ p < 2 ^ k := by
  rcases le_or_gt 0 p with hp | hp
  · apply lt_of_pow_lt_pow_left₀ 3 (two_zpow_pos k).le
    calc ((10 : ℚ) ^ p) ^ 3 = 1000 ^ p := by
          rw [← zpow_natCast, ← zpow_mul, mul_comm, zpow_mul]
          norm_num
      _ ≤ 1024 ^ p := zpow_le_zpow_left₀ hp (by norm_num) (by norm_num)
      _ = 2 ^ (10 * p) := by
          rw [zpow_mul]
          norm_num
      _ < 2 ^ (3 * k) := zpow_lt_zpow_right₀ one_lt_two coarse
      _ = ((2 : ℚ) ^ k) ^ 3 := by
          rw [← zpow_natCast, ← zpow_mul, mul_comm]
          norm_num
  · apply lt_of_pow_lt_pow_left₀ 10 (two_zpow_pos k).le
    calc ((10 : ℚ) ^ p) ^ 10 = (10 ^ 10) ^ p := by
          rw [← zpow_natCast, ← zpow_mul, mul_comm, zpow_mul]
          norm_num
      _ ≤ (2 ^ 33) ^ p := by
          rw [← neg_neg p, zpow_neg, zpow_neg (2 ^ 33 : ℚ)]
          apply inv_anti₀ (zpow_pos (by norm_num) _)
          exact zpow_le_zpow_left₀ (by omega) (by norm_num) (by norm_num)
      _ = 2 ^ (33 * p) := by
          rw [zpow_mul]
          norm_num
      _ < 2 ^ (10 * k) := zpow_lt_zpow_right₀ one_lt_two fine
      _ = ((2 : ℚ) ^ k) ^ 10 := by
          rw [← zpow_natCast, ← zpow_mul, mul_comm]
          norm_num

section Shortest

variable {b : Binary}

theorem value_bounds (hpos : 0 < b.significand) :
    (2 : ℚ) ^ (b.significand.log2 + b.exponent) ≤ b.value ∧
      b.value < 2 ^ (b.significand.log2 + 1 + b.exponent) := by
  have hunit := two_zpow_pos b.exponent
  unfold Binary.value
  rw [zpow_add₀ two_ne_zero, zpow_add₀ two_ne_zero]
  constructor
  · apply mul_le_mul_of_nonneg_right _ hunit.le
    exact_mod_cast Nat.log2_self_le hpos.ne'
  · apply mul_lt_mul_of_pos_right _ hunit
    exact_mod_cast Nat.lt_log2_self

theorem holds_of_strict (hpos : 0 < b.significand) {q : ℚ} (low : (b.significand - reach b) * 2 ^ b.exponent < q)
    (high : q < (b.significand + 1 / 2) * 2 ^ b.exponent) : (Interval.ofBinary b).Holds q := by
  rw [holds_iff hpos]
  split
  · exact ⟨low.le, high.le⟩
  · exact ⟨low, high⟩

theorem low_lt_value (b : Binary) : (b.significand - reach b) * 2 ^ b.exponent < b.value := by
  have hreach : 0 < reach b := by
    unfold reach
    split
    · norm_num
    · norm_num
  apply mul_lt_mul_of_pos_right _ (two_zpow_pos b.exponent)
  linarith

theorem value_lt_high (b : Binary) : b.value < (b.significand + 1 / 2) * 2 ^ b.exponent := by
  apply mul_lt_mul_of_pos_right _ (two_zpow_pos b.exponent)
  linarith

/-- The power of ten at which the search for the shortest decimal starts. -/
def topPower (b : Binary) : ℤ :=
  -Int.fdiv (-((b.significand.log2 + 1 + b.exponent) * 30103)) 100000 + 1

theorem topPower_bounds (b : Binary) :
    (b.significand.log2 + 1 + b.exponent) * 30103 ≤ 100000 * (topPower b - 1) ∧
      100000 * (topPower b - 1) < (b.significand.log2 + 1 + b.exponent) * 30103 + 100000 := by
  unfold topPower
  rw [Int.fdiv_eq_ediv_of_nonneg _ (by norm_num)]
  omega

theorem shortest_eq (tie : Tie) (b : Binary) :
    Decimal.shortest tie b = ((Interval.ofBinary b).coarsest tie 24 (topPower b)).strip 24 :=
  rfl

/-- The last grid of the search is finer than the interval. -/
theorem hit_fine (isDouble : b.IsDouble) (hpos : 0 < b.significand) (tie : Tie) :
    ((Interval.ofBinary b).pick? tie (topPower b - 23)).isSome = true := by
  have hlog : b.significand.log2 < 53 := (Nat.log2_lt hpos.ne').2 isDouble.significand_lt
  have hleast := isDouble.least_le
  have hgreatest := isDouble.le_greatest
  have htop := topPower_bounds b
  have hfine : (10 : ℚ) ^ (topPower b - 23) < 2 ^ (b.exponent - 1) := ten_zpow_lt (by omega) (by omega)
  have hhalf := two_zpow_sub_one b.exponent
  obtain ⟨hbelow, habove⟩ := Interval.below_spec (ofBinary_den_pos b) (topPower b - 23)
  rw [ofBinary_value] at hbelow habove
  rw [(Interval.pick?_spec _ _ _).1, Interval.contains_iff (ofBinary_den_pos b),
    Interval.contains_iff (ofBinary_den_pos b)]
  right
  push_cast
  apply holds_of_strict hpos
  · exact (low_lt_value b).trans habove
  · unfold Binary.value at hbelow
    linarith

theorem shortest_holds (isDouble : b.IsDouble) (hpos : 0 < b.significand) (tie : Tie) :
    (Interval.ofBinary b).Holds (Decimal.shortest tie b).value := by
  have hsearch := Interval.coarsest_spec (show 23 < 24 by omega) (hit_fine isDouble hpos tie)
  rw [shortest_eq, (Decimal.strip_spec _ 24).1]
  exact (Interval.contains_iff (ofBinary_den_pos b) _ _).1 hsearch.1

/-- The grid of whole numbers has a whole value on it. -/
theorem hit_whole (hpos : 0 < b.significand) (tie : Tie) {n : Nat} (hn : b.value = n) :
    ((Interval.ofBinary b).pick? tie 0).isSome = true := by
  obtain ⟨hbelow, habove⟩ := Interval.below_spec (ofBinary_den_pos b) 0
  rw [ofBinary_value, zpow_zero, mul_one, hn] at hbelow habove
  have heq : (Interval.ofBinary b).below 0 = n := by
    have hle : (Interval.ofBinary b).below 0 ≤ n := by exact_mod_cast hbelow
    have hlt : n < (Interval.ofBinary b).below 0 + 1 := by exact_mod_cast habove
    omega
  rw [(Interval.pick?_spec _ _ _).1, Interval.contains_iff (ofBinary_den_pos b), heq, zpow_zero, mul_one, ← hn]
  left
  exact holds_of_strict hpos (low_lt_value b) (value_lt_high b)

/-- The search meets the whole numbers before it ends. -/
theorem shortest_exponent_nonneg (hpos : 0 < b.significand) (tie : Tie) {n : Nat} (hn : b.value = n)
    (hsmall : b.value < 10 ^ 15) : 0 ≤ (Decimal.shortest tie b).exponent := by
  obtain ⟨hlow, hhigh⟩ := value_bounds hpos
  have hone : (1 : ℚ) ≤ b.value := by
    have hvalue : 0 < b.value := by
      unfold Binary.value
      have hsignificand : (0 : ℚ) < b.significand := by exact_mod_cast hpos
      exact mul_pos hsignificand (two_zpow_pos _)
    rw [hn] at hvalue ⊢
    exact_mod_cast hvalue
  have hbits : 0 < (b.significand.log2 : ℤ) + 1 + b.exponent := by
    have h : (2 : ℚ) ^ (0 : ℤ) < 2 ^ ((b.significand.log2 : ℤ) + 1 + b.exponent) := by
      rw [zpow_zero]
      exact hone.trans_lt hhigh
    exact (zpow_lt_zpow_iff_right₀ one_lt_two).1 h
  have hbits' : (b.significand.log2 : ℤ) + b.exponent < 50 := by
    have h : (2 : ℚ) ^ ((b.significand.log2 : ℤ) + b.exponent) < 2 ^ (50 : ℤ) := by
      apply hlow.trans_lt
      apply hsmall.trans
      norm_num
    exact (zpow_lt_zpow_iff_right₀ one_lt_two).1 h
  have htop := topPower_bounds b
  obtain ⟨k, hk⟩ : ∃ k : Nat, topPower b = k := ⟨(topPower b).toNat, by omega⟩
  have hhit : ((Interval.ofBinary b).pick? tie (topPower b - k)).isSome = true := by
    rw [hk, sub_self]
    exact hit_whole hpos tie hn
  have hsearch := (Interval.coarsest_spec (show k < 24 by omega) hhit).2
  have hstrip := (Decimal.strip_spec ((Interval.ofBinary b).coarsest tie 24 (topPower b)) 24).2
  rw [shortest_eq]
  omega

/-- Whole numbers lie in the intervals of whole doubles only. -/
theorem whole_of_holds (hpos : 0 < b.significand) {n : Nat} (h : (Interval.ofBinary b).Holds n) :
    ∃ m : Nat, b.value = m := by
  rcases le_or_gt 0 b.exponent with hexponent | hexponent
  · obtain ⟨k, hk⟩ := Int.eq_ofNat_of_zero_le hexponent
    refine ⟨b.significand * 2 ^ k, ?_⟩
    unfold Binary.value
    rw [hk, zpow_natCast]
    push_cast
    rfl
  · refine ⟨n, ?_⟩
    obtain ⟨hlow, hhigh, -⟩ := bounds_of_holds hpos h
    obtain ⟨k, hk⟩ : ∃ k : Nat, b.exponent = -(k : ℤ) := ⟨(-b.exponent).toNat, by omega⟩
    have hreach := reach_le b
    have hscale : (0 : ℚ) < 2 ^ k := by positivity
    unfold Binary.value
    rw [hk, zpow_neg, zpow_natCast] at hlow hhigh ⊢
    rw [← div_eq_mul_inv, div_le_iff₀ hscale] at hlow
    rw [← div_eq_mul_inv, le_div_iff₀ hscale] at hhigh
    rw [← div_eq_mul_inv, div_eq_iff hscale.ne']
    have hle : n * 2 ^ k < b.significand + 1 := by
      have h' : (n : ℚ) * 2 ^ k < b.significand + 1 := by linarith
      exact_mod_cast h'
    have hge : b.significand < n * 2 ^ k + 1 := by
      have h' : (b.significand : ℚ) < n * 2 ^ k + 1 := by linarith
      exact_mod_cast h'
    have heq : b.significand = n * 2 ^ k := by omega
    exact_mod_cast heq

theorem shortest_exponent_nonneg_iff (isDouble : b.IsDouble) (hpos : 0 < b.significand) (tie : Tie)
    (hsmall : b.value < 10 ^ 15) : 0 ≤ (Decimal.shortest tie b).exponent ↔ ∃ n : Nat, b.value = n := by
  constructor
  · intro hexponent
    obtain ⟨k, hk⟩ := Int.eq_ofNat_of_zero_le hexponent
    have hholds := shortest_holds isDouble hpos tie
    apply whole_of_holds hpos (n := (Decimal.shortest tie b).digits * 10 ^ k)
    unfold Decimal.value at hholds
    rw [hk, zpow_natCast] at hholds
    push_cast
    exact hholds
  · rintro ⟨n, hn⟩
    exact shortest_exponent_nonneg hpos tie hn hsmall

end Shortest

end WorkloadAtlas.Number
