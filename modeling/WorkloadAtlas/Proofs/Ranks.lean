import WorkloadAtlas.Proofs.Monotony
import WorkloadAtlas.Quantile
/-!
The ranks of levels. A level is a finite double from zero to a hundred, so its rank is one from zero to the last index,
and it is cut off to an index that is at most the last one; the part that is cut off is exact. What is interpolated
between two values stays in proportion to their magnitude.
-/

namespace WorkloadAtlas.Number

theorem value_hundred : (100.0 : Float).isFinite = true ∧ value 100.0 = 100 := by
  have hfinite : (100.0 : Float).isFinite = true := by decide +kernel
  have hnegative : isNegative 100.0 = false := by decide +kernel
  have hmagnitude : magnitude 100.0 = ⟨100 * 2 ^ 46, -46⟩ := by decide +kernel
  refine ⟨hfinite, ?_⟩
  rw [value, hnegative, hmagnitude, Binary.value]
  norm_num

/-- What lies between finite doubles is finite. -/
theorem isFinite_of_between {x y z : Float} (hx : x.isFinite = true) (hz : z.isFinite = true) (hxy : x ≤ y)
    (hyz : y ≤ z) : y.isFinite = true := by
  have hlow : x ≤ y ↔ x.toModel.unpack.le y.toModel.unpack = true := decide_eq_true_iff
  have hhigh : y ≤ z ↔ y.toModel.unpack.le z.toModel.unpack = true := decide_eq_true_iff
  rw [hlow] at hxy
  rw [hhigh] at hyz
  unfold Float.isFinite Float.Model.isFinite at hx hz ⊢
  generalize x.toModel.unpack = a at hx hxy
  generalize z.toModel.unpack = c at hz hyz
  cases hb : y.toModel.unpack with
  | notANumber =>
    rw [hb] at hxy
    cases a <;> cases hxy
  | infinity s =>
    rw [hb] at hxy hyz
    cases s with
    | positive =>
      cases c with
      | notANumber => cases hz
      | infinity s => cases hz
      | zero s => cases hyz
      | finite s m e hm => cases hyz
    | negative =>
      cases a with
      | notANumber => cases hx
      | infinity s => cases hx
      | zero s => cases hxy
      | finite s m e hm => cases hxy
  | zero s => rfl
  | finite s m e hm => rfl

/-- What is left of a magnitude behind its whole part keeps the place of the magnitude. -/
theorem exists_fract (b : Binary) : ∃ k : Nat, k ≤ b.significand ∧ b.value - ⌊b.value⌋₊ = k * 2 ^ b.exponent := by
  rcases le_or_gt 0 b.exponent with hwhole | hfine
  · have hvalue : b.value = (b.significand * 2 ^ b.exponent.toNat : Nat) := by
      obtain ⟨n, hn⟩ := Int.eq_ofNat_of_zero_le hwhole
      rw [Binary.value, hn, Int.toNat_natCast, zpow_natCast]
      push_cast
      rfl
    refine ⟨0, Nat.zero_le _, ?_⟩
    rw [hvalue, Nat.floor_natCast, sub_self, Nat.cast_zero, zero_mul]
  · obtain ⟨n, hn⟩ : ∃ n : Nat, b.exponent = -n := ⟨(-b.exponent).toNat, by omega⟩
    have hunit : (0 : ℚ) < 2 ^ n := pow_pos two_pos n
    have hvalue : b.value = b.significand / (2 ^ n : Nat) := by
      rw [Binary.value, hn, zpow_neg, zpow_natCast, ← div_eq_mul_inv]
      push_cast
      rfl
    have hsum : ((2 ^ n * (b.significand / 2 ^ n) + b.significand % 2 ^ n : Nat) : ℚ) = b.significand := by
      rw [Nat.div_add_mod]
    refine ⟨b.significand % 2 ^ n, Nat.mod_le _ _, ?_⟩
    rw [hvalue, Nat.floor_div_eq_div, hn, zpow_neg, zpow_natCast, ← hsum]
    push_cast
    field_simp
    ring

/-- What is left of a double behind its whole part is again a double. -/
theorem representable_fract {x : Float} (hx : x.isFinite = true) (h : 0 ≤ value x) :
    Representable (value x - ⌊value x⌋₊) := by
  have hdouble := isDouble_magnitude hx
  have hvalue := abs_value x
  rw [abs_of_nonneg h] at hvalue
  rw [hvalue]
  obtain ⟨k, hk, heq⟩ := exists_fract (magnitude x)
  refine ⟨?_, k, (magnitude x).exponent, by rw [heq, Int.cast_natCast], ?_, hdouble.least_le⟩
  · have hle : (k : ℚ) * 2 ^ (magnitude x).exponent ≤ (magnitude x).value :=
      mul_le_mul_of_nonneg_right (by exact_mod_cast hk) (two_zpow_pos _).le
    rw [heq, abs_of_nonneg (mul_nonneg (Nat.cast_nonneg _) (two_zpow_pos _).le)]
    exact hle.trans_lt (value_lt_overflow hdouble)
  · rw [abs_of_nonneg (Int.natCast_nonneg k)]
    exact_mod_cast hk.trans hdouble.significand_lt.le

end WorkloadAtlas.Number

namespace WorkloadAtlas.Quantile

open Number

variable {level : Float} {last : Nat}

theorem level_bounds (h : isLevel level = true) :
    level.isFinite = true ∧ 0 ≤ Number.value level ∧ Number.value level ≤ 100 := by
  unfold isLevel at h
  rw [Bool.and_eq_true, decide_eq_true_iff, decide_eq_true_iff] at h
  have hfinite := isFinite_of_between value_zero.1 value_hundred.1 h.1 h.2
  have hlow := value_le value_zero.1 hfinite h.1
  have hhigh := value_le hfinite value_hundred.1 h.2
  rw [value_zero.2] at hlow
  rw [value_hundred.2] at hhigh
  exact ⟨hfinite, hlow, hhigh⟩

theorem hundredth_bounds (h : isLevel level = true) :
    (level / 100.0).isFinite = true ∧ 0 ≤ Number.value (level / 100.0) ∧ Number.value (level / 100.0) ≤ 1 := by
  obtain ⟨hfinite, hlow, hhigh⟩ := level_bounds h
  have hrounds := rounds_div hfinite value_hundred.1 (by rw [value_hundred.2]; norm_num)
  rw [value_hundred.2] at hrounds
  exact hrounds.between 0 1 representable_zero representable_one (by linarith) (by linarith)

theorem rank_bounds (h : isLevel level = true) (hlast : last < 2 ^ 53) :
    (rank level (Float.ofNat last)).isFinite = true ∧ 0 ≤ Number.value (rank level (Float.ofNat last)) ∧
      Number.value (rank level (Float.ofNat last)) ≤ last := by
  obtain ⟨hfinite, hlow, hhigh⟩ := hundredth_bounds h
  obtain ⟨hcount, hvalue⟩ := value_ofNat hlast
  have hrounds := rounds_mul hfinite hcount
  rw [hvalue] at hrounds
  exact hrounds.between 0 last representable_zero (representable_natCast hlast.le) (mul_nonneg hlow (Nat.cast_nonneg _))
    (mul_le_of_le_one_left (Nat.cast_nonneg _) hhigh)

/-- A rank is cut off to an index. -/
theorem below_bounds (h : isLevel level = true) (hlast : last < 2 ^ 53) :
    below (rank level (Float.ofNat last)) ≤ last ∧
      (below (rank level (Float.ofNat last)) : ℚ) ≤ Number.value (rank level (Float.ofNat last)) ∧
      Number.value (rank level (Float.ofNat last)) < below (rank level (Float.ofNat last)) + 1 := by
  obtain ⟨hfinite, hlow, hhigh⟩ := rank_bounds h hlast
  have hlast' : (last : ℚ) < 2 ^ 53 := by exact_mod_cast hlast
  have hword : Number.value (rank level (Float.ofNat last)) < 2 ^ 64 :=
    (hhigh.trans_lt hlast').trans (pow_lt_pow_right₀ one_lt_two (by norm_num))
  obtain ⟨hbelow, habove⟩ := toUInt64_bounds hfinite hlow hword
  refine ⟨?_, hbelow, habove⟩
  exact_mod_cast hbelow.trans hhigh

theorem below_eq_floor (h : isLevel level = true) (hlast : last < 2 ^ 53) :
    below (rank level (Float.ofNat last)) = ⌊Number.value (rank level (Float.ofNat last))⌋₊ := by
  obtain ⟨-, hlow, hhigh⟩ := below_bounds h hlast
  exact ((Nat.floor_eq_iff (rank_bounds h hlast).2.1).2 ⟨hlow, hhigh⟩).symm

/-- The part of the way from one index to the next is not rounded. -/
theorem fraction_spec (h : isLevel level = true) (hlast : last < 2 ^ 53) :
    let rank := rank level (Float.ofNat last)
    (rank - Float.ofNat (below rank)).isFinite = true ∧
      Number.value (rank - Float.ofNat (below rank)) = Number.value rank - below rank ∧
      0 ≤ Number.value (rank - Float.ofNat (below rank)) ∧ Number.value (rank - Float.ofNat (below rank)) < 1 := by
  intro rank
  obtain ⟨hfinite, hnonneg, -⟩ := rank_bounds h hlast
  obtain ⟨hle, hbelow, habove⟩ := below_bounds h hlast
  obtain ⟨hcount, hvalue⟩ := value_ofNat (hle.trans_lt hlast)
  have hrounds := rounds_sub hfinite hcount
  have hexact := representable_fract hfinite hnonneg
  rw [hvalue] at hrounds
  rw [← below_eq_floor h hlast] at hexact
  obtain ⟨hpart, heq⟩ := hrounds.exact hexact
  refine ⟨hpart, heq, ?_, ?_⟩
  · rw [heq]
    exact sub_nonneg.2 hbelow
  · rw [heq]
    exact sub_left_lt_of_lt_add habove

section Reach

variable {values : List Float} {e : Nat}

theorem within_getD (hvalues : ∀ v ∈ values, Within (2 ^ e) v) (k : Nat) : Within (2 ^ e) (values.getD k 0.0) := by
  rw [List.getD_eq_getElem?_getD]
  cases hk : values[k]? with
  | none => exact within_zero (pow_nonneg zero_le_two _)
  | some v => exact hvalues v (List.mem_of_getElem? hk)

/-- Interpolation takes the difference of two values and adds a part of it to one of them. -/
theorem within_valueAt (room : Room 3 e) (hvalues : ∀ v ∈ values, Within (2 ^ e) v) (h : isLevel level = true)
    (hcount : values.length < 2 ^ 53) : Within (3 * 2 ^ e) (valueAt values level) := by
  obtain ⟨hfraction, -, hlow, hhigh⟩ := fraction_spec h (show values.length - 1 < 2 ^ 53 by omega)
  have hmultiple : ∀ k : Nat, k ≤ 3 → Representable (k * 2 ^ e) := fun k hk => (room.mono hk le_rfl).representable
  have hthree := hmultiple 3 le_rfl
  have htwo := hmultiple 2 (by norm_num)
  rw [Nat.cast_ofNat] at hthree htwo
  have hsum : (2 : ℚ) ^ e + 2 ^ e = 2 * 2 ^ e := by ring
  have hsum' : (2 : ℚ) ^ e + 2 * 2 ^ e = 3 * 2 ^ e := by ring
  simp only [valueAt]
  generalize rank level (Float.ofNat (values.length - 1)) = rank at *
  have hdistance := (within_getD hvalues (above rank)).sub (within_getD hvalues (below rank)) (by rwa [hsum])
  rw [hsum] at hdistance
  have hpart : Within (2 * 2 ^ e * 1) _ := hdistance.mul ⟨hfraction, abs_le.2 ⟨by linarith, hhigh.le⟩⟩ (by rwa [mul_one])
  rw [mul_one] at hpart
  have hinterpolated := (within_getD hvalues (below rank)).add hpart (by rwa [hsum'])
  rwa [hsum'] at hinterpolated

theorem mem_ofValues {levels : Levels} {q : Quantile} (hq : q ∈ ofValues values levels) :
    isLevel q.level = true ∧ q.value = valueAt (Number.ascending values) q.level := by
  unfold ofValues at hq
  split at hq
  · cases hq
  · obtain ⟨level, hlevel, rfl⟩ := List.mem_map.1 hq
    exact ⟨levels.within level hlevel, rfl⟩

/-- The quantiles of values in ascending order. -/
theorem mem_ofValues_of_sorted {levels : Levels} (hsorted : values.Pairwise fun x y => precedes x y = true)
    (hne : values ≠ []) (hlevel : level ∈ levels.toList) :
    Quantile.mk level (valueAt values level) ∈ ofValues values levels := by
  have hascending : Number.ascending values = values := List.mergeSort_of_pairwise hsorted
  have hempty : values.isEmpty = false := List.isEmpty_eq_false_iff.2 hne
  rw [ofValues, hempty, hascending]
  exact List.mem_map.2 ⟨level, hlevel, rfl⟩

theorem isFinite_level {levels : Levels} {q : Quantile} (hq : q ∈ ofValues values levels) :
    q.level.isFinite = true :=
  (level_bounds (mem_ofValues hq).1).1

theorem isFinite_value {levels : Levels} {q : Quantile} (hq : q ∈ ofValues values levels) (room : Room 3 e)
    (hvalues : ∀ v ∈ values, Within (2 ^ e) v) (hcount : values.length < 2 ^ 53) : q.value.isFinite = true := by
  obtain ⟨hlevel, hvalue⟩ := mem_ofValues hq
  rw [hvalue]
  apply (within_valueAt room _ hlevel _).1
  · exact fun v hv => hvalues v (List.mem_mergeSort.1 hv)
  · rwa [Number.ascending, List.length_mergeSort]

end Reach

end WorkloadAtlas.Quantile
