import WorkloadAtlas.Proofs.Monotony
/-!
Interpolation between two finite doubles. A part of their difference is added to the lesser one, with three roundings.
If the difference does not overflow, the result lies between both: a difference that is rounded up has all of its
digits, and a part that is less than the whole of it is rounded to less than the whole. If it overflows the result is
not finite.
-/

namespace WorkloadAtlas.Number

open Float.Model (UnpackedFloat)
open Float.Model.UnpackedFloat

section Exactness

variable {x y t : Float}

/-- Every finite double is a multiple of the least one. -/
theorem exists_units (hx : x.isFinite = true) : ∃ n : ℤ, value x = n * 2 ^ (-1074 : ℤ) := by
  obtain ⟨-, k, j, hvalue, -, hj⟩ := representable_value hx
  refine ⟨k * 2 ^ (j + 1074).toNat, ?_⟩
  rw [hvalue, Int.cast_mul, Int.cast_pow, Int.cast_ofNat, mul_assoc, ← zpow_natCast, ← zpow_add₀ two_ne_zero]
  congr 2
  omega

theorem representable_units {n : ℤ} (h : |n| ≤ 2 ^ 53) : Representable (n * 2 ^ (-1074 : ℤ)) := by
  refine ⟨?_, n, -1074, rfl, h, le_rfl⟩
  have hcount : |(n : ℚ)| ≤ 2 ^ 53 := by exact_mod_cast h
  have hunit : (2 : ℚ) ^ (-1074 : ℤ) ≤ 1 := zpow_le_one_of_nonpos₀ one_le_two (by norm_num)
  rw [abs_mul, abs_of_pos (two_zpow_pos _)]
  calc |(n : ℚ)| * 2 ^ (-1074 : ℤ) ≤ 2 ^ 53 * 1 :=
        mul_le_mul hcount hunit (two_zpow_pos _).le (pow_nonneg zero_le_two _)
    _ < overflow := by
      rw [mul_one]
      exact two_pow_lt_overflow (by norm_num)

/-- The bound up to which doubles count all multiples of the least one. -/
def dense : ℚ :=
  2 ^ 53 * 2 ^ (-1074 : ℤ)

theorem representable_dense : Representable dense := by
  have h := representable_units (n := 2 ^ 53) (by norm_num)
  rwa [Int.cast_pow, Int.cast_ofNat] at h

/-- Among the least values differences are exact. -/
theorem sub_exact_of_le (hx : x.isFinite = true) (hy : y.isFinite = true) (h : |value y - value x| ≤ dense) :
    value (y - x) = value y - value x := by
  obtain ⟨m, hm⟩ := exists_units hx
  obtain ⟨n, hn⟩ := exists_units hy
  have hunits : value y - value x = (n - m : ℤ) * 2 ^ (-1074 : ℤ) := by
    rw [hm, hn, Int.cast_sub, sub_mul]
  refine ((rounds_sub hy hx).exact ?_).2
  rw [hunits, abs_mul, abs_of_pos (two_zpow_pos _), dense] at h
  rw [hunits]
  apply representable_units
  have hcount := le_of_mul_le_mul_right h (two_zpow_pos _)
  exact_mod_cast hcount

/-- Beyond them a double has all of its digits. -/
theorem normal_of_dense (hx : x.isFinite = true) (h : dense ≤ value x) : -1074 < (magnitude x).exponent := by
  by_contra hsmall
  have hunit : (2 : ℚ) ^ (magnitude x).exponent ≤ 2 ^ (-1074 : ℤ) := zpow_le_zpow_right₀ one_le_two (not_lt.1 hsmall)
  have hlt := (isDouble_magnitude hx).value_lt
  rw [← abs_value] at hlt
  have hle := le_abs_self (value x)
  unfold dense at h
  linarith

/-- The double before one. -/
theorem value_le_of_lt_one (ht : t.isFinite = true) (hlow : 0 ≤ value t) (hlt : value t < 1) :
    value t ≤ 1 - 2 ^ (-53 : ℤ) := by
  have hdouble := isDouble_magnitude ht
  have hone : (Binary.mk (2 ^ 52) (-52)).IsDouble := ⟨by norm_num, by norm_num, by norm_num, fun _ => le_rfl⟩
  have hvalue : (Binary.mk (2 ^ 52) (-52)).value = 1 := by
    rw [Binary.value]
    norm_num
  have habs := abs_value t
  rw [abs_of_nonneg hlow] at habs
  rw [habs] at hlt ⊢
  have hplace := place_lt_of_value hdouble hone (by rwa [hvalue])
  have hfull := hdouble.full
  simp only at hplace
  have hexponent : (magnitude t).exponent ≤ -53 := by omega
  have hsignificand : ((magnitude t).significand : ℚ) ≤ 2 ^ 53 - 1 := by
    have hle : (magnitude t).significand + 1 ≤ 2 ^ 53 := hdouble.significand_lt
    have hcast : ((magnitude t).significand : ℚ) + 1 ≤ 2 ^ 53 := by exact_mod_cast hle
    linarith
  calc (magnitude t).value ≤ (2 ^ 53 - 1) * 2 ^ (-53 : ℤ) :=
        mul_le_mul hsignificand (zpow_le_zpow_right₀ one_le_two hexponent) (two_zpow_pos _).le (by norm_num)
    _ = 1 - 2 ^ (-53 : ℤ) := by norm_num

end Exactness

section Part

variable {b : Binary} {d t : Float}

/-- The magnitude before one with all of its digits has the same place, or the next lower one if this is a power of two.
What is short of the magnitude by the weight of a digit behind its last one does not pass it, or is nearer to it. -/
theorem exists_binary_before (hb : b.IsDouble) (hnormal : -1074 < b.exponent) :
    ∃ c : Binary, c.IsDouble ∧ c.value < b.value ∧
      ∀ q, q ≤ b.value * (1 - 2 ^ (-53 : ℤ)) → q ≤ c.value ∨ 2 * q < c.value + b.value := by
  have hfull := hb.full hnormal
  -- Everything is counted in units of the place that lies 53 below the last one.
  obtain ⟨u, hu⟩ : ∃ u : ℚ, u = 2 ^ (b.exponent - 53) := ⟨_, rfl⟩
  have huPos : 0 < u := hu ▸ two_zpow_pos _
  have hplace (k : Nat) : (2 : ℚ) ^ (b.exponent - 53 + k) = 2 ^ k * u := by
    rw [hu, zpow_add₀ two_ne_zero, zpow_natCast, mul_comm]
  have hlast : (2 : ℚ) ^ b.exponent = 2 ^ 53 * u := by
    rw [← hplace 53]
    congr 1
    push_cast
    ring
  have hlower : (2 : ℚ) ^ (b.exponent - 1) = 2 ^ 52 * u := by
    rw [← hplace 52]
    congr 1
    push_cast
    ring
  have hvalue : b.value = b.significand * (2 ^ 53 * u) := by rw [Binary.value, hlast]
  have hshort : b.value * (1 - 2 ^ (-53 : ℤ)) = b.value - b.significand * u := by
    rw [hvalue]
    norm_num
    ring
  rw [hshort]
  rcases Nat.lt_or_eq_of_le hfull with hmore | hpower
  · have hbefore : (Binary.mk (b.significand - 1) b.exponent).value = b.value - 2 ^ 53 * u := by
      rw [Binary.value, hlast, Nat.cast_pred (by omega), hvalue]
      ring
    have hmore' : (2 : ℚ) ^ 52 * u < b.significand * u := mul_lt_mul_of_pos_right (by exact_mod_cast hmore) huPos
    refine ⟨⟨b.significand - 1, b.exponent⟩, ⟨?_, hb.least_le, hb.le_greatest, fun _ => Nat.le_sub_one_of_lt hmore⟩,
      ?_, fun q hq => .inr ?_⟩
    · exact (Nat.sub_le _ _).trans_lt hb.significand_lt
    · rw [hbefore]
      linarith
    · rw [hbefore]
      linarith
  · have hbefore : (Binary.mk (2 ^ 53 - 1) (b.exponent - 1)).value = b.value - 2 ^ 52 * u := by
      rw [Binary.value, hlower, hvalue, ← hpower]
      push_cast
      ring
    have hgreatest := hb.le_greatest
    refine ⟨⟨2 ^ 53 - 1, b.exponent - 1⟩, ⟨by norm_num, ?_, ?_, fun _ => by norm_num⟩, ?_, fun q hq => .inl ?_⟩
    · simp only
      omega
    · simp only
      omega
    · rw [hbefore]
      linarith
    · rw [hbefore]
      rw [← hpower] at hq
      push_cast at hq
      exact hq

/-- Less than the whole of a double with all of its digits is rounded to less than it. -/
theorem part_lt (hd : d.isFinite = true) (ht : t.isFinite = true) (hpos : 0 < value d)
    (hnormal : -1074 < (magnitude d).exponent) (hlow : 0 ≤ value t) (hlt : value t < 1) : value (d * t) < value d := by
  have hrounds := rounds_mul hd ht
  have hproduct : value d * value t ≤ value d * (1 - 2 ^ (-53 : ℤ)) :=
    mul_le_mul_of_nonneg_left (value_le_of_lt_one ht hlow hlt) hpos.le
  obtain ⟨c, hc, hcLt, hbefore⟩ := exists_binary_before (isDouble_magnitude hd) hnormal
  obtain ⟨hz, hzValue⟩ := value_pack hc .positive
  rw [unpackedValue_signed, withSign] at hzValue
  rw [← abs_value, abs_of_pos hpos] at hcLt hbefore
  rcases hbefore _ hproduct with hle | hmiddle
  · rw [← hzValue] at hle
    have hbetween := hrounds.between 0 _ representable_zero (representable_value hz) (mul_nonneg hpos.le hlow) hle
    exact hbetween.2.2.trans_lt (hzValue.trans_lt hcLt)
  · obtain ⟨hfinite, -, hhigh⟩ := part_bounds hd ht hlow hlt.le
    refine lt_of_le_of_ne (hhigh.trans_eq (max_eq_left hpos.le)) fun heq => ?_
    have hnear := middle_le (by rwa [hzValue, heq]) ((hrounds.nearest hfinite).near _ hz)
    rw [hzValue, heq] at hnear
    linarith

end Part

section Ends

variable {x y t u : Float}

theorem sub_nonneg_of_le (hx : x.isFinite = true) (hy : y.isFinite = true) (hle : value x ≤ value y)
    (hd : (y - x).isFinite = true) : 0 ≤ value (y - x) := by
  have hzero := Rounds.of_value value_zero.1
  rw [value_zero.2] at hzero
  have hmono := hzero.mono (rounds_sub hy hx) value_zero.1 hd (sub_nonneg.2 hle)
  rwa [value_zero.2] at hmono

/-- The part of a difference that is added. -/
theorem part_of_difference (hx : x.isFinite = true) (hy : y.isFinite = true) (ht : t.isFinite = true)
    (hle : value x ≤ value y) (hlow : 0 ≤ value t) (hlt : value t < 1) (hd : (y - x).isFinite = true) :
    ((y - x) * t).isFinite = true ∧ 0 ≤ value ((y - x) * t) ∧ value ((y - x) * t) ≤ value y - value x := by
  have hrounds := rounds_sub hy hx
  have hnonneg := sub_nonneg_of_le hx hy hle hd
  obtain ⟨hfinite, hlower, hupper⟩ := part_bounds hd ht hlow hlt.le
  rw [min_eq_right hnonneg] at hlower
  rw [max_eq_left hnonneg] at hupper
  refine ⟨hfinite, hlower, ?_⟩
  by_contra hpast
  rw [not_le] at hpast
  have hlarge : dense < value y - value x := by
    by_contra hsmall
    have habs : |value y - value x| ≤ dense := by
      rw [abs_of_nonneg (sub_nonneg.2 hle)]
      exact not_lt.1 hsmall
    rw [sub_exact_of_le hx hy habs] at hupper
    exact absurd hpast (not_lt.2 hupper)
  -- The part is a double beyond the difference, so the difference is not rounded past it.
  obtain ⟨-, hdense, hdown⟩ := hrounds.between dense _ representable_dense (representable_value hfinite) hlarge.le hpast.le
  have hpos : 0 < value (y - x) := (mul_pos (pow_pos two_pos _) (two_zpow_pos _)).trans_le hdense
  exact absurd (part_lt hd ht hpos (normal_of_dense hd hdense) hlow hlt) (not_lt.2 hdown)

/-- What is interpolated lies between both ends. -/
theorem interpolated_bounds (hx : x.isFinite = true) (hy : y.isFinite = true) (ht : t.isFinite = true)
    (hle : value x ≤ value y) (hlow : 0 ≤ value t) (hlt : value t < 1) (hd : (y - x).isFinite = true) :
    (x + (y - x) * t).isFinite = true ∧ value x ≤ value (x + (y - x) * t) ∧ value (x + (y - x) * t) ≤ value y := by
  obtain ⟨hfinite, hnonneg, hpart⟩ := part_of_difference hx hy ht hle hlow hlt hd
  exact (rounds_add hx hfinite).between _ _ (representable_value hx) (representable_value hy) (by linarith) (by linarith)

/-- The farther on the way, the greater. -/
theorem interpolated_mono (hx : x.isFinite = true) (hy : y.isFinite = true) (ht : t.isFinite = true)
    (hu : u.isFinite = true) (hle : value x ≤ value y) (hlow : 0 ≤ value t) (htu : value t ≤ value u)
    (hlt : value u < 1) (hd : (y - x).isFinite = true) :
    value (x + (y - x) * t) ≤ value (x + (y - x) * u) := by
  have htLt := htu.trans_lt hlt
  have huLow := hlow.trans htu
  obtain ⟨hfinite, -, -⟩ := part_of_difference hx hy ht hle hlow htLt hd
  obtain ⟨hfinite', -, -⟩ := part_of_difference hx hy hu hle huLow hlt hd
  have hnonneg := sub_nonneg_of_le hx hy hle hd
  have hpart : value ((y - x) * t) ≤ value ((y - x) * u) :=
    (rounds_mul hd ht).mono (rounds_mul hd hu) hfinite hfinite' (mul_le_mul_of_nonneg_left htu hnonneg)
  exact (rounds_add hx hfinite).mono (rounds_add hx hfinite') (interpolated_bounds hx hy ht hle hlow htLt hd).1
    (interpolated_bounds hx hy hu hle huLow hlt hd).1 (add_le_add_right hpart _)

theorem not_isFinite_pack {a : UnpackedFloat} (h : a = .notANumber ∨ ∃ s, a = .infinity s) :
    (Float.ofModel (Float.Model.pack a)).isFinite = false := by
  rcases h with rfl | ⟨⟨⟩, rfl⟩ <;> decide

theorem isFinite_eq_false_iff {x : Float} :
    x.isFinite = false ↔ x.toModel.unpack = .notANumber ∨ ∃ s, x.toModel.unpack = .infinity s := by
  unfold Float.isFinite Float.Model.isFinite
  cases x.toModel.unpack <;> simp [UnpackedFloat.isFinite]

/-- No part of what is not finite is finite. -/
theorem not_isFinite_mul (hx : x.isFinite = false) (t : Float) : (x * t).isFinite = false := by
  change (Float.ofModel (Float.Model.pack (mul .binary64 x.toModel.unpack t.toModel.unpack))).isFinite = false
  apply not_isFinite_pack
  rcases isFinite_eq_false_iff.1 hx with h | ⟨s, h⟩
  · rw [h]
    exact .inl rfl
  · rw [h]
    cases t.toModel.unpack with
    | notANumber => exact .inl rfl
    | infinity s' => exact .inr ⟨_, rfl⟩
    | zero s' => exact .inl rfl
    | finite s' m e hm => exact .inr ⟨_, rfl⟩

theorem not_isFinite_add (x : Float) (hy : y.isFinite = false) : (x + y).isFinite = false := by
  change (Float.ofModel (Float.Model.pack (add .binary64 x.toModel.unpack y.toModel.unpack))).isFinite = false
  apply not_isFinite_pack
  rcases isFinite_eq_false_iff.1 hy with h | ⟨s, h⟩
  · rw [h]
    cases x.toModel.unpack <;> exact .inl rfl
  · rw [h]
    cases x.toModel.unpack with
    | notANumber => exact .inl rfl
    | infinity s' =>
      simp only [add]
      split
      · exact .inr ⟨_, rfl⟩
      · exact .inl rfl
    | zero s' => exact .inr ⟨_, rfl⟩
    | finite s' m e hm => exact .inr ⟨_, rfl⟩

end Ends

end WorkloadAtlas.Number
