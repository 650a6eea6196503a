import WorkloadAtlas.Proofs.Interpolation
/-!
Arithmetic that leaves the finite doubles. What a rational is rounded to stands in the order of the doubles where the
rational does, also if it is an infinity. Quotients by zero and by infinities are cut off to naturals as well: without a
value to zero, and beyond all naturals of 64 bits to the greatest one of these.
-/

namespace WorkloadAtlas.Number

open Float.Model (UnpackedFloat)
open Float.Model.UnpackedFloat

section Order

variable {p q : ℚ} {x y : Float}

theorem Rounds.isFinite_iff (h : Rounds q x) : x.isFinite = true ↔ |q| < threshold := by
  refine ⟨h.within, fun hlt => ?_⟩
  by_contra hinfinite
  obtain ⟨hlow, hhigh⟩ := abs_lt.1 hlt
  rcases h.beyond (Bool.eq_false_iff.2 hinfinite) with ⟨hge, -⟩ | ⟨hle, -⟩
  · exact absurd hhigh (not_lt.2 hge)
  · exact absurd hlow (not_lt.2 hle)

theorem Rounds.isFinite_of_le (hx : Rounds p x) (hy : Rounds q y) (hle : |p| ≤ |q|) (hfinite : y.isFinite = true) :
    x.isFinite = true :=
  hx.isFinite_iff.2 (hle.trans_lt (hy.within hfinite))

theorem threshold_pos : 0 < threshold := by
  have hpower : (2 : ℚ) ^ (970 : ℤ) < 2 ^ (1024 : ℤ) := zpow_lt_zpow_right₀ one_lt_two (by norm_num)
  exact sub_pos.2 hpower

theorem Rounds.infinite_of_nonneg (h : Rounds q x) (hq : 0 ≤ q) (hinfinite : x.isFinite = false) :
    x.toModel.unpack = .infinity .positive := by
  rcases h.beyond hinfinite with ⟨-, hunpack⟩ | ⟨hle, -⟩
  · exact hunpack
  · have hpos := threshold_pos
    linarith

theorem Rounds.isNaN (h : Rounds q x) : x.isNaN = false := by
  cases hfinite : x.isFinite with
  | true => exact isNaN_of_isFinite hfinite
  | false =>
    rw [isNaN_eq_false_iff]
    rcases h.beyond hfinite with ⟨-, hunpack⟩ | ⟨-, hunpack⟩ <;> rw [hunpack] <;> exact UnpackedFloat.noConfusion

theorem lt_threshold_of_isFinite (hy : y.isFinite = true) : |value y| < threshold :=
  (Rounds.of_value hy).within hy

/-- Below a double nothing is rounded to a greater one. -/
theorem Rounds.le_of_le (h : Rounds q x) (hy : y.isFinite = true) (hle : q ≤ value y) : x ≤ y := by
  cases hfinite : x.isFinite with
  | true =>
    rw [le_iff_value hfinite hy]
    exact h.mono (Rounds.of_value hy) hfinite hy hle
  | false =>
    rcases h.beyond hfinite with ⟨hge, -⟩ | ⟨-, hunpack⟩
    · have hlt := (abs_lt.1 (lt_threshold_of_isFinite hy)).2
      linarith
    · rw [le_iff_place h.isNaN (isNaN_of_isFinite hy), hunpack]
      exact (place_bounds _).1

theorem Rounds.ge_of_ge (h : Rounds q x) (hy : y.isFinite = true) (hge : value y ≤ q) : y ≤ x := by
  cases hfinite : x.isFinite with
  | true =>
    rw [le_iff_value hy hfinite]
    exact (Rounds.of_value hy).mono h hy hfinite hge
  | false =>
    rcases h.beyond hfinite with ⟨-, hunpack⟩ | ⟨hle, -⟩
    · rw [le_iff_place (isNaN_of_isFinite hy) h.isNaN, hunpack]
      exact (place_bounds _).2
    · have hlt := (abs_lt.1 (lt_threshold_of_isFinite hy)).1
      linarith

theorem Representable.exists_value {v : ℚ} (hv : Representable v) : ∃ z : Float, z.isFinite = true ∧ value z = v := by
  obtain ⟨k, j, hvalue, -, -⟩ := hv.2
  rw [hvalue] at hv ⊢
  exact ⟨_, (rounds_normalize k j).exact hv⟩

/-- One bound is enough where the result is known to be finite. -/
theorem Rounds.le_value (h : Rounds q x) (hx : x.isFinite = true) {v : ℚ} (hv : Representable v) (hle : v ≤ q) :
    v ≤ value x := by
  obtain ⟨z, hz, rfl⟩ := hv.exists_value
  exact (Rounds.of_value hz).mono h hz hx hle

theorem Rounds.value_le (h : Rounds q x) (hx : x.isFinite = true) {v : ℚ} (hv : Representable v) (hle : q ≤ v) :
    value x ≤ v := by
  obtain ⟨z, hz, rfl⟩ := hv.exists_value
  exact h.mono (Rounds.of_value hz) hx hz hle

theorem value_sub_eq_zero (hx : x.isFinite = true) (hy : y.isFinite = true) (heq : value x = value y) :
    (y - x).isFinite = true ∧ value (y - x) = 0 := by
  have hrounds := rounds_sub hy hx
  rw [heq, sub_self] at hrounds
  exact hrounds.exact representable_zero

/-- Different doubles have a difference: it is at least the least double. -/
theorem value_sub_pos (hx : x.isFinite = true) (hy : y.isFinite = true) (hlt : value x < value y)
    (hd : (y - x).isFinite = true) : 0 < value (y - x) := by
  obtain ⟨m, hm⟩ := exists_units hx
  obtain ⟨n, hn⟩ := exists_units hy
  have hunit := two_zpow_pos (-1074)
  have hlt' := hlt
  rw [hm, hn, mul_lt_mul_iff_left₀ hunit] at hlt'
  have hone : (1 : ℚ) ≤ (n : ℚ) - m := by
    have hstep : m + 1 ≤ n := by exact_mod_cast hlt'
    have hcast : (m : ℚ) + 1 ≤ n := by exact_mod_cast hstep
    linarith
  have hleast : 1 * 2 ^ (-1074 : ℤ) ≤ value y - value x := by
    rw [hm, hn, ← sub_mul]
    exact mul_le_mul_of_nonneg_right hone hunit.le
  have hrepresentable := representable_units (n := 1) (by norm_num)
  rw [Int.cast_one] at hrepresentable
  have hle := (rounds_sub hy hx).le_value hd hrepresentable hleast
  rw [one_mul] at hle
  exact hunit.trans_le hle

end Order

section Special

variable {x y : Float} {s : Sign}

theorem unpack_pack_zero (s : Sign) : (Float.ofModel (Float.Model.pack (.zero s))).toModel.unpack = .zero s := by
  cases s with
  | negative => rfl
  | positive => rfl

theorem unpack_pack_infinity (s : Sign) :
    (Float.ofModel (Float.Model.pack (.infinity s))).toModel.unpack = .infinity s := by
  cases s with
  | negative => rfl
  | positive => rfl

theorem unpack_pack_nan : (Float.ofModel (Float.Model.pack .notANumber)).toModel.unpack = .notANumber := rfl

theorem unpack_of_value_zero (hx : x.isFinite = true) (hzero : value x = 0) : x.toModel.unpack = .zero (signOf x) := by
  rw [unpack_eq hx, signed_of_zero (significand_of_value_zero hzero)]

theorem unpack_of_value_pos (hx : x.isFinite = true) (hpos : 0 < value x) :
    ∃ m e hm, x.toModel.unpack = .finite .positive m e hm := by
  have hsign : isNegative x = false := (Rounds.of_value hx).positive hx hpos
  have hsignificand : 0 < (magnitude x).significand := by
    rw [Nat.pos_iff_ne_zero]
    intro hzero
    rw [value, value_of_zero hzero, neg_zero, ite_self] at hpos
    exact lt_irrefl _ hpos
  refine ⟨_, (magnitude x).exponent, hsignificand, ?_⟩
  rw [unpack_eq hx, signed_of_pos hsignificand, signOf, hsign]
  rfl

theorem quotient_eq (x y : Float) :
    x / y = Float.ofModel (Float.Model.pack (div .binary64 x.toModel.unpack y.toModel.unpack)) := rfl

/-- Without a value there is nothing to cut off. -/
theorem toUInt64_of_unpack_zero (h : x.toModel.unpack = .notANumber ∨ ∃ s, x.toModel.unpack = .zero s) :
    x.toUInt64.toNat = 0 := by
  have hcut : x.toUInt64 = UInt64.ofNatClamp (x.toModel.unpack.toInt 0 (UInt64.size - 1)).toNat := rfl
  rw [hcut]
  rcases h with hnan | ⟨s, hzero⟩
  · rw [hnan]
    rfl
  · rw [hzero]
    rfl

theorem toUInt64_of_infinity (h : x.toModel.unpack = .infinity .positive) : x.toUInt64.toNat = 2 ^ 64 - 1 := by
  have hcut : x.toUInt64 = UInt64.ofNatClamp (x.toModel.unpack.toInt 0 (UInt64.size - 1)).toNat := rfl
  rw [hcut, h]
  rfl

theorem toUInt64_zero_div (hx : x.isFinite = true) (hzero : value x = 0) (y : Float) : (x / y).toUInt64.toNat = 0 := by
  apply toUInt64_of_unpack_zero
  rw [quotient_eq, unpack_of_value_zero hx hzero]
  cases y.toModel.unpack with
  | notANumber => exact .inl unpack_pack_nan
  | infinity t => exact .inr ⟨_, unpack_pack_zero _⟩
  | zero t => exact .inl unpack_pack_nan
  | finite t m e hm => exact .inr ⟨_, unpack_pack_zero _⟩

theorem toUInt64_div_infinity (x : Float) (hy : y.toModel.unpack = .infinity s) : (x / y).toUInt64.toNat = 0 := by
  apply toUInt64_of_unpack_zero
  rw [quotient_eq, hy]
  cases x.toModel.unpack with
  | notANumber => exact .inl unpack_pack_nan
  | infinity t => exact .inl unpack_pack_nan
  | zero t => exact .inr ⟨_, unpack_pack_zero _⟩
  | finite t m e hm => exact .inr ⟨_, unpack_pack_zero _⟩

theorem unpack_infinity_div_infinity (hx : x.toModel.unpack = .infinity .positive)
    (hy : y.toModel.unpack = .infinity s) : (x / y).toModel.unpack = .notANumber := by
  rw [quotient_eq, hx, hy]
  exact unpack_pack_nan

theorem unpack_div_zero (hx : x.isFinite = true) (hpos : 0 < value x) (hy : y.toModel.unpack = .zero .positive) :
    (x / y).toModel.unpack = .infinity .positive := by
  obtain ⟨m, e, hm, hunpack⟩ := unpack_of_value_pos hx hpos
  rw [quotient_eq, hunpack, hy]
  exact unpack_pack_infinity .positive

theorem unpack_infinity_div (hx : x.toModel.unpack = .infinity .positive) (hy : y.isFinite = true)
    (hpos : 0 < value y) : (x / y).toModel.unpack = .infinity .positive := by
  obtain ⟨m, e, hm, hunpack⟩ := unpack_of_value_pos hy hpos
  rw [quotient_eq, hunpack, hx]
  exact unpack_pack_infinity .positive

theorem unpack_infinity_mul (hx : x.toModel.unpack = .infinity .positive) (hy : y.isFinite = true)
    (hpos : 0 < value y) : (x * y).toModel.unpack = .infinity .positive := by
  obtain ⟨m, e, hm, hunpack⟩ := unpack_of_value_pos hy hpos
  change (Float.ofModel (Float.Model.pack (mul .binary64 x.toModel.unpack y.toModel.unpack))).toModel.unpack = _
  rw [hunpack, hx]
  exact unpack_pack_infinity .positive

theorem unpack_add_infinity (hx : x.isFinite = true) (hy : y.toModel.unpack = .infinity .positive) :
    (x + y).toModel.unpack = .infinity .positive := by
  change (Float.ofModel (Float.Model.pack (add .binary64 x.toModel.unpack y.toModel.unpack))).toModel.unpack = _
  rw [unpack_eq hx, hy, signed]
  split
  · exact unpack_pack_infinity .positive
  · exact unpack_pack_infinity .positive

theorem unpack_sub_infinity (hx : x.isFinite = true) (hy : y.toModel.unpack = .infinity .positive) :
    (x - y).toModel.unpack = .infinity .negative := by
  change (Float.ofModel (Float.Model.pack (sub .binary64 x.toModel.unpack y.toModel.unpack))).toModel.unpack = _
  rw [unpack_eq hx, hy, signed]
  split
  · exact unpack_pack_infinity .negative
  · exact unpack_pack_infinity .negative

theorem not_le_nan (x : Float) (hy : y.toModel.unpack = .notANumber) : ¬ x ≤ y := by
  have hle : x ≤ y ↔ x.toModel.unpack.le y.toModel.unpack = true := decide_eq_true_iff
  rw [hle, hy]
  cases x.toModel.unpack <;> exact Bool.false_ne_true

theorem isNaN_of_le (h : x ≤ y) : x.isNaN = false ∧ y.isNaN = false := by
  have hle : x ≤ y ↔ x.toModel.unpack.le y.toModel.unpack = true := decide_eq_true_iff
  simp only [isNaN_eq_false_iff]
  constructor
  · intro hnan
    rw [hle, hnan] at h
    exact Bool.false_ne_true h
  · intro hnan
    exact not_le_nan x hnan h

theorem lt_of_le_of_lt_of_le {z w : Float} (hxy : x ≤ y) (hyz : y < z) (hzw : z ≤ w) : x < w := by
  obtain ⟨hx, hy⟩ := isNaN_of_le hxy
  obtain ⟨hz, hw⟩ := isNaN_of_le hzw
  rw [le_iff_place hx hy] at hxy
  rw [lt_iff_place hy hz] at hyz
  rw [le_iff_place hz hw] at hzw
  rw [lt_iff_place hx hw]
  exact (hxy.trans_lt hyz).trans_le hzw

theorem le_of_infinity (hx : x.isNaN = false) (hy : y.toModel.unpack = .infinity .positive) : x ≤ y := by
  rw [le_iff_place hx (isNaN_eq_false_iff.2 (by rw [hy]; exact UnpackedFloat.noConfusion)), hy]
  exact (place_bounds _).2

theorem infinity_le_of (hx : x.toModel.unpack = .infinity .negative) (hy : y.isNaN = false) : x ≤ y := by
  rw [le_iff_place (isNaN_eq_false_iff.2 (by rw [hx]; exact UnpackedFloat.noConfusion)) hy, hx]
  exact (place_bounds _).1

end Special

end WorkloadAtlas.Number
