import WorkloadAtlas.Proofs.Doubles
import WorkloadAtlas.Proofs.Faithful
/-!
Arithmetic on finite doubles. Sums, differences, products and quotients round the exact result, naturals are rounded
to doubles, and a double is cut off to a natural. A root of a finite double is finite.
-/

namespace WorkloadAtlas.Number

open Float.Model (UnpackedFloat)
open Float.Model.UnpackedFloat

theorem rounds_signed {b : Binary} (h : b.IsDouble) (s : Sign) :
    Rounds (unpackedValue (signed s b)) (Float.ofModel (Float.Model.pack (signed s b))) := by
  obtain ⟨hfinite, hvalue⟩ := value_pack h s
  rw [← hvalue]
  exact .of_value hfinite

theorem rounds_zero (s : Sign) : Rounds 0 (Float.ofModel (Float.Model.pack (.zero s))) :=
  rounds_signed (b := ⟨0, -1074⟩) ⟨by norm_num, by norm_num, by norm_num, by norm_num⟩ s

theorem rounds_round (s : Sign) {m : Nat} (hm : 0 < m) (e : ℤ) :
    Rounds (withSign s (m * 2 ^ e)) (Float.ofModel (Float.Model.pack (UnpackedFloat.round .binary64 s m e))) := by
  unfold UnpackedFloat.round decreaseExponent
  simp only [targetExponent_eq]
  obtain ⟨k, hk⟩ : ∃ k : Nat, k = (e - max ((m.log2 : ℤ) + e - 52) (-1074)).toNat := ⟨_, rfl⟩
  rw [← hk, Nat.shiftLeft_eq]
  have hunit := two_zpow_pos (e - k)
  have hvalue : (m : ℚ) * 2 ^ e / 2 ^ (e - k) = (m * 2 ^ k : Nat) := by
    rw [div_eq_iff hunit.ne']
    push_cast
    rw [mul_assoc, ← zpow_natCast, ← zpow_add₀ two_ne_zero]
    congr 2
    omega
  have hq := describes_exact (m * 2 ^ k)
  rw [← hvalue] at hq
  apply rounds_pack s hq
  by_cases hleast : e - k ≤ -1074
  · exact .inr hleast
  · have hlog : 52 ≤ m.log2 + k := by omega
    left
    calc 2 ^ 52 ≤ 2 ^ (m.log2 + k) := Nat.pow_le_pow_right (by norm_num) hlog
      _ = 2 ^ m.log2 * 2 ^ k := pow_add _ _ _
      _ ≤ m * 2 ^ k := Nat.mul_le_mul_right _ (Nat.log2_self_le hm.ne')

theorem rounds_normalize (mantissa e : ℤ) :
    Rounds (mantissa * 2 ^ e)
      (Float.ofModel (Float.Model.pack (UnpackedFloat.normalize .binary64 mantissa e .positive))) := by
  unfold UnpackedFloat.normalize
  rcases lt_trichotomy mantissa 0 with hneg | rfl | hpos
  · rw [compare_lt_iff_lt.2 hneg]
    have h := rounds_round .negative (show 0 < (-mantissa).toNat by omega) e
    have hcast : (((-mantissa).toNat : ℤ) : ℚ) = (-mantissa : ℤ) := by rw [Int.toNat_of_nonneg (by omega)]
    rw [Int.cast_natCast, Int.cast_neg] at hcast
    rw [hcast, withSign, neg_mul, neg_neg] at h
    exact h
  · rw [Int.cast_zero, zero_mul]
    exact rounds_zero .positive
  · rw [compare_gt_iff_gt.2 hpos]
    have h := rounds_round .positive (show 0 < mantissa.toNat by omega) e
    have hcast : ((mantissa.toNat : ℤ) : ℚ) = mantissa := by rw [Int.toNat_of_nonneg (by omega)]
    rw [Int.cast_natCast] at hcast
    rw [hcast] at h
    exact h

/-- A magnitude that is counted in units of a lower place. -/
theorem apply_shift (s : Sign) (b : Binary) {e : ℤ} (he : e ≤ b.exponent) :
    ((s.apply ((b.significand <<< (b.exponent - e).toNat : Nat) : ℤ) : ℤ) : ℚ) * 2 ^ e =
      unpackedValue (signed s b) := by
  have hvalue : ((b.significand <<< (b.exponent - e).toNat : Nat) : ℚ) * 2 ^ e = b.value := by
    rw [Nat.shiftLeft_eq, Binary.value]
    push_cast
    rw [mul_assoc, ← zpow_natCast, ← zpow_add₀ two_ne_zero]
    congr 2
    omega
  rw [unpackedValue_signed]
  cases s with
  | positive => exact_mod_cast hvalue
  | negative =>
    simp only [Sign.apply, Int.cast_neg, Int.cast_natCast]
    rw [neg_mul, hvalue, withSign]

section Operations

variable {x y : Float}

theorem unpackedValue_zero (s : Sign) : unpackedValue (.zero s) = 0 := rfl

theorem rounds_add_signed {b c : Binary} (hb : b.IsDouble) (hc : c.IsDouble) (s t : Sign) :
    Rounds (unpackedValue (signed s b) + unpackedValue (signed t c))
      (Float.ofModel (Float.Model.pack (add .binary64 (signed s b) (signed t c)))) := by
  rcases Nat.eq_zero_or_pos b.significand with hbZero | hbPos
  · rw [signed_of_zero hbZero, unpackedValue_zero, zero_add]
    rcases Nat.eq_zero_or_pos c.significand with hcZero | hcPos
    · rw [signed_of_zero hcZero, unpackedValue_zero]
      simp only [add]
      split
      · exact rounds_zero _
      · exact rounds_zero _
    · have h := rounds_signed hc t
      rw [signed_of_pos hcPos] at h ⊢
      exact h
  · rcases Nat.eq_zero_or_pos c.significand with hcZero | hcPos
    · have h := rounds_signed hb s
      rw [signed_of_zero hcZero, unpackedValue_zero, add_zero]
      rw [signed_of_pos hbPos] at h ⊢
      exact h
    · have h := rounds_normalize
        (s.apply ((b.significand <<< (b.exponent - min b.exponent c.exponent).toNat : Nat) : ℤ) +
          t.apply ((c.significand <<< (c.exponent - min b.exponent c.exponent).toNat : Nat) : ℤ))
        (min b.exponent c.exponent)
      rw [Int.cast_add, add_mul, apply_shift _ _ (min_le_left _ _), apply_shift _ _ (min_le_right _ _)] at h
      rw [signed_of_pos hbPos, signed_of_pos hcPos] at h ⊢
      exact h

/-- A difference is a sum with the other sign. -/
theorem sub_signed (b c : Binary) (s t : Sign) :
    sub .binary64 (signed s b) (signed t c) = add .binary64 (signed s b) (signed (-t) c) := by
  rcases Nat.eq_zero_or_pos b.significand with hb | hb
  · rcases Nat.eq_zero_or_pos c.significand with hc | hc
    · rw [signed_of_zero hb, signed_of_zero hc, signed_of_zero hc]
      rfl
    · rw [signed_of_zero hb, signed_of_pos hc, signed_of_pos hc]
      rfl
  · rcases Nat.eq_zero_or_pos c.significand with hc | hc
    · rw [signed_of_pos hb, signed_of_zero hc, signed_of_zero hc]
      rfl
    · rw [signed_of_pos hb, signed_of_pos hc, signed_of_pos hc]
      cases t with
      | positive => rfl
      | negative => simp only [sub, add, Sign.apply, Int.sub_neg]

theorem rounds_add (hx : x.isFinite = true) (hy : y.isFinite = true) : Rounds (value x + value y) (x + y) := by
  have hsum : x + y = Float.ofModel (Float.Model.pack (add .binary64 x.toModel.unpack y.toModel.unpack)) := rfl
  rw [hsum, value_eq hx, value_eq hy, unpack_eq hx, unpack_eq hy]
  exact rounds_add_signed (isDouble_magnitude hx) (isDouble_magnitude hy) _ _

theorem rounds_sub (hx : x.isFinite = true) (hy : y.isFinite = true) : Rounds (value x - value y) (x - y) := by
  have hdifference : x - y = Float.ofModel (Float.Model.pack (sub .binary64 x.toModel.unpack y.toModel.unpack)) := rfl
  have hneg : -unpackedValue (signed (signOf y) (magnitude y)) = unpackedValue (signed (-signOf y) (magnitude y)) := by
    rw [unpackedValue_signed, unpackedValue_signed]
    cases signOf y with
    | positive => rfl
    | negative => exact neg_neg _
  rw [hdifference, value_eq hx, value_eq hy, unpack_eq hx, unpack_eq hy, sub_signed, sub_eq_add_neg, hneg]
  exact rounds_add_signed (isDouble_magnitude hx) (isDouble_magnitude hy) _ _

theorem withSign_mul (s t : Sign) (p q : ℚ) : withSign (s * t) (p * q) = withSign s p * withSign t q := by
  cases s with
  | positive =>
    cases t with
    | positive => rfl
    | negative => exact (mul_neg p q).symm
  | negative =>
    cases t with
    | positive => exact (neg_mul p q).symm
    | negative => exact (neg_mul_neg p q).symm

theorem rounds_mul (hx : x.isFinite = true) (hy : y.isFinite = true) : Rounds (value x * value y) (x * y) := by
  have hproduct : x * y = Float.ofModel (Float.Model.pack (mul .binary64 x.toModel.unpack y.toModel.unpack)) := rfl
  have hdoubleX := isDouble_magnitude hx
  have hdoubleY := isDouble_magnitude hy
  rw [hproduct, value_eq hx, value_eq hy, unpack_eq hx, unpack_eq hy]
  generalize magnitude x = b at hdoubleX
  generalize magnitude y = c at hdoubleY
  rcases Nat.eq_zero_or_pos b.significand with hb | hb
  · rw [signed_of_zero hb, unpackedValue_zero, zero_mul]
    rcases Nat.eq_zero_or_pos c.significand with hc | hc
    · rw [signed_of_zero hc]
      exact rounds_zero _
    · rw [signed_of_pos hc]
      exact rounds_zero _
  · rcases Nat.eq_zero_or_pos c.significand with hc | hc
    · rw [signed_of_zero hc, unpackedValue_zero, mul_zero, signed_of_pos hb]
      exact rounds_zero _
    · have hvalue : b.value * c.value / 2 ^ (b.exponent + c.exponent) = (b.significand * c.significand : Nat) := by
        rw [div_eq_iff (two_zpow_pos _).ne', Binary.value, Binary.value, zpow_add₀ two_ne_zero]
        push_cast
        ring
      have hq := describes_exact (b.significand * c.significand)
      rw [← hvalue] at hq
      have hdigits : 2 ^ 52 ≤ b.significand * c.significand ∨ b.exponent + c.exponent ≤ -1074 := by
        by_cases hfullX : -1074 < b.exponent
        · exact .inl ((hdoubleX.full hfullX).trans (Nat.le_mul_of_pos_right _ hc))
        · by_cases hfullY : -1074 < c.exponent
          · exact .inl ((hdoubleY.full hfullY).trans (Nat.le_mul_of_pos_left _ hb))
          · exact .inr (by omega)
      have h := rounds_pack (signOf x * signOf y) hq hdigits
      rw [unpackedValue_signed, unpackedValue_signed, ← withSign_mul, signed_of_pos hb, signed_of_pos hc]
      exact h

/-- What is left over of a quotient, and which side of a half it lies on. -/
theorem describes_rest (m : Nat) {rest den : Nat} (hlt : rest < den) :
    Describes (.ofMantissaAndAccuracy m (accuracyOfFraction rest den)) ((m : ℚ) + rest / den) := by
  have hden : (0 : ℚ) < den := by exact_mod_cast (Nat.zero_le _).trans_lt hlt
  have hone : (rest : ℚ) / den < 1 := (div_lt_one hden).2 (by exact_mod_cast hlt)
  rcases Nat.eq_zero_or_pos rest with rfl | hpos
  · rw [Nat.cast_zero, zero_div, add_zero]
    exact describes_exact m
  · have hrest : (0 : ℚ) < rest / den := div_pos (by exact_mod_cast hpos) hden
    have haccuracy : accuracyOfFraction rest den = .inexact (compare (2 * rest) den) := if_neg hpos.ne'
    rw [haccuracy]
    rcases lt_trichotomy (2 * rest) den with hless | hhalf | hmore
    · rw [compare_lt_iff_lt.2 hless]
      have hside : (rest : ℚ) / den < 1 / 2 := by
        rw [div_lt_div_iff₀ hden two_pos, one_mul]
        exact_mod_cast (mul_comm 2 rest ▸ hless)
      have hhalves : halves (.ofMantissaAndAccuracy m (.inexact .lt)) = m := add_zero _
      exact ⟨by linarith, by linarith, iff_of_true rfl (by linarith)⟩
    · rw [compare_eq_iff_eq.2 hhalf]
      have hside : (rest : ℚ) / den = 1 / 2 := by
        rw [div_eq_div_iff hden.ne' two_ne_zero, one_mul]
        exact_mod_cast (mul_comm 2 rest ▸ hhalf)
      have hhalves : halves (.ofMantissaAndAccuracy m (.inexact .eq)) = m + 1 / 2 := rfl
      exact ⟨by linarith, by linarith, iff_of_false Bool.false_ne_true (by linarith)⟩
    · rw [compare_gt_iff_gt.2 hmore]
      have hside : 1 / 2 < (rest : ℚ) / den := by
        rw [div_lt_div_iff₀ two_pos hden, one_mul]
        exact_mod_cast (mul_comm 2 rest ▸ hmore)
      have hhalves : halves (.ofMantissaAndAccuracy m (.inexact .gt)) = m + 1 / 2 := rfl
      exact ⟨by linarith, by linarith, iff_of_true rfl (by linarith)⟩

theorem describes_fraction (num : Nat) {den : Nat} (hden : 0 < den) :
    Describes (.ofMantissaAndAccuracy (num / den) (accuracyOfFraction (num % den) den)) ((num : ℚ) / den) := by
  have hpos : (0 : ℚ) < den := by exact_mod_cast hden
  have hsum : (num : ℚ) = den * (num / den : Nat) + (num % den : Nat) := by exact_mod_cast (Nat.div_add_mod num den).symm
  have hquotient : (num : ℚ) / den = (num / den : Nat) + (num % den : Nat) / den := by
    rw [div_eq_iff hpos.ne', add_mul, div_mul_cancel₀ _ hpos.ne', mul_comm _ (den : ℚ)]
    exact hsum
  rw [hquotient]
  exact describes_rest _ (Nat.mod_lt num hden)

theorem withSign_div (s t : Sign) (p q : ℚ) : withSign (s / t) (p / q) = withSign s p / withSign t q := by
  cases s with
  | positive =>
    cases t with
    | positive => rfl
    | negative => exact (div_neg p).symm
  | negative =>
    cases t with
    | positive => exact (neg_div q p).symm
    | negative => exact (neg_div_neg_eq p q).symm

/-- A shift of the dividend gives the quotient its digits. -/
theorem quotient_digits {m d k : Nat} (hm : m ≠ 0) (hd : 0 < d) (h : 52 + (d.log2 + 1) ≤ m.log2 + k) :
    2 ^ 52 ≤ m * 2 ^ k / d := by
  rw [Nat.le_div_iff_mul_le hd]
  calc 2 ^ 52 * d ≤ 2 ^ 52 * 2 ^ (d.log2 + 1) := Nat.mul_le_mul_left _ Nat.lt_log2_self.le
    _ = 2 ^ (52 + (d.log2 + 1)) := (pow_add _ _ _).symm
    _ ≤ 2 ^ (m.log2 + k) := Nat.pow_le_pow_right (by norm_num) h
    _ = 2 ^ m.log2 * 2 ^ k := pow_add _ _ _
    _ ≤ m * 2 ^ k := Nat.mul_le_mul_right _ (Nat.log2_self_le hm)

theorem rounds_div (hx : x.isFinite = true) (hy : y.isFinite = true) (hne : value y ≠ 0) :
    Rounds (value x / value y) (x / y) := by
  have hquotient : x / y = Float.ofModel (Float.Model.pack (div .binary64 x.toModel.unpack y.toModel.unpack)) := rfl
  rw [value_eq hy, unpack_eq hy] at hne
  rw [hquotient, value_eq hx, value_eq hy, unpack_eq hx, unpack_eq hy]
  generalize magnitude x = b
  generalize magnitude y = c at hne
  rcases Nat.eq_zero_or_pos c.significand with hc | hc
  · rw [signed_of_zero hc] at hne
    exact absurd rfl hne
  · rcases Nat.eq_zero_or_pos b.significand with hb | hb
    · rw [signed_of_zero hb, unpackedValue_zero, zero_div, signed_of_pos hc]
      exact rounds_zero _
    · obtain ⟨place, hplace⟩ : ∃ place : ℤ, place = min (b.exponent - c.exponent)
          (max (b.significand.log2 + b.exponent - (c.significand.log2 + c.exponent) - 53) (-1074)) := ⟨_, rfl⟩
      obtain ⟨k, hk⟩ : ∃ k : Nat, b.exponent - c.exponent - place = k :=
        ⟨(b.exponent - c.exponent - place).toNat, by omega⟩
      have hcore : divCore .binary64 b.significand b.exponent c.significand c.exponent =
          (b.significand * 2 ^ k / c.significand, place,
            accuracyOfFraction (b.significand * 2 ^ k % c.significand) c.significand) := by
        have htarget : min (b.exponent - c.exponent) (Float.Model.Format.binary64.targetExponent
            (Float.Model.totalExponent b.significand b.exponent -
              Float.Model.totalExponent c.significand c.exponent)) = place := by
          rw [targetExponent_of, Float.Model.totalExponent, Float.Model.totalExponent, hplace]
          omega
        unfold divCore
        simp only [htarget, hk, Int.toNat_natCast, Nat.shiftLeft_eq]
      have hvalue : b.value / c.value / 2 ^ place = (b.significand * 2 ^ k : Nat) / (c.significand : Nat) := by
        have hcPos : (0 : ℚ) < c.significand := by exact_mod_cast hc
        have hexponent : b.exponent = c.exponent + place + k := by omega
        rw [Binary.value, Binary.value, hexponent, zpow_add₀ two_ne_zero, zpow_add₀ two_ne_zero, zpow_natCast]
        have hplacePos := two_zpow_pos place
        have hunit := two_zpow_pos c.exponent
        push_cast
        field_simp
      have hq := describes_fraction (b.significand * 2 ^ k) hc
      rw [← hvalue] at hq
      have hdigits : 2 ^ 52 ≤ b.significand * 2 ^ k / c.significand ∨ place ≤ -1074 := by
        by_cases hleast : place ≤ -1074
        · exact .inr hleast
        · left
          exact quotient_digits hb.ne' hc (by omega)
      have h := rounds_pack (signOf x / signOf y) hq hdigits
      rw [unpackedValue_signed, unpackedValue_signed, ← withSign_div, signed_of_pos hb, signed_of_pos hc]
      simp only [div, hcore]
      exact h

theorem root_le {b : Binary} (h : b.IsDouble) {root k : Nat} {place : ℤ} (hroot : root ^ 2 ≤ b.significand * 2 ^ k)
    (hk : b.exponent - 2 * place = k) : (root : ℚ) * 2 ^ place ≤ 2 ^ 512 := by
  have hroot' : (root : ℚ) ^ 2 ≤ b.significand * 2 ^ k := by exact_mod_cast hroot
  have hsignificand : (b.significand : ℚ) ≤ 2 ^ 53 := by exact_mod_cast h.significand_lt.le
  have hgreatest := h.le_greatest
  have hexponent : (2 : ℚ) ^ k * (2 ^ place) ^ 2 = 2 ^ b.exponent := by
    rw [← zpow_natCast, ← zpow_natCast, ← zpow_mul, ← zpow_add₀ two_ne_zero]
    congr 1
    push_cast
    omega
  have hlimit : (2 : ℚ) ^ 53 * 2 ^ (971 : ℤ) = (2 ^ 512) ^ 2 := by
    rw [← pow_mul, ← zpow_natCast, ← zpow_natCast, ← zpow_add₀ two_ne_zero]
    norm_num
  have hsquare : ((root : ℚ) * 2 ^ place) ^ 2 ≤ (2 ^ 512) ^ 2 := by
    calc ((root : ℚ) * 2 ^ place) ^ 2 = root ^ 2 * (2 ^ place) ^ 2 := mul_pow _ _ _
      _ ≤ b.significand * 2 ^ k * (2 ^ place) ^ 2 := mul_le_mul_of_nonneg_right hroot' (sq_nonneg _)
      _ = b.significand * 2 ^ b.exponent := by rw [mul_assoc, hexponent]
      _ ≤ 2 ^ 53 * 2 ^ (971 : ℤ) :=
        mul_le_mul hsignificand (zpow_le_zpow_right₀ one_le_two hgreatest) (two_zpow_pos _).le
          (pow_nonneg zero_le_two _)
      _ = (2 ^ 512) ^ 2 := hlimit
  exact le_of_sq_le_sq hsquare (pow_nonneg zero_le_two _)

/-- A root lies far below the greatest double. -/
theorem isFinite_sqrt_signed {b : Binary} (h : b.IsDouble) :
    (Float.ofModel (Float.Model.pack (sqrt .binary64 (signed .positive b)))).isFinite = true := by
  rcases Nat.eq_zero_or_pos b.significand with hb | hb
  · rw [signed_of_zero hb]
    rfl
  · have hgreatest := h.le_greatest
    obtain ⟨place, hplace⟩ : ∃ place : ℤ, place = min (b.exponent / 2)
        (max ((b.significand.log2 + 1 + b.exponent + 1) / 2 - 53) (-1074)) := ⟨_, rfl⟩
    obtain ⟨k, hk⟩ : ∃ k : Nat, b.exponent - 2 * place = k := ⟨(b.exponent - 2 * place).toNat, by omega⟩
    obtain ⟨root, hroot⟩ : ∃ root : Nat, root = (b.significand * 2 ^ k).sqrt := ⟨_, rfl⟩
    obtain ⟨accuracy, hcore⟩ : ∃ accuracy,
        sqrtCore .binary64 b.significand b.exponent = (root, place, accuracy) := by
      have htarget : min (b.exponent.ediv 2) (Float.Model.Format.binary64.targetExponent
          ((Float.Model.totalExponent b.significand b.exponent + 1).ediv 2)) = place := hplace.symm
      unfold sqrtCore
      simp only [htarget, hk, Int.toNat_natCast, Nat.shiftLeft_eq, ← hroot]
      exact ⟨_, rfl⟩
    have hplacePos := two_zpow_pos place
    -- Any rational that is rounded as the real root will do, since it lies between the two naturals around it.
    obtain ⟨near, hnear⟩ := exists_describes root accuracy
    have hlow := hnear.below
    have hhigh := hnear.above
    rw [mantissa_of] at hlow hhigh
    have hq : Describes (.ofMantissaAndAccuracy root accuracy) (near * 2 ^ place / 2 ^ place) := by
      rwa [mul_div_cancel_right₀ _ hplacePos.ne']
    have hdigits : 2 ^ 52 ≤ root ∨ place ≤ -1074 := by
      by_cases hsmall : place ≤ -1074
      · exact .inr hsmall
      · left
        have hlog : 104 ≤ b.significand.log2 + k := by omega
        rw [hroot, Nat.le_sqrt, ← pow_add]
        calc 2 ^ (52 + 52) ≤ 2 ^ (b.significand.log2 + k) := Nat.pow_le_pow_right (by norm_num) hlog
          _ = 2 ^ b.significand.log2 * 2 ^ k := pow_add _ _ _
          _ ≤ b.significand * 2 ^ k := Nat.mul_le_mul_right _ (Nat.log2_self_le hb.ne')
    have hnonneg : (0 : ℚ) ≤ near * 2 ^ place := mul_nonneg ((Nat.cast_nonneg _).trans hlow) hplacePos.le
    have hbound : near * 2 ^ place ≤ 2 ^ 513 := by
      have hrootLe := root_le h (show root ^ 2 ≤ b.significand * 2 ^ k by rw [hroot]; exact Nat.sqrt_le' _) hk
      have hplaceLe : (2 : ℚ) ^ place ≤ 2 ^ 512 := by
        rw [← zpow_natCast]
        exact zpow_le_zpow_right₀ one_le_two (by push_cast; omega)
      have hsum : (2 : ℚ) ^ 513 = 2 ^ 512 + 2 ^ 512 := by rw [pow_succ, mul_two]
      calc near * 2 ^ place ≤ (root + 1) * 2 ^ place := mul_le_mul_of_nonneg_right hhigh.le hplacePos.le
        _ = root * 2 ^ place + 2 ^ place := by rw [add_mul, one_mul]
        _ ≤ 2 ^ 512 + 2 ^ 512 := add_le_add hrootLe hplaceLe
        _ = 2 ^ 513 := hsum.symm
    have hrounds := rounds_pack .positive hq hdigits
    rw [signed_of_pos hb]
    simp only [sqrt, hcore]
    exact (hrounds.abs_value_le (representable_two_pow (by norm_num)) ((abs_of_nonneg hnonneg).trans_le hbound)).1

theorem unpack_zero : (0.0 : Float).toModel.unpack = .zero .positive := by
  have hfinite : (0.0 : Float).isFinite = true := by decide +kernel
  have hnegative : isNegative 0.0 = false := by decide +kernel
  have hmagnitude : magnitude 0.0 = ⟨0, -1074⟩ := by decide +kernel
  rw [unpack_eq hfinite, hmagnitude, signOf, hnegative]
  rfl

theorem isFinite_sqrt (hx : x.isFinite = true) (hle : ¬ x < 0.0) : x.sqrt.isFinite = true := by
  have hroot : x.sqrt = Float.ofModel (Float.Model.pack (sqrt .binary64 x.toModel.unpack)) := rfl
  have hlt : x < 0.0 ↔ x.toModel.unpack.lt (0.0 : Float).toModel.unpack = true := decide_eq_true_iff
  have hdouble := isDouble_magnitude hx
  rw [hlt, unpack_zero, unpack_eq hx] at hle
  rw [hroot, unpack_eq hx]
  cases hsign : signOf x with
  | positive => exact isFinite_sqrt_signed hdouble
  | negative =>
    rcases Nat.eq_zero_or_pos (magnitude x).significand with hb | hb
    · rw [signed_of_zero hb]
      rfl
    · rw [hsign, signed_of_pos hb] at hle
      exact absurd rfl hle

/-- Of two magnitudes the one of the lower place is less. -/
theorem value_lt_of_place {b c : Binary} (hb : b.IsDouble) (hc : c.IsDouble)
    (h : b.exponent < c.exponent ∨ b.exponent = c.exponent ∧ b.significand < c.significand) : b.value < c.value := by
  rcases h with hlt | ⟨heq, hlt⟩
  · have hfull : (2 : ℚ) ^ 52 ≤ c.significand := by
      have hleast := hb.least_le
      exact_mod_cast hc.full (by omega)
    calc b.value < 2 ^ 53 * 2 ^ b.exponent := hb.value_lt
      _ = 2 ^ 52 * 2 ^ (b.exponent + 1) := by
        rw [zpow_add₀ two_ne_zero]
        ring
      _ ≤ c.significand * 2 ^ c.exponent :=
        mul_le_mul hfull (zpow_le_zpow_right₀ one_le_two (by omega)) (two_zpow_pos _).le (Nat.cast_nonneg _)
  · rw [Binary.value, Binary.value, heq]
    exact mul_lt_mul_of_pos_right (by exact_mod_cast hlt) (two_zpow_pos _)

theorem value_le_of_place {b c : Binary} (hb : b.IsDouble) (hc : c.IsDouble)
    (h : b.exponent < c.exponent ∨ b.exponent = c.exponent ∧ b.significand ≤ c.significand) : b.value ≤ c.value := by
  rcases h with hlt | ⟨heq, hle⟩
  · exact (value_lt_of_place hb hc (.inl hlt)).le
  · rcases Nat.lt_or_eq_of_le hle with hlt | hsame
    · exact (value_lt_of_place hb hc (.inr ⟨heq, hlt⟩)).le
    · rw [Binary.value, Binary.value, heq, hsame]

theorem value_of_zero {b : Binary} (h : b.significand = 0) : b.value = 0 := by
  rw [Binary.value, h, Nat.cast_zero, zero_mul]

/-- The order of finite doubles is that of their values. -/
theorem value_le (hx : x.isFinite = true) (hy : y.isFinite = true) (h : x ≤ y) : value x ≤ value y := by
  have hdoubleX := isDouble_magnitude hx
  have hdoubleY := isDouble_magnitude hy
  rw [le_iff_place (isNaN_of_isFinite hx) (isNaN_of_isFinite hy), unpack_eq hx, unpack_eq hy] at h
  rw [value_eq hx, value_eq hy, unpack_eq hx, unpack_eq hy, unpackedValue_signed, unpackedValue_signed]
  generalize magnitude x = b at *
  generalize magnitude y = c at *
  have hb := value_nonneg b
  have hc := value_nonneg c
  cases hsX : signOf x with
  | negative =>
    cases hsY : signOf y with
    | positive =>
      rw [withSign, withSign]
      linarith
    | negative =>
      rw [hsX, hsY] at h
      rw [withSign, withSign, neg_le_neg_iff]
      rcases Nat.eq_zero_or_pos c.significand with hzero | hpos
      · rw [value_of_zero hzero]
        exact hb
      · rcases Nat.eq_zero_or_pos b.significand with hzero' | hpos'
        · rw [signed_of_zero hzero', signed_of_pos hpos] at h
          simp [place, Prod.Lex.le_iff] at h
        · rw [signed_of_pos hpos', signed_of_pos hpos] at h
          apply value_le_of_place hdoubleY hdoubleX
          simp only [place, Prod.Lex.le_iff, ofLex_toLex] at h
          omega
  | positive =>
    rw [hsX] at h
    rcases Nat.eq_zero_or_pos b.significand with hzero | hpos
    · rw [value_of_zero hzero]
      cases hsY : signOf y with
      | positive =>
        rw [withSign, withSign]
        exact hc
      | negative =>
        rcases Nat.eq_zero_or_pos c.significand with hzero' | hpos'
        · rw [value_of_zero hzero', withSign, withSign, neg_zero]
        · rw [hsY, signed_of_zero hzero, signed_of_pos hpos'] at h
          simp [place, Prod.Lex.le_iff] at h
    · rcases Nat.eq_zero_or_pos c.significand with hzero' | hpos'
      · rw [signed_of_pos hpos, signed_of_zero hzero'] at h
        simp [place, Prod.Lex.le_iff] at h
      · rw [signed_of_pos hpos, signed_of_pos hpos'] at h
        cases hsY : signOf y with
        | positive =>
          rw [hsY] at h
          rw [withSign, withSign]
          apply value_le_of_place hdoubleX hdoubleY
          simp only [place, Prod.Lex.le_iff, ofLex_toLex] at h
          omega
        | negative =>
          rw [hsY] at h
          simp [place, Prod.Lex.le_iff] at h

theorem value_one : (1.0 : Float).isFinite = true ∧ value 1.0 = 1 := by
  have hfinite : (1.0 : Float).isFinite = true := by decide +kernel
  have hnegative : isNegative 1.0 = false := by decide +kernel
  have hmagnitude : magnitude 1.0 = ⟨2 ^ 52, -52⟩ := by decide +kernel
  refine ⟨hfinite, ?_⟩
  rw [value, hnegative, hmagnitude, Binary.value]
  norm_num

/-- Naturals of 53 bits are doubles. -/
theorem value_ofNat {n : Nat} (hn : n < 2 ^ 53) : (Float.ofNat n).isFinite = true ∧ value (Float.ofNat n) = n := by
  have hsmall : n < 2 ^ 53 ∧ 0 ≤ 22 := ⟨hn, by norm_num⟩
  have hone : Float.exactlyRepresentablePowersOfTen[0] = 1.0 := by decide +kernel
  have hproduct : Float.ofNat n = n.toUInt64.toFloat * 1.0 := by
    rw [← hone]
    exact dif_pos hsmall
  have hword : n.toUInt64.toNat = n := by
    rw [Nat.toUInt64, UInt64.toNat_ofNat']
    omega
  have hrounds := rounds_normalize n 0
  have hfloat : n.toUInt64.toFloat = Float.ofModel (Float.Model.pack (normalize .binary64 n 0 .positive)) := by
    rw [← congrArg (fun k : Nat => Float.ofModel (Float.Model.pack (UnpackedFloat.normalize .binary64 k 0 .positive)))
      hword]
    rfl
  have hrepresentable := representable_natCast hn.le
  rw [← hfloat, zpow_zero, mul_one, Int.cast_natCast] at hrounds
  obtain ⟨hfinite, hvalue⟩ := hrounds.exact hrepresentable
  have htimes := rounds_mul hfinite value_one.1
  rw [value_one.2, hvalue, mul_one, ← hproduct] at htimes
  exact htimes.exact hrepresentable

/-- A magnitude that is cut off to a natural. -/
theorem roundToInt_bounds (b : Binary) : ∃ k : Nat, roundToInt .positive b.significand b.exponent = k ∧
    (k : ℚ) ≤ b.value ∧ b.value < k + 1 := by
  obtain ⟨up, hup⟩ : ∃ up : Nat, up = (b.exponent - 0).toNat := ⟨_, rfl⟩
  obtain ⟨down, hdown⟩ : ∃ down : Nat, down = (0 - (b.exponent - up)).toNat := ⟨_, rfl⟩
  have hvalue : ((b.significand * 2 ^ up : Nat) : ℚ) / 2 ^ down = b.value := by
    have hexponent : (2 : ℚ) ^ b.exponent * 2 ^ down = 2 ^ up := by
      rw [← zpow_natCast, ← zpow_natCast, ← zpow_add₀ two_ne_zero]
      congr 1
      omega
    rw [div_eq_iff (pow_pos two_pos _).ne', Binary.value, mul_assoc, hexponent]
    push_cast
    rfl
  have hcut := (describes_exact (b.significand * 2 ^ up)).shiftRight down
  rw [hvalue] at hcut
  refine ⟨(ExtendedMantissa.ofMantissaAndAccuracy (b.significand * 2 ^ up) .exact >>> down).mantissa, ?_, hcut.below,
    hcut.above⟩
  unfold roundToInt decreaseExponent shiftToExponent
  simp only [← hup, ← hdown, Nat.shiftLeft_eq]
  rfl

/-- A double that is cut off to a natural. -/
theorem toUInt64_bounds (hx : x.isFinite = true) (hnonneg : 0 ≤ value x) (hlt : value x < 2 ^ 64) :
    (x.toUInt64.toNat : ℚ) ≤ value x ∧ value x < x.toUInt64.toNat + 1 := by
  obtain ⟨k, hk⟩ : ∃ k : Nat, k = (x.toModel.unpack.toInt 0 (UInt64.size - 1)).toNat := ⟨_, rfl⟩
  have hcut : (k : ℚ) ≤ value x ∧ value x < k + 1 := by
    rw [unpack_eq hx] at hk
    rw [value_eq hx, unpack_eq hx] at hnonneg ⊢
    rcases Nat.eq_zero_or_pos (magnitude x).significand with hzero | hpos
    · have hk' : k = 0 := by rw [hk, signed_of_zero hzero]; rfl
      rw [hk', signed_of_zero hzero, unpackedValue_zero, Nat.cast_zero, zero_add]
      exact ⟨le_rfl, zero_lt_one⟩
    · cases hsign : signOf x with
      | negative =>
        have hvalue : 0 < (magnitude x).value := mul_pos (by exact_mod_cast hpos) (two_zpow_pos _)
        rw [hsign, unpackedValue_signed, withSign] at hnonneg
        linarith
      | positive =>
        obtain ⟨cut, hcut, hbelow, habove⟩ := roundToInt_bounds (magnitude x)
        have hk' : k = cut := by
          rw [hk, hsign, signed_of_pos hpos, toInt, hcut, Int.toNat_natCast]
        rw [hk', unpackedValue_signed, withSign]
        exact ⟨hbelow, habove⟩
  have hword : k < UInt64.size := by
    have hlt' : (k : ℚ) < (2 ^ 64 : Nat) := by
      push_cast
      exact hcut.1.trans_lt hlt
    exact_mod_cast hlt'
  have hnat : x.toUInt64.toNat = k := by
    have heq : x.toUInt64 = UInt64.ofNatClamp k := by rw [hk]; rfl
    rw [heq, UInt64.ofNatClamp, dif_pos hword]
    rfl
  rw [hnat]
  exact hcut

end Operations

end WorkloadAtlas.Number
