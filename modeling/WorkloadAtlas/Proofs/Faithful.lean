import WorkloadAtlas.Proofs.Nearest
/-!
Faithful rounding. What an operation on doubles is rounded to never passes a value that a double can hold: bounds of
the exact result that are such values are bounds of the rounded one, and below the greatest double nothing becomes
infinite. A finite result is the nearest double.
-/

namespace WorkloadAtlas.Number

open Float.Model (UnpackedFloat)
open Float.Model.UnpackedFloat

/-- The least power of two beyond all doubles. -/
def overflow : ℚ :=
  2 ^ 1024

theorem overflow_eq (k : Nat) : overflow = 2 ^ k * 2 ^ (1024 - k : ℤ) := by
  rw [overflow, ← zpow_natCast, ← zpow_natCast, ← zpow_add₀ two_ne_zero]
  congr 1
  push_cast
  ring

/-- The middle between the greatest double and the next power of two. It is rounded to an infinity, and what is less is
not. -/
def threshold : ℚ :=
  overflow - 2 ^ (970 : ℤ)

theorem threshold_lt_overflow : threshold < overflow :=
  sub_lt_self _ (two_zpow_pos _)

/-- A value that a double can hold. -/
def Representable (v : ℚ) : Prop :=
  |v| < overflow ∧ ∃ k j : ℤ, v = k * 2 ^ j ∧ |k| ≤ 2 ^ 53 ∧ -1074 ≤ j

theorem Representable.neg {v : ℚ} (h : Representable v) : Representable (-v) := by
  obtain ⟨hlt, k, j, rfl, hk, hj⟩ := h
  refine ⟨by rwa [abs_neg], -k, j, ?_, by rwa [abs_neg], hj⟩
  push_cast
  ring

theorem representable_of_nat {n j : Nat} (hn : n ≤ 2 ^ 53) (hlt : (n : ℚ) * 2 ^ j < overflow) :
    Representable (n * 2 ^ j) := by
  have hnonneg : (0 : ℚ) ≤ n * 2 ^ j := mul_nonneg (Nat.cast_nonneg _) (pow_nonneg zero_le_two _)
  refine ⟨(abs_of_nonneg hnonneg).trans_lt hlt, n, j, by rw [Int.cast_natCast, zpow_natCast], ?_, by omega⟩
  rw [abs_of_nonneg (by omega)]
  exact_mod_cast hn

theorem two_pow_lt_overflow {j : Nat} (hj : j < 1024) : (2 : ℚ) ^ j < overflow :=
  pow_lt_pow_right₀ one_lt_two hj

theorem representable_natCast {n : Nat} (hn : n ≤ 2 ^ 53) : Representable n := by
  have hle : (n : ℚ) ≤ 2 ^ 53 := by exact_mod_cast hn
  have hlt : (n : ℚ) * 2 ^ 0 < overflow := by
    rw [pow_zero, mul_one]
    exact hle.trans_lt (two_pow_lt_overflow (by norm_num))
  have h := representable_of_nat hn hlt
  rwa [pow_zero, mul_one] at h

theorem representable_intCast {n : ℤ} (hn : |n| ≤ 2 ^ 53) : Representable n := by
  have hle : |(n : ℚ)| ≤ 2 ^ 53 := by exact_mod_cast hn
  exact ⟨hle.trans_lt (two_pow_lt_overflow (by norm_num)), n, 0, by rw [zpow_zero, mul_one], hn, by norm_num⟩

/-- Doubling changes the exponent only. -/
theorem Representable.double {v : ℚ} (h : Representable v) (hlt : |2 * v| < overflow) : Representable (2 * v) := by
  obtain ⟨-, k, j, hv, hk, hj⟩ := h
  refine ⟨hlt, k, j + 1, ?_, hk, by omega⟩
  rw [hv, zpow_add_one₀ two_ne_zero]
  ring

theorem representable_zero : Representable 0 := by
  have h := representable_natCast (n := 0) (Nat.zero_le _)
  rwa [Nat.cast_zero] at h

theorem representable_one : Representable 1 := by
  have h := representable_natCast (n := 1) (by norm_num)
  rwa [Nat.cast_one] at h

theorem representable_two_pow {j : Nat} (hj : j < 1024) : Representable (2 ^ j) := by
  have hlt : ((1 : Nat) : ℚ) * 2 ^ j < overflow := by
    rw [Nat.cast_one, one_mul]
    exact two_pow_lt_overflow hj
  have h := representable_of_nat (by norm_num) hlt
  rwa [Nat.cast_one, one_mul] at h

/-- The greatest double. -/
theorem Binary.IsDouble.value_le {b : Binary} (h : b.IsDouble) : b.value ≤ overflow - 2 ^ (971 : ℤ) := by
  have hsignificand : (b.significand : ℚ) ≤ 2 ^ 53 - 1 := by
    have hle : b.significand + 1 ≤ 2 ^ 53 := h.significand_lt
    have hcast : (b.significand : ℚ) + 1 ≤ 2 ^ 53 := by exact_mod_cast hle
    linarith
  have hexponent : (2 : ℚ) ^ b.exponent ≤ 2 ^ (971 : ℤ) := zpow_le_zpow_right₀ one_le_two h.le_greatest
  calc b.value ≤ (2 ^ 53 - 1) * 2 ^ (971 : ℤ) :=
        mul_le_mul hsignificand hexponent (two_zpow_pos _).le (by norm_num)
    _ = overflow - 2 ^ (971 : ℤ) := by
      rw [sub_mul, one_mul]
      exact congrArg (· - _) (overflow_eq 53).symm

theorem Binary.IsDouble.lt_threshold {b : Binary} (h : b.IsDouble) : b.value < threshold := by
  have hpower : (2 : ℚ) ^ (970 : ℤ) < 2 ^ (971 : ℤ) := zpow_lt_zpow_right₀ one_lt_two (by norm_num)
  exact h.value_le.trans_lt (sub_lt_sub_left hpower _)

/-- A double that a rational is rounded to: both lie between the same representable values, and if the double is finite
no other one is nearer. It is infinite if the rational lies too far out. What is positive keeps its sign even where
nothing else is left of it. -/
structure Rounds (q : ℚ) (x : Float) : Prop where
  between : ∀ l u, Representable l → Representable u → l ≤ q → q ≤ u → x.isFinite = true ∧ l ≤ value x ∧ value x ≤ u
  nearest : x.isFinite = true → IsNearest q x
  within : x.isFinite = true → |q| < threshold
  beyond : x.isFinite = false → threshold ≤ q ∧ x.toModel.unpack = .infinity .positive ∨
    q ≤ -threshold ∧ x.toModel.unpack = .infinity .negative
  positive : x.isFinite = true → 0 < q → isNegative x = false

namespace Rounds

variable {q : ℚ} {x : Float}

theorem of_value (hx : x.isFinite = true) : Rounds (value x) x := by
  refine ⟨fun _ _ _ _ hl hu => ⟨hx, hl, hu⟩, fun _ => ⟨hx, ?_, ?_⟩, fun _ => ?_, fun h => ?_, fun _ h => ?_⟩
  · intro y _
    rw [sub_self, abs_zero]
    exact abs_nonneg _
  · intro y _ hne heq
    rw [sub_self, abs_zero] at heq
    exact absurd (sub_eq_zero.1 (abs_eq_zero.1 heq.symm)).symm hne
  · have hnonneg := value_nonneg (magnitude x)
    have hlt := (isDouble_magnitude hx).lt_threshold
    unfold value
    split <;> rw [abs_lt] <;> constructor <;> linarith
  · rw [hx] at h
    cases h
  · by_contra hnegative
    rw [value, if_pos (Bool.eq_true_of_not_eq_false hnegative)] at h
    linarith [value_nonneg (magnitude x)]

theorem abs_value_le (h : Rounds q x) {u : ℚ} (hu : Representable u) (hq : |q| ≤ u) :
    x.isFinite = true ∧ |value x| ≤ u := by
  obtain ⟨hfinite, hlow, hhigh⟩ := h.between (-u) u hu.neg hu (abs_le.1 hq).1 (abs_le.1 hq).2
  exact ⟨hfinite, abs_le.2 ⟨hlow, hhigh⟩⟩

theorem exact (h : Rounds q x) (hq : Representable q) : x.isFinite = true ∧ value x = q := by
  obtain ⟨hfinite, hlow, hhigh⟩ := h.between q q hq hq le_rfl le_rfl
  exact ⟨hfinite, hhigh.antisymm hlow⟩

end Rounds

/-- A mantissa and the half behind it, if the round bit is set. -/
def halves (em : ExtendedMantissa) : ℚ :=
  em.mantissa + if em.roundBit then 1 / 2 else 0

/-- A rational in units of a mantissa's last place. The round bit says whether it reaches the half behind the mantissa,
and the sticky bit whether anything is left over behind that. -/
structure Describes (em : ExtendedMantissa) (q : ℚ) : Prop where
  reached : halves em ≤ q
  short : q < halves em + 1 / 2
  sticky : em.stickyBit = true ↔ halves em < q

namespace Describes

variable {em : ExtendedMantissa} {q : ℚ}

theorem below (h : Describes em q) : (em.mantissa : ℚ) ≤ q := by
  have hreached := h.reached
  unfold halves at hreached
  split at hreached <;> linarith

theorem above (h : Describes em q) : q < em.mantissa + 1 := by
  have hshort := h.short
  unfold halves at hshort
  split at hshort <;> linarith

theorem lt_iff (h : Describes em q) : (em.mantissa : ℚ) < q ↔ em.roundBit = true ∨ em.stickyBit = true := by
  have hreached := h.reached
  rw [h.sticky]
  cases hround : em.roundBit with
  | false => simp [halves, hround]
  | true =>
    simp only [halves, hround, ↓reduceIte] at hreached
    exact iff_of_true (by linarith) (.inl rfl)

theorem halves_shiftRightOne (em : ExtendedMantissa) : halves em.shiftRightOne = em.mantissa / 2 := by
  have hsum : ((2 * (em.mantissa / 2) + em.mantissa % 2 : Nat) : ℚ) = em.mantissa := by rw [Nat.div_add_mod]
  push_cast at hsum
  change ((em.mantissa / 2 : Nat) : ℚ) + (if em.mantissa % 2 != 0 then 1 / 2 else 0) = _
  rcases Nat.mod_two_eq_zero_or_one em.mantissa with hmod | hmod
  · rw [hmod, Nat.cast_zero] at hsum
    simp only [hmod, bne_self_eq_false, Bool.false_eq_true, ↓reduceIte]
    linarith
  · rw [hmod, Nat.cast_one] at hsum
    simp only [hmod, one_ne_zero, bne_iff_ne, ne_eq, not_false_eq_true, ↓reduceIte]
    linarith

theorem shiftRightOne (h : Describes em q) : Describes em.shiftRightOne (q / 2) := by
  have hbelow := h.below
  have habove := h.above
  refine ⟨?_, ?_, ?_⟩
  · rw [halves_shiftRightOne]
    linarith
  · rw [halves_shiftRightOne]
    linarith
  · rw [halves_shiftRightOne, div_lt_div_iff_of_pos_right two_pos, h.lt_iff, ← Bool.or_eq_true]
    rfl

theorem shiftRight (h : Describes em q) (n : Nat) : Describes (em >>> n) (q / 2 ^ n) := by
  change Describes (n.repeat ExtendedMantissa.shiftRightOne em) _
  induction n with
  | zero => rwa [pow_zero, div_one]
  | succ n ih =>
    rw [pow_succ, ← div_div]
    exact ih.shiftRightOne

/-- A half is told from what lies beside it, so the mantissa is rounded to the nearest natural. -/
theorem isRounded (h : Describes em q) : IsRounded q em.roundedMantissa := by
  obtain ⟨hreached, hshort, hsticky⟩ := h
  obtain ⟨mantissa, roundBit, stickyBit⟩ := em
  cases roundBit with
  | false =>
    simp only [halves, Bool.false_eq_true, ↓reduceIte, add_zero] at hreached hshort
    have heq : ExtendedMantissa.roundedMantissa ⟨mantissa, false, stickyBit⟩ = mantissa := by
      cases stickyBit <;> rfl
    rw [heq]
    refine ⟨by linarith, by linarith, ?_⟩
    rintro (htie | htie) <;> linarith
  | true =>
    simp only [halves, ↓reduceIte] at hreached hshort hsticky
    cases stickyBit with
    | false =>
      have hq : q = mantissa + 1 / 2 := by
        by_contra hne
        exact Bool.false_ne_true (hsticky.2 (lt_of_le_of_ne hreached (Ne.symm hne)))
      have heq : ExtendedMantissa.roundedMantissa ⟨mantissa, true, false⟩ = mantissa + mantissa % 2 := rfl
      rw [heq, hq]
      rcases Nat.mod_two_eq_zero_or_one mantissa with hmod | hmod
      · rw [hmod, add_zero]
        exact ⟨by linarith, le_rfl, fun _ => hmod⟩
      · rw [hmod]
        refine ⟨?_, ?_, fun _ => by omega⟩
        · rw [Nat.cast_add_one]
          linarith
        · rw [Nat.cast_add_one]
          linarith
    | true =>
      have hlt := hsticky.1 rfl
      have heq : ExtendedMantissa.roundedMantissa ⟨mantissa, true, true⟩ = mantissa + 1 := rfl
      have hcast : ((mantissa + 1 : Nat) : ℚ) = mantissa + 1 := Nat.cast_add_one mantissa
      rw [heq]
      refine ⟨by linarith, by linarith, ?_⟩
      rintro (htie | htie) <;> (rw [hcast] at htie; linarith)

end Describes

theorem describes_exact (m : Nat) : Describes (.ofMantissaAndAccuracy m .exact) m := by
  have hhalves : halves (.ofMantissaAndAccuracy m .exact) = m := add_zero _
  exact ⟨hhalves.le, by linarith, iff_of_false Bool.false_ne_true (by linarith)⟩

/-- Bits that say how a rational is rounded say so of some rational. -/
theorem exists_describes (m : Nat) (accuracy : Accuracy) :
    ∃ q, Describes (.ofMantissaAndAccuracy m accuracy) q := by
  refine ⟨halves (.ofMantissaAndAccuracy m accuracy) +
    if (ExtendedMantissa.ofMantissaAndAccuracy m accuracy).stickyBit then 1 / 4 else 0, ?_, ?_, ?_⟩
  · split <;> linarith
  · split <;> linarith
  · split
    · next hsticky => exact iff_of_true hsticky (by linarith)
    · next hsticky => exact iff_of_false hsticky (by linarith)

theorem targetExponent_of (total : ℤ) :
    Float.Model.Format.binary64.targetExponent total = max (total - 53) (-1074) := rfl

theorem targetExponent_eq (m : Nat) (e : ℤ) :
    Float.Model.Format.binary64.targetExponent (Float.Model.totalExponent m e) = max (m.log2 + e - 52) (-1074) := by
  rw [targetExponent_of, Float.Model.totalExponent]
  omega

/-- A rounded mantissa takes at most one bit too many, and then it is a power of two. -/
def carried (r : Nat) (t : ℤ) : Binary :=
  if r = 2 ^ 53 then ⟨2 ^ 52, t + 1⟩ else ⟨r, t⟩

theorem value_carried (r : Nat) (t : ℤ) : (carried r t).value = r * 2 ^ t := by
  unfold carried
  split
  · next hfull =>
    rw [hfull, Binary.value, zpow_add₀ two_ne_zero]
    push_cast
    ring
  · rfl

theorem parity_carried (r : Nat) (t : ℤ) : (carried r t).significand % 2 = r % 2 := by
  unfold carried
  split
  · next hfull => rw [hfull]; norm_num
  · rfl

theorem shift_rounded {r : Nat} {t : ℤ} (hr : r ≤ 2 ^ 53) (ht : -1074 ≤ t) :
    (shiftToTargetExponent .binary64 r t .exact).1.mantissa = (carried r t).significand ∧
      (shiftToTargetExponent .binary64 r t .exact).2 = (carried r t).exponent := by
  unfold shiftToTargetExponent shiftToExponent carried
  rw [targetExponent_eq]
  split
  · next hfull =>
    have hlog : r.log2 = 53 := by rw [hfull, Nat.log2_two_pow]
    have hshift : (max ((r.log2 : ℤ) + t - 52) (-1074) - t).toNat = 1 := by omega
    simp only [hshift]
    rw [hfull]
    exact ⟨rfl, rfl⟩
  · next hfull =>
    have hlog : r.log2 ≤ 52 := by
      rcases Nat.eq_zero_or_pos r with rfl | hpos
      · rw [Nat.log2_zero]
        omega
      · have := (Nat.log2_lt hpos.ne').2 (show r < 2 ^ 53 by omega)
        omega
    have hshift : (max ((r.log2 : ℤ) + t - 52) (-1074) - t).toNat = 0 := by omega
    simp only [hshift, Nat.cast_zero, add_zero]
    exact ⟨rfl, trivial⟩

/-- A double or something greater than all of them. -/
structure Binary.IsCanonical (b : Binary) : Prop where
  significand_lt : b.significand < 2 ^ 53
  least_le : -1074 ≤ b.exponent
  full : -1074 < b.exponent → 2 ^ 52 ≤ b.significand

theorem Binary.IsCanonical.isDouble {b : Binary} (h : b.IsCanonical) (hlt : b.value < overflow) : b.IsDouble := by
  refine ⟨h.significand_lt, h.least_le, ?_, h.full⟩
  by_contra hlarge
  have hfull : (2 : ℚ) ^ 52 ≤ b.significand := by exact_mod_cast h.full (by omega)
  have hpower : (2 : ℚ) ^ (972 : ℤ) ≤ 2 ^ b.exponent := zpow_le_zpow_right₀ one_le_two (by omega)
  have hge : (2 : ℚ) ^ 52 * 2 ^ (972 : ℤ) ≤ b.value := by
    rw [Binary.value]
    exact mul_le_mul hfull hpower (two_zpow_pos _).le (Nat.cast_nonneg _)
  have hsum : (2 : ℚ) ^ 52 * 2 ^ (972 : ℤ) = overflow := by
    rw [overflow, ← zpow_natCast, ← zpow_natCast, ← zpow_add₀ two_ne_zero]
    norm_num
  rw [hsum] at hge
  exact absurd hlt (not_lt.2 hge)

/-- An unpacked double of a magnitude. -/
def signed (s : Sign) (b : Binary) : UnpackedFloat :=
  if h : b.significand = 0 then .zero s else .finite s b.significand b.exponent (Nat.pos_of_ne_zero h)

section Round

variable {m : Nat} {e : ℤ} {accuracy : Accuracy} {q : ℚ}

theorem mantissa_of (m : Nat) (accuracy : Accuracy) :
    (ExtendedMantissa.ofMantissaAndAccuracy m accuracy).mantissa = m := by
  cases accuracy with
  | exact => rfl
  | inexact order => cases order <;> rfl

theorem round_eq (s : Sign) {n : Nat} (hn : max ((m.log2 : ℤ) + e - 52) (-1074) = e + n)
    (hr : (ExtendedMantissa.ofMantissaAndAccuracy m accuracy >>> n).roundedMantissa ≤ 2 ^ 53) :
    roundWithAccuracy .binary64 s m e accuracy =
      signed s (carried (ExtendedMantissa.ofMantissaAndAccuracy m accuracy >>> n).roundedMantissa (e + n)) := by
  have hfirst : shiftToTargetExponent .binary64 m e accuracy =
      (ExtendedMantissa.ofMantissaAndAccuracy m accuracy >>> n, e + n) := by
    have hshift : (e + n - e).toNat = n := by omega
    rw [shiftToTargetExponent, targetExponent_eq, hn, shiftToExponent, hshift]
  obtain ⟨hmantissa, hexponent⟩ := shift_rounded hr (show -1074 ≤ e + n by omega)
  unfold roundWithAccuracy signed
  simp only [hfirst, hmantissa, hexponent]

/-- Rounding to units of the last place passes no representable value. -/
theorem between_of_rounded {r : Nat} {t : ℤ} (hround : ∀ k : ℤ, ((k : ℚ) ≤ q / 2 ^ t → k ≤ r) ∧ (q / 2 ^ t ≤ k → r ≤ k))
    (hlow : -1074 < t → 2 ^ 52 ≤ q / 2 ^ t) (hfull : -1074 < t → 2 ^ 52 ≤ r) {v : ℚ} (hv : Representable v) :
    (v ≤ q → v ≤ r * 2 ^ t) ∧ (q ≤ v → r * 2 ^ t ≤ v) := by
  obtain ⟨-, k, j, rfl, hk, hj⟩ := hv
  have hunit := two_zpow_pos t
  by_cases hplace : t ≤ j
  · obtain ⟨i, hi⟩ : ∃ i : ℤ, (k : ℚ) * 2 ^ j = i * 2 ^ t := by
      refine ⟨k * 2 ^ (j - t).toNat, ?_⟩
      push_cast
      rw [mul_assoc, ← zpow_natCast, ← zpow_add₀ two_ne_zero]
      congr 2
      omega
    obtain ⟨hup, hdown⟩ := hround i
    rw [hi]
    constructor
    · intro h
      have hle := hup ((le_div_iff₀ hunit).2 h)
      exact mul_le_mul_of_nonneg_right (by exact_mod_cast hle) hunit.le
    · intro h
      have hle := hdown ((div_le_iff₀ hunit).2 h)
      exact mul_le_mul_of_nonneg_right (by exact_mod_cast hle) hunit.le
  · -- A finer value has fewer binades than the rational, so at most it is the power of two below it.
    have hnormal : -1074 < t := by omega
    have hq : 2 ^ 52 * 2 ^ t ≤ q := (le_div_iff₀ hunit).1 (hlow hnormal)
    have hr : (2 : ℚ) ^ 52 * 2 ^ t ≤ r * 2 ^ t :=
      mul_le_mul_of_nonneg_right (by exact_mod_cast hfull hnormal) hunit.le
    have hv : (k : ℚ) * 2 ^ j ≤ 2 ^ 52 * 2 ^ t := by
      have hk' : (k : ℚ) ≤ 2 ^ 53 := by exact_mod_cast (le_abs_self k).trans hk
      calc (k : ℚ) * 2 ^ j ≤ 2 ^ 53 * 2 ^ j := mul_le_mul_of_nonneg_right hk' (two_zpow_pos j).le
        _ = 2 ^ 52 * 2 ^ (j + 1) := by
          rw [zpow_add₀ two_ne_zero]
          ring
        _ ≤ 2 ^ 52 * 2 ^ t := mul_le_mul_of_nonneg_left (zpow_le_zpow_right₀ one_le_two (by omega)) (by positivity)
    refine ⟨fun _ => hv.trans hr, ?_⟩
    intro h
    have hle := (hround (2 ^ 52)).2 (by rw [div_le_iff₀ hunit]; push_cast; exact h.trans hv)
    have hle' : (r : ℚ) ≤ 2 ^ 52 := by exact_mod_cast hle
    exact (mul_le_mul_of_nonneg_right hle' hunit.le).trans (hq.trans h)

/-- In units of the last place of the greatest doubles the middle beyond them is a tie that is rounded upwards. -/
theorem rounded_lt_overflow_iff {r : Nat} {t : ℤ} (hround : IsRounded (q / 2 ^ t) r)
    (hlow : -1074 < t → 2 ^ 52 ≤ q / 2 ^ t) (hhigh : q / 2 ^ t < 2 ^ 53) :
    (r : ℚ) * 2 ^ t < overflow ↔ q < threshold := by
  have hunit := two_zpow_pos t
  have hbelow := hround.below
  rcases lt_trichotomy t 971 with hsmall | rfl | hlarge
  · have hpower : (2 : ℚ) ^ t ≤ 2 ^ (970 : ℤ) := zpow_le_zpow_right₀ one_le_two (by omega)
    have hlast := two_zpow_pos 970
    have hoverflow : overflow = 2 ^ 54 * 2 ^ (970 : ℤ) := overflow_eq 54
    have hq : q < 2 ^ 53 * 2 ^ (970 : ℤ) :=
      ((div_lt_iff₀ hunit).1 hhigh).trans_le (mul_le_mul_of_nonneg_left hpower (by norm_num))
    have hr : (r : ℚ) * 2 ^ t ≤ (2 ^ 53 + 1) * 2 ^ (970 : ℤ) :=
      mul_le_mul (by linarith) hpower hunit.le (by norm_num)
    rw [threshold]
    generalize (2 : ℚ) ^ (970 : ℤ) = u at *
    exact iff_of_true (by linarith) (by linarith)
  · have hoverflow : overflow = 2 ^ 53 * 2 ^ (971 : ℤ) := overflow_eq 53
    have hthreshold : threshold = (2 ^ 53 - 1 / 2) * 2 ^ (971 : ℤ) := by
      rw [threshold, hoverflow, sub_mul, ← two_zpow_sub_one]
      rfl
    rw [hoverflow, hthreshold, mul_lt_mul_iff_left₀ hunit, ← div_lt_iff₀ hunit]
    constructor
    · intro h
      have hle : r + 1 ≤ 2 ^ 53 := by exact_mod_cast h
      have hr : (r : ℚ) + 1 ≤ 2 ^ 53 := by exact_mod_cast hle
      refine lt_of_le_of_ne (by linarith [hround.above]) fun htie => ?_
      have hlast : (r : ℚ) = 2 ^ 53 - 1 := by linarith [hround.above]
      have heven := hround.even (.inr (by rw [htie, hlast]; ring))
      have hsucc : (r : ℚ) + 1 = 2 ^ 53 := by linarith
      have hsucc' : r + 1 = 2 ^ 53 := by exact_mod_cast hsucc
      omega
    · intro h
      linarith
  · have hpower : (2 : ℚ) ^ (972 : ℤ) ≤ 2 ^ t := zpow_le_zpow_right₀ one_le_two (by omega)
    have hoverflow : overflow = 2 ^ 52 * 2 ^ (972 : ℤ) := overflow_eq 52
    have hleast : overflow ≤ 2 ^ 52 * 2 ^ t := hoverflow.trans_le (mul_le_mul_of_nonneg_left hpower (by norm_num))
    have hq : overflow ≤ q := hleast.trans ((le_div_iff₀ hunit).1 (hlow (by omega)))
    have hr : (2 : ℚ) ^ 52 ≤ r := by
      have h := (hround.between (2 ^ 52)).1 (by exact_mod_cast hlow (by omega))
      exact_mod_cast h
    refine iff_of_false (not_lt.2 ?_) (not_lt.2 (threshold_lt_overflow.le.trans hq))
    exact hleast.trans (mul_le_mul_of_nonneg_right hr hunit.le)

/-- What is rounded has all its digits, and no representable value lies between it and the result, which is the nearest
one. -/
theorem round_spec (s : Sign) (hq : Describes (.ofMantissaAndAccuracy m accuracy) (q / 2 ^ e))
    (hdigits : 2 ^ 52 ≤ m ∨ e ≤ -1074) : ∃ b : Binary, b.IsCanonical ∧
      roundWithAccuracy .binary64 s m e accuracy = signed s b ∧ b.IsNearest q ∧ (b.value < overflow ↔ q < threshold) ∧
      ∀ v, Representable v → (v ≤ q → v ≤ b.value) ∧ (q ≤ v → b.value ≤ v) := by
  have hlog : 2 ^ 52 ≤ m → 52 ≤ m.log2 := fun hm => (Nat.le_log2 (by omega)).2 hm
  obtain ⟨n, hn⟩ : ∃ n : Nat, max ((m.log2 : ℤ) + e - 52) (-1074) = e + n :=
    ⟨(max ((m.log2 : ℤ) + e - 52) (-1074) - e).toNat, by omega⟩
  have hunit := two_zpow_pos (e + n)
  have hshift : q / 2 ^ e / 2 ^ n = q / 2 ^ (e + n) := by
    rw [div_div, zpow_add₀ two_ne_zero, zpow_natCast]
  have hem := hq.shiftRight n
  have hbelow := hq.below
  have habove := hq.above
  rw [hshift] at hem
  rw [mantissa_of] at hbelow habove
  have hround := hem.isRounded
  -- In units of the last place the rational has 53 digits, or fewer among the least values.
  have hhigh : q / 2 ^ (e + n) < 2 ^ 53 := by
    have hlt : q / 2 ^ e < 2 ^ (m.log2 + 1) := by
      refine habove.trans_le ?_
      exact_mod_cast Nat.lt_log2_self
    rw [← hshift, div_lt_iff₀ (by positivity), ← pow_add]
    exact hlt.trans_le (pow_le_pow_right₀ one_le_two (by omega))
  have hlow : -1074 < e + n → 2 ^ 52 ≤ q / 2 ^ (e + n) := by
    intro hnormal
    have hpos : m ≠ 0 := by
      rintro rfl
      rw [Nat.log2_zero] at hn
      omega
    have hfirst : (2 : ℚ) ^ m.log2 ≤ m := by exact_mod_cast Nat.log2_self_le hpos
    have hge := hfirst.trans hbelow
    rw [← hshift, le_div_iff₀ (by positivity), ← pow_add]
    exact (pow_le_pow_right₀ one_le_two (by omega)).trans hge
  have hr : (ExtendedMantissa.ofMantissaAndAccuracy m accuracy >>> n).roundedMantissa ≤ 2 ^ 53 := by
    have h := (hround.between (2 ^ 53)).2 (by exact_mod_cast hhigh.le)
    exact_mod_cast h
  have heq := round_eq s hn hr
  generalize (ExtendedMantissa.ofMantissaAndAccuracy m accuracy >>> n).roundedMantissa = r at hround hr heq
  have hfull : -1074 < e + n → 2 ^ 52 ≤ r := by
    intro hnormal
    have h := (hround.between (2 ^ 52)).1 (by exact_mod_cast hlow hnormal)
    exact_mod_cast h
  have hnearest : (carried r (e + n)).IsNearest q :=
    isNearest_of_rounded hround (fun hnormal => (le_div_iff₀ hunit).1 (hlow hnormal)) (value_carried _ _)
      (parity_carried _ _)
  refine ⟨carried r (e + n), ?_, heq, hnearest, ?_, ?_⟩
  · unfold carried
    split
    · exact ⟨by norm_num, by simp only; omega, fun _ => le_rfl⟩
    · exact ⟨by simp only; omega, by simp only; omega, hfull⟩
  · rw [value_carried]
    exact rounded_lt_overflow_iff hround hlow hhigh
  · intro v hv
    rw [value_carried]
    exact between_of_rounded hround.between hlow hfull hv

end Round

section Pack

def withSign : Sign → ℚ → ℚ
  | .positive, q => q
  | .negative, q => -q

/-- The value of an unpacked double. -/
def unpackedValue : UnpackedFloat → ℚ
  | .finite s m e _ => withSign s (m * 2 ^ e)
  | _ => 0

theorem ofBitVec_unpackSign (s : Sign) (exponent : BitVec Float.Model.Format.binary64.exponentBits)
    (mantissa : BitVec Float.Model.Format.binary64.mantissaBitsWithoutImplicit) :
    Sign.ofBitVec (unpackSign (packComponents .binary64 s exponent mantissa)) = s := by
  have hsign : unpackSign (packComponents .binary64 s exponent mantissa) = s.toBitVec := by
    have hexponent : exponent.toNat < 2 ^ 11 := exponent.isLt
    have hmantissa : mantissa.toNat < 2 ^ 52 := mantissa.isLt
    have hbit : s.toBitVec.toNat < 2 := s.toBitVec.isLt
    apply BitVec.eq_of_toNat_eq
    rw [toNat_unpackSign, packComponents, toNat_append, toNat_append]
    change ((s.toBitVec.toNat * 2 ^ 11 + exponent.toNat) * 2 ^ 52 + mantissa.toNat) / 2 ^ 63 % 2 = s.toBitVec.toNat
    omega
  rw [hsign]
  cases s with
  | negative => rfl
  | positive => rfl

/-- Nothing is lost by packing what is a double. -/
theorem unpack_pack {b : Binary} (h : b.IsDouble) (s : Sign) :
    (Float.Model.pack (signed s b)).unpack = signed s b := by
  obtain ⟨hlt, hleast, hgreatest, hfull⟩ := h
  unfold signed
  split
  · cases s with
    | negative => rfl
    | positive => rfl
  · next hne =>
    change UnpackedFloat.unpack .binary64 
      (UnpackedFloat.pack .binary64 (.finite s b.significand b.exponent (Nat.pos_of_ne_zero hne))) = _
    have hbias : ((Float.Model.Format.binary64.exponentBias : ℕ) : ℤ) = 1023 := rfl
    have hbits : ((Float.Model.Format.binary64.mantissaBitsWithoutImplicit : ℕ) : ℤ) = 52 := rfl
    have hwidth : Float.Model.Format.binary64.mantissaBits = 53 := rfl
    unfold UnpackedFloat.pack
    simp only [hbias, hbits, hwidth]
    rw [if_neg (by omega)]
    by_cases hlarge : 2 ^ 52 ≤ b.significand
    · have hlog : b.significand.log2 = 52 := (Nat.log2_eq_iff hne).2 ⟨hlarge, hlt⟩
      have hexponent : (BitVec.ofNat 11 (b.exponent + 1023 + 52).toNat).toNat = (b.exponent + 1023 + 52).toNat :=
        Nat.mod_eq_of_lt (by omega)
      have hall : BitVec.ofNat 11 (b.exponent + 1023 + 52).toNat ≠ -1#11 := by
        intro hall
        have hnat : (b.exponent + 1023 + 52).toNat = 2047 := hexponent.symm.trans (congrArg BitVec.toNat hall)
        omega
      have hzero : BitVec.ofNat 11 (b.exponent + 1023 + 52).toNat ≠ 0#11 := by
        intro hzero
        have hnat : (b.exponent + 1023 + 52).toNat = 0 := hexponent.symm.trans (congrArg BitVec.toNat hzero)
        omega
      have hmantissa : (1#1 ++ BitVec.ofNat 52 b.significand).toNat = b.significand := by
        rw [toNat_append, BitVec.toNat_ofNat]
        change 1 * 2 ^ 52 + b.significand % 2 ^ 52 = b.significand
        omega
      rw [if_pos (by omega)]
      unfold UnpackedFloat.unpack
      simp only [unpackExponent_packComponents, unpackMantissa_packComponents, ofBitVec_unpackSign, hall, hzero,
        ↓reduceIte, hexponent, hmantissa, hbias, hbits]
      congr 1
      omega
    · have hlog : b.significand.log2 < 52 := (Nat.log2_lt hne).2 (by omega)
      have hexponent : b.exponent = -1074 := by
        by_contra hne'
        exact hlarge (hfull (by omega))
      have hmantissa : (BitVec.ofNat 52 b.significand).toNat = b.significand := Nat.mod_eq_of_lt (by omega)
      have hzero : BitVec.ofNat 52 b.significand ≠ 0#52 := by
        intro hzero
        exact hne (hmantissa.symm.trans (congrArg BitVec.toNat hzero))
      rw [if_neg (by omega)]
      unfold UnpackedFloat.unpack
      simp only [unpackExponent_packComponents, unpackMantissa_packComponents, ofBitVec_unpackSign, hzero,
        ↓reduceIte, ↓reduceDIte, hmantissa, hbias, hbits, hexponent]
      rfl

def signOf (x : Float) : Sign :=
  if isNegative x then .negative else .positive

theorem signed_of_zero {b : Binary} (h : b.significand = 0) (s : Sign) : signed s b = .zero s := by
  rw [signed, dif_pos h]

theorem signed_of_pos {b : Binary} (h : 0 < b.significand) (s : Sign) :
    signed s b = .finite s b.significand b.exponent h := by
  rw [signed, dif_neg h.ne']

theorem ofBitVec_of_toBits {x : Float} {word : BitVec Float.Model.Format.binary64.numBits}
    (hword : word = x.toBits.toBitVec) : Sign.ofBitVec (unpackSign word) = signOf x := by
  have hbit := toNat_unpackSign word
  have hlt : word.toNat < 2 ^ 64 := word.isLt
  have hnegative : isNegative x = decide (2 ^ 63 ≤ word.toNat) := by rw [hword]; rfl
  unfold Sign.ofBitVec signOf
  rw [hnegative]
  by_cases hlarge : 2 ^ 63 ≤ word.toNat
  · rw [if_neg, if_pos (decide_eq_true hlarge)]
    intro hzero
    rw [hzero] at hbit
    change 0 = word.toNat / 2 ^ 63 % 2 at hbit
    omega
  · rw [if_pos, if_neg (by simpa using hlarge)]
    apply BitVec.eq_of_toNat_eq
    rw [hbit]
    change word.toNat / 2 ^ 63 % 2 = 0
    omega

/-- A finite double without packing. -/
theorem unpack_eq {x : Float} (hx : x.isFinite = true) : x.toModel.unpack = signed (signOf x) (magnitude x) := by
  have hlt := magnitudeBits_lt hx
  have hinfinity : double.infinity = 2047 * 2 ^ 52 := rfl
  have hsignBit : signBit = 2 ^ 63 := rfl
  have hunit : Nat.pow 2 (double.precision - 1) = 2 ^ 52 := rfl
  have hleast : double.leastExponent = -1074 := rfl
  have hbias : ((Float.Model.Format.binary64.exponentBias : ℕ) : ℤ) = 1023 := rfl
  have hbits : ((Float.Model.Format.binary64.mantissaBitsWithoutImplicit : ℕ) : ℤ) = 52 := rfl
  obtain ⟨word, hword⟩ : ∃ word : BitVec Float.Model.Format.binary64.numBits, word = x.toBits.toBitVec := ⟨_, rfl⟩
  have hword64 : word.toNat < 2 ^ 64 := word.isLt
  have hsign := ofBitVec_of_toBits hword
  have hexponent := toNat_unpackExponent word
  have hmantissa := toNat_unpackMantissa word
  have hmagnitude : magnitudeBits x = word.toNat % 2 ^ 63 := by rw [hword]; rfl
  have hunpack : x.toModel.unpack = UnpackedFloat.unpack .binary64 word := by rw [hword]; rfl
  rw [hmagnitude, hinfinity] at hlt
  rw [hunpack, magnitude, hmagnitude, Format.decode]
  simp only [hunit, hleast]
  unfold UnpackedFloat.unpack
  simp only [hbias, hbits, hsign]
  generalize unpackExponent word = exponent at hexponent ⊢
  have hall : exponent ≠ -1#11 := by
    rintro rfl
    change 2047 = word.toNat / 2 ^ 52 % 2 ^ 11 at hexponent
    omega
  rw [if_neg hall]
  by_cases hzero : exponent = 0#11
  · have hstep : word.toNat % 2 ^ 63 / 2 ^ 52 = 0 := by
      rw [hzero] at hexponent
      change 0 = word.toNat / 2 ^ 52 % 2 ^ 11 at hexponent
      omega
    have hsame : word.toNat % 2 ^ 63 = (unpackMantissa word).toNat := by omega
    rw [if_pos hzero, if_pos hstep, hsame, hzero]
    by_cases hnone : unpackMantissa word = 0#52
    · have hnat : (unpackMantissa word).toNat = 0 := congrArg BitVec.toNat hnone
      rw [dif_pos hnone, signed_of_zero hnat]
    · have hpos : 0 < (unpackMantissa word).toNat :=
        Nat.pos_of_ne_zero fun h => hnone (BitVec.eq_of_toNat_eq h)
      rw [dif_neg hnone, signed_of_pos hpos]
      rfl
  · have hstep : word.toNat % 2 ^ 63 / 2 ^ 52 = exponent.toNat := by omega
    have hpos : exponent.toNat ≠ 0 := fun h => hzero (BitVec.eq_of_toNat_eq h)
    have hfull : (1#1 ++ unpackMantissa word).toNat = 2 ^ 52 + word.toNat % 2 ^ 63 % 2 ^ 52 := by
      rw [toNat_append, hmantissa]
      change 1 * 2 ^ 52 + word.toNat % 2 ^ 52 = _
      omega
    rw [if_neg hzero, if_neg (by rwa [hstep]), signed_of_pos (by simp only; omega)]
    simp only [hfull, hstep]
    congr 1
    omega

theorem unpackedValue_signed (s : Sign) (b : Binary) :
    unpackedValue (signed s b) = withSign s b.value := by
  rcases Nat.eq_zero_or_pos b.significand with hzero | hpos
  · have hvalue : b.value = 0 := by rw [Binary.value, hzero, Nat.cast_zero, zero_mul]
    rw [signed_of_zero hzero, hvalue]
    cases s with
    | negative => exact neg_zero.symm
    | positive => rfl
  · rw [signed_of_pos hpos]
    rfl

theorem value_eq {x : Float} (hx : x.isFinite = true) : value x = unpackedValue x.toModel.unpack := by
  rw [unpack_eq hx, unpackedValue_signed, value, signOf]
  cases isNegative x with
  | false => rfl
  | true => rfl

/-- A double that is packed has the value of what it is packed from. -/
theorem value_pack {b : Binary} (h : b.IsDouble) (s : Sign) :
    (Float.ofModel (Float.Model.pack (signed s b))).isFinite = true ∧
      value (Float.ofModel (Float.Model.pack (signed s b))) = unpackedValue (signed s b) := by
  have hunpack := unpack_pack h s
  have hfinite : (Float.ofModel (Float.Model.pack (signed s b))).isFinite = true := by
    change (Float.Model.pack (signed s b)).unpack.isFinite = true
    rw [hunpack]
    rcases Nat.eq_zero_or_pos b.significand with hzero | hpos
    · rw [signed_of_zero hzero]
      rfl
    · rw [signed_of_pos hpos]
      rfl
  refine ⟨hfinite, ?_⟩
  rw [value_eq hfinite]
  exact congrArg unpackedValue hunpack

/-- What a magnitude is packed to keeps its sign, its value and whether it is even. -/
theorem magnitude_pack {b : Binary} (h : b.IsDouble) (s : Sign) {x : Float}
    (hx : x = Float.ofModel (Float.Model.pack (signed s b))) :
    signOf x = s ∧ (magnitude x).value = b.value ∧ (magnitude x).significand % 2 = b.significand % 2 := by
  rcases Nat.eq_zero_or_pos b.significand with hzero | hpos
  · have hb : b.value = 0 := by rw [Binary.value, hzero, Nat.cast_zero, zero_mul]
    have hleast : (Binary.mk 0 (-1074)).value = 0 := by rw [Binary.value, Nat.cast_zero, zero_mul]
    obtain ⟨hsign, hmagnitude⟩ : signOf x = s ∧ magnitude x = ⟨0, -1074⟩ := by
      rw [hx, signed_of_zero hzero]
      cases s with
      | negative =>
        have hnegative : isNegative (Float.ofModel (Float.Model.pack (.zero .negative))) = true := by decide +kernel
        exact ⟨if_pos hnegative, by decide +kernel⟩
      | positive =>
        have hnegative : isNegative (Float.ofModel (Float.Model.pack (.zero .positive))) ≠ true := by decide +kernel
        exact ⟨if_neg hnegative, by decide +kernel⟩
    rw [hmagnitude, hb, hzero, hleast]
    exact ⟨hsign, rfl, rfl⟩
  · have hfinite : x.isFinite = true := by
      rw [hx]
      exact (value_pack h s).1
    have hunpack : signed (signOf x) (magnitude x) = signed s b := by
      rw [← unpack_eq hfinite, hx]
      exact unpack_pack h s
    rw [signed_of_pos hpos] at hunpack
    rcases Nat.eq_zero_or_pos (magnitude x).significand with hzero | hpos'
    · rw [signed_of_zero hzero] at hunpack
      cases hunpack
    · rw [signed_of_pos hpos'] at hunpack
      obtain ⟨hsign, hsignificand, hexponent⟩ := UnpackedFloat.finite.inj hunpack
      refine ⟨hsign, ?_, by rw [hsignificand]⟩
      rw [Binary.value, Binary.value, hsignificand, hexponent]

/-- What is too great to be a double is packed to an infinity. -/
theorem unpack_pack_large {b : Binary} (h : b.IsCanonical) (hlarge : ¬ b.IsDouble) (s : Sign) :
    (Float.Model.pack (signed s b)).unpack = .infinity s := by
  have hexponent : 971 < b.exponent := by
    by_contra hle
    exact hlarge ⟨h.significand_lt, h.least_le, not_lt.1 hle, h.full⟩
  have hfull := h.full (by omega)
  have hbias : ((Float.Model.Format.binary64.exponentBias : ℕ) : ℤ) = 1023 := rfl
  have hbits : ((Float.Model.Format.binary64.mantissaBitsWithoutImplicit : ℕ) : ℤ) = 52 := rfl
  have hwidth : (2 : ℕ) ^ Float.Model.Format.binary64.exponentBits = 2048 := rfl
  have hinfinity : UnpackedFloat.pack .binary64 (signed s b) = packedInfinity .binary64 s := by
    rw [signed_of_pos (by omega), UnpackedFloat.pack]
    simp only [hbias, hbits, hwidth]
    rw [if_pos (by omega)]
  change UnpackedFloat.unpack .binary64 (UnpackedFloat.pack .binary64 (signed s b)) = .infinity s
  rw [hinfinity]
  cases s with
  | negative => rfl
  | positive => rfl

theorem isDouble_of_isFinite {b : Binary} (h : b.IsCanonical) (s : Sign)
    (hfinite : (Float.ofModel (Float.Model.pack (signed s b))).isFinite = true) : b.IsDouble := by
  by_contra hlarge
  change (Float.Model.pack (signed s b)).unpack.isFinite = true at hfinite
  rw [unpack_pack_large h hlarge] at hfinite
  cases hfinite

/-- The nearest magnitude with the sign in front of it is the nearest double. -/
theorem isNearest_pack {b : Binary} {q : ℚ} (h : b.IsDouble) (hq : 0 ≤ q) (hnearest : b.IsNearest q) (s : Sign) :
    IsNearest (withSign s q) (Float.ofModel (Float.Model.pack (signed s b))) := by
  obtain ⟨x, hx⟩ : ∃ x, x = Float.ofModel (Float.Model.pack (signed s b)) := ⟨_, rfl⟩
  obtain ⟨hsign, hvalue, hparity⟩ := magnitude_pack h s hx
  have hfinite : x.isFinite = true := by
    rw [hx]
    exact (value_pack h s).1
  have hmagnitude : (magnitude x).IsNearest q := by
    constructor
    · rw [hvalue]
      exact hnearest.near
    · rw [hvalue, hparity]
      exact hnearest.even
  have hsigned := isNearest_of_magnitude hfinite hq hmagnitude
  have hwith : (if isNegative x then -q else q) = withSign s q := by
    rw [← hsign, signOf]
    split <;> rfl
  rwa [hwith, hx] at hsigned

/-- Rounding a magnitude and putting the sign in front of it. -/
theorem rounds_pack {m : Nat} {e : ℤ} {accuracy : Accuracy} {q : ℚ} (s : Sign)
    (hq : Describes (.ofMantissaAndAccuracy m accuracy) (q / 2 ^ e)) (hdigits : 2 ^ 52 ≤ m ∨ e ≤ -1074) :
    Rounds (withSign s q) (Float.ofModel (Float.Model.pack (roundWithAccuracy .binary64 s m e accuracy))) := by
  obtain ⟨b, hcanonical, heq, hnearest, hextent, hbetween⟩ := round_spec s hq hdigits
  have hnonneg : 0 ≤ q := by
    have hquotient : 0 ≤ q / 2 ^ e := (Nat.cast_nonneg _).trans hq.below
    rwa [le_div_iff₀ (two_zpow_pos e), zero_mul] at hquotient
  have hdouble (hlt : q < threshold) : b.IsDouble := hcanonical.isDouble (hextent.2 hlt)
  rw [heq]
  refine ⟨?_, ?_, ?_, ?_, ?_⟩
  · intro l u hl hu hlq hqu
    cases s with
    | positive =>
      rw [withSign] at hlq hqu
      have hhigh := (hbetween u hu).2 hqu
      have hdouble := hcanonical.isDouble (hhigh.trans_lt ((le_abs_self u).trans_lt hu.1))
      obtain ⟨hfinite, hvalue⟩ := value_pack hdouble .positive
      rw [hvalue, unpackedValue_signed, withSign]
      exact ⟨hfinite, (hbetween l hl).1 hlq, hhigh⟩
    | negative =>
      rw [withSign] at hlq hqu
      have hhigh := (hbetween (-l) hl.neg).2 (by linarith)
      have hlow := (hbetween (-u) hu.neg).1 (by linarith)
      have hdouble := hcanonical.isDouble (hhigh.trans_lt ((neg_le_abs l).trans_lt hl.1))
      obtain ⟨hfinite, hvalue⟩ := value_pack hdouble .negative
      rw [hvalue, unpackedValue_signed, withSign]
      exact ⟨hfinite, by linarith, by linarith⟩
  · intro hfinite
    exact isNearest_pack (isDouble_of_isFinite hcanonical s hfinite) hnonneg hnearest s
  · intro hfinite
    have hlt := hextent.1 ((isDouble_of_isFinite hcanonical s hfinite).lt_threshold.trans threshold_lt_overflow)
    cases s with
    | positive => rwa [withSign, abs_of_nonneg hnonneg]
    | negative => rwa [withSign, abs_neg, abs_of_nonneg hnonneg]
  · intro hinfinite
    have hlarge : ¬ b.IsDouble := fun h => Bool.eq_false_iff.1 hinfinite (value_pack h s).1
    have hge : threshold ≤ q := not_lt.1 (mt hdouble hlarge)
    have hunpack : (Float.ofModel (Float.Model.pack (signed s b))).toModel.unpack = .infinity s :=
      unpack_pack_large hcanonical hlarge s
    cases s with
    | positive => exact .inl ⟨hge, hunpack⟩
    | negative => exact .inr ⟨neg_le_neg hge, hunpack⟩
  · intro hfinite hpos
    have hsign := (magnitude_pack (isDouble_of_isFinite hcanonical s hfinite) s rfl).1
    cases s with
    | positive =>
      by_contra hnegative
      rw [signOf, if_pos (Bool.eq_true_of_not_eq_false hnegative)] at hsign
      cases hsign
    | negative =>
      rw [withSign] at hpos
      linarith

end Pack

end WorkloadAtlas.Number
