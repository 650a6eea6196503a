import WorkloadAtlas.Proofs.Infinities
import WorkloadAtlas.Proofs.Ranks
import WorkloadAtlas.Proofs.Tallies
/-!
The order of the bins. The index of a value is a quotient of two rounded numbers, cut off to a natural: the difference to
the least value, which grows with the value, and the width of the bins, which does not depend on it. So no value comes
in front of a lesser one. Where the greatest value is counted depends on the width. If the range overflows the width is
infinite, and there is nothing but the first bin. If the range is narrow the width is rounded to a multiple of the least
double, and with a width that is rounded up the last bins may lie beyond the range.
-/

namespace WorkloadAtlas

namespace Number

variable {q : ℚ} {x : Float}

/-- With all of its digits a double is rounded up by at most half the weight of the last one. -/
theorem Rounds.value_le_of_normal (h : Rounds q x) (hx : x.isFinite = true) (hpos : 0 < value x)
    (hnormal : -1074 < (magnitude x).exponent) : value x * (1 - 2 ^ (-53 : ℤ)) ≤ q := by
  have hvalue := abs_value x
  rw [abs_of_pos hpos] at hvalue
  by_contra hshort
  obtain ⟨c, hc, hclt, hbefore⟩ := exists_binary_before (isDouble_magnitude hx) hnormal
  obtain ⟨hz, hzValue⟩ := value_pack hc .positive
  rw [unpackedValue_signed, withSign] at hzValue
  rw [← hvalue] at hclt hbefore
  rcases hbefore q (not_le.1 hshort).le with hle | hmiddle
  · rw [← hzValue] at hle hclt
    exact absurd (h.value_le hx (representable_value hz) hle) (not_le.2 hclt)
  · have hnear := middle_le (by rwa [hzValue]) ((h.nearest hx).near _ hz)
    rw [hzValue] at hnear
    linarith

/-- A multiple of the least double is rounded up by at most half of that. -/
theorem Rounds.value_le_of_least (h : Rounds q x) (hx : x.isFinite = true) (hpos : 0 < value x)
    (hleast : (magnitude x).exponent = -1074) : value x ≤ q + 2 ^ (-1075 : ℤ) := by
  have hvalue := abs_value x
  rw [abs_of_pos hpos, Binary.value, hleast] at hvalue
  have hunit := two_zpow_pos (-1074)
  have hhalf : (2 : ℚ) ^ (-1075 : ℤ) = 1 / 2 * 2 ^ (-1074 : ℤ) := by
    rw [← two_zpow_sub_one]
    rfl
  have hbefore : Representable (value x - 2 ^ (-1074 : ℤ)) := by
    have hunits : value x - 2 ^ (-1074 : ℤ) = ((magnitude x).significand - 1 : ℤ) * 2 ^ (-1074 : ℤ) := by
      rw [hvalue, Int.cast_sub, Int.cast_natCast, Int.cast_one, sub_mul, one_mul]
    have hlt := (isDouble_magnitude hx).significand_lt
    rw [hunits]
    apply representable_units
    rw [abs_le]
    constructor <;> omega
  obtain ⟨z, hz, hzValue⟩ := hbefore.exists_value
  have hnear := middle_le (by rw [hzValue]; linarith) ((h.nearest hx).near z hz)
  rw [hzValue] at hnear
  rw [hhalf]
  linarith

theorem Rounds.value_le_or (h : Rounds q x) (hx : x.isFinite = true) (hpos : 0 < value x) :
    value x ≤ q + 2 ^ (-1075 : ℤ) ∨ value x * (1 - 2 ^ (-53 : ℤ)) ≤ q := by
  rcases (isDouble_magnitude hx).least_le.eq_or_lt with hleast | hnormal
  · exact .inl (h.value_le_of_least hx hpos hleast.symm)
  · exact .inr (h.value_le_of_normal hx hpos hnormal)

end Number

namespace Histogram

open Number

/-- The width of the bins over a range. -/
def width (min max : Float) (bins : Nat) : Float :=
  (max - min) / Float.ofNat bins

/-- A finite range, and some bins, no more than a half word counts. -/
structure Divided (min max : Float) (bins : Nat) : Prop where
  min_finite : min.isFinite = true
  max_finite : max.isFinite = true
  lt : value min < value max
  pos : 0 < bins
  few : bins < 2 ^ 32

namespace Divided

variable {min max v w : Float} {bins : Nat}

theorem rounds_span (h : Divided min max bins) : Rounds (value max - value min) (max - min) :=
  rounds_sub h.max_finite h.min_finite

theorem value_bins (h : Divided min max bins) :
    (Float.ofNat bins).isFinite = true ∧ value (Float.ofNat bins) = bins ∧ (1 : ℚ) ≤ bins := by
  obtain ⟨hfinite, hvalue⟩ := value_ofNat (n := bins) (by have hfew := h.few; omega)
  exact ⟨hfinite, hvalue, by exact_mod_cast h.pos⟩

/-- The range overflows, and so do its bins. -/
theorem unpack_width (h : Divided min max bins) (hspan : (max - min).isFinite = false) :
    (max - min).toModel.unpack = .infinity .positive ∧ (width min max bins).toModel.unpack = .infinity .positive := by
  obtain ⟨hfinite, hvalue, hone⟩ := h.value_bins
  have hinfinite := h.rounds_span.infinite_of_nonneg (sub_nonneg.2 h.lt.le) hspan
  exact ⟨hinfinite, unpack_infinity_div hinfinite hfinite (by linarith)⟩

theorem index_of_overflow (h : Divided min max bins) (hspan : (max - min).isFinite = false) (v : Float) :
    index min (width min max bins) bins v = 0 := by
  have hcut := toUInt64_div_infinity (v - min) (h.unpack_width hspan).2
  rw [index, hcut]
  exact Nat.zero_min _

section Span

variable (h : Divided min max bins) (hspan : (max - min).isFinite = true)

include h hspan

theorem span_pos : 0 < value (max - min) :=
  value_sub_pos h.min_finite h.max_finite h.lt hspan

theorem rounds_width : Rounds (value (max - min) / bins) (width min max bins) := by
  obtain ⟨hfinite, hvalue, hone⟩ := h.value_bins
  have hrounds := rounds_div hspan hfinite (by rw [hvalue]; linarith)
  rwa [hvalue] at hrounds

theorem width_bounds : (width min max bins).isFinite = true ∧ 0 ≤ value (width min max bins) := by
  have hpos := h.span_pos hspan
  obtain ⟨-, -, hone⟩ := h.value_bins
  have hbounds := (h.rounds_width hspan).between 0 _ representable_zero (representable_value hspan)
    (div_nonneg hpos.le (by linarith)) (div_le_self hpos.le hone)
  exact ⟨hbounds.1, hbounds.2.1⟩

/-- A width that is too small for a double is zero, without a sign. -/
theorem unpack_width_zero (hzero : value (width min max bins) = 0) :
    (width min max bins).toModel.unpack = .zero .positive := by
  have hfinite := (h.width_bounds hspan).1
  obtain ⟨-, -, hone⟩ := h.value_bins
  have hsign := (h.rounds_width hspan).positive hfinite (div_pos (h.span_pos hspan) (by linarith))
  rw [unpack_of_value_zero hfinite hzero, signOf, hsign]
  rfl

/-- Twice the width would be a double too, so the width is more than half of what is rounded to it. -/
theorem span_lt (hwidth : 0 < value (width min max bins)) :
    value (max - min) < 2 * value (width min max bins) * bins := by
  obtain ⟨-, -, hone⟩ := h.value_bins
  have hpos : (0 : ℚ) < bins := by linarith
  have hfinite := (h.width_bounds hspan).1
  rw [← div_lt_iff₀ hpos]
  by_contra hdouble
  rw [not_lt] at hdouble
  have hlarge := div_le_self (h.span_pos hspan).le hone
  have hoverflow := (le_abs_self _).trans_lt (representable_value hspan).1
  have htwice : Representable (2 * value (width min max bins)) := by
    apply (representable_value hfinite).double
    rw [abs_of_pos (by linarith)]
    linarith
  have hle := (h.rounds_width hspan).le_value hfinite htwice hdouble
  linarith

section Value

variable (hv : v.isFinite = true) (hlow : value min ≤ value v) (hhigh : value v ≤ value max)

include hv hlow hhigh

theorem offset_bounds :
    (v - min).isFinite = true ∧ 0 ≤ value (v - min) ∧ value (v - min) ≤ value (max - min) := by
  have hrounds := rounds_sub hv h.min_finite
  have hle : |value v - value min| ≤ |value max - value min| := by
    rw [abs_of_nonneg (by linarith), abs_of_nonneg (by linarith)]
    linarith
  have hfinite := hrounds.isFinite_of_le h.rounds_span hle hspan
  exact ⟨hfinite, sub_nonneg_of_le h.min_finite hv hlow hfinite,
    hrounds.mono h.rounds_span hfinite hspan (by linarith)⟩

/-- With a width a value has a quotient, which its index is cut off from. -/
theorem quotient_bounds (hwidth : 0 < value (width min max bins)) :
    Rounds (value (v - min) / value (width min max bins)) ((v - min) / width min max bins) ∧
      ((v - min) / width min max bins).isFinite = true ∧
      (((v - min) / width min max bins).toUInt64.toNat : ℚ) ≤ value ((v - min) / width min max bins) ∧
      value ((v - min) / width min max bins) < ((v - min) / width min max bins).toUInt64.toNat + 1 := by
  obtain ⟨hoffset, hnonneg, hle⟩ := h.offset_bounds hspan hv hlow hhigh
  have hrounds := rounds_div hoffset (h.width_bounds hspan).1 hwidth.ne'
  have hfew : (bins : ℚ) ≤ 2 ^ 32 := by exact_mod_cast h.few.le
  have hquotient : value (v - min) / value (width min max bins) ≤ 2 ^ 33 := by
    rw [div_le_iff₀ hwidth]
    have hlt := h.span_lt hspan hwidth
    have hcount := mul_le_mul_of_nonneg_left hfew (mul_pos two_pos hwidth).le
    linarith
  obtain ⟨hfinite, hbelow, habove⟩ := hrounds.between 0 (2 ^ 33) representable_zero
    (representable_two_pow (by norm_num)) (div_nonneg hnonneg hwidth.le) hquotient
  have hcut := toUInt64_bounds hfinite hbelow (habove.trans_lt (by norm_num))
  exact ⟨hrounds, hfinite, hcut⟩

/-- Without a width every value but the least is beyond all bins. -/
theorem index_of_no_width (hwidth : value (width min max bins) = 0) :
    index min (width min max bins) bins v = if value min = value v then 0 else bins - 1 := by
  obtain ⟨hoffset, -, -⟩ := h.offset_bounds hspan hv hlow hhigh
  rw [index]
  split
  · next heq =>
    rw [toUInt64_zero_div hoffset (value_sub_eq_zero h.min_finite hv heq).2]
    exact Nat.zero_min _
  · next hne =>
    have hpos := value_sub_pos h.min_finite hv (lt_of_le_of_ne hlow hne) hoffset
    rw [toUInt64_of_infinity (unpack_div_zero hoffset hpos (h.unpack_width_zero hspan hwidth))]
    apply Nat.min_eq_right
    have hfew := h.few
    omega

end Value

end Span

theorem index_min (h : Divided min max bins) : index min (width min max bins) bins min = 0 := by
  obtain ⟨hfinite, hzero⟩ := value_sub_eq_zero h.min_finite h.min_finite rfl
  rw [index, toUInt64_zero_div hfinite hzero]
  exact Nat.zero_min _

/-- The index grows with the value. -/
theorem index_mono (h : Divided min max bins) (hv : v.isFinite = true) (hw : w.isFinite = true)
    (hlow : value min ≤ value v) (hle : value v ≤ value w) (hhigh : value w ≤ value max) :
    index min (width min max bins) bins v ≤ index min (width min max bins) bins w := by
  cases hspan : (max - min).isFinite with
  | false => rw [h.index_of_overflow hspan, h.index_of_overflow hspan]
  | true =>
    have hlow' := hlow.trans hle
    have hhigh' := hle.trans hhigh
    rcases (h.width_bounds hspan).2.eq_or_lt with hzero | hwidth
    · rw [h.index_of_no_width hspan hv hlow hhigh' hzero.symm, h.index_of_no_width hspan hw hlow' hhigh hzero.symm]
      split
      · exact Nat.zero_le _
      · next hne =>
        rw [if_neg]
        intro heq
        exact hne (hlow.antisymm (hle.trans_eq heq.symm))
    · obtain ⟨hrounds, hfinite, hbelow, -⟩ := h.quotient_bounds hspan hv hlow hhigh' hwidth
      obtain ⟨hrounds', hfinite', -, habove⟩ := h.quotient_bounds hspan hw hlow' hhigh hwidth
      have hoffset := (rounds_sub hv h.min_finite).mono (rounds_sub hw h.min_finite)
        (h.offset_bounds hspan hv hlow hhigh').1 (h.offset_bounds hspan hw hlow' hhigh).1 (by linarith)
      have hquotient := hrounds.mono hrounds' hfinite hfinite' (div_le_div_of_nonneg_right hoffset hwidth.le)
      have hcut := hbelow.trans_lt (hquotient.trans_lt habove)
      have hnat : ((v - min) / width min max bins).toUInt64.toNat ≤ ((w - min) / width min max bins).toUInt64.toNat := by
        rw [← Nat.lt_succ_iff]
        exact_mod_cast hcut
      exact min_le_min_right _ hnat

/-- The greatest value is counted in the last bin exactly if the whole range divided by the width reaches it. -/
theorem index_max_iff (h : Divided min max bins) : index min (width min max bins) bins max = bins - 1 ↔
    bins = 1 ∨ Float.ofNat (bins - 1) ≤ (max - min) / width min max bins := by
  have hpos := h.pos
  have hfew := h.few
  obtain ⟨hcount, hvalue⟩ := value_ofNat (n := bins - 1) (by omega)
  cases hspan : (max - min).isFinite with
  | false =>
    obtain ⟨hinfinite, hwidth⟩ := h.unpack_width hspan
    have hnan := not_le_nan (Float.ofNat (bins - 1)) (unpack_infinity_div_infinity hinfinite hwidth)
    rw [h.index_of_overflow hspan]
    simp only [hnan, or_false]
    omega
  | true =>
    rcases (h.width_bounds hspan).2.eq_or_lt with hzero | hwidth
    · have hinfinite := unpack_div_zero hspan (h.span_pos hspan) (h.unpack_width_zero hspan hzero.symm)
      rw [h.index_of_no_width hspan h.max_finite h.lt.le le_rfl hzero.symm, if_neg h.lt.ne]
      exact iff_of_true rfl (.inr (le_of_infinity (isNaN_of_isFinite hcount) hinfinite))
    · obtain ⟨-, hfinite, hbelow, habove⟩ := h.quotient_bounds hspan h.max_finite h.lt.le le_rfl hwidth
      have hreach : bins - 1 ≤ ((max - min) / width min max bins).toUInt64.toNat ↔
          Float.ofNat (bins - 1) ≤ (max - min) / width min max bins := by
        rw [le_iff_value hcount hfinite, hvalue]
        constructor
        · intro hle
          have hcast : ((bins - 1 : Nat) : ℚ) ≤ ((max - min) / width min max bins).toUInt64.toNat := by
            exact_mod_cast hle
          exact hcast.trans hbelow
        · intro hle
          rw [← Nat.lt_succ_iff]
          exact_mod_cast hle.trans_lt habove
      have hlast : index min (width min max bins) bins max = bins - 1 ↔
          bins - 1 ≤ ((max - min) / width min max bins).toUInt64.toNat := min_eq_right_iff
      rw [← hreach, hlast]
      omega

/-- Without the last bin the bins do not reach beyond a range that is not too narrow for them. -/
theorem pred_mul_width_le (h : Divided min max bins) (hspan : (max - min).isFinite = true)
    (hwide : (bins * (bins - 1) : ℚ) * 2 ^ (-1075 : ℤ) ≤ value (max - min)) (hwidth : 0 < value (width min max bins)) :
    (bins - 1 : ℚ) * value (width min max bins) ≤ value (max - min) := by
  obtain ⟨-, -, hone⟩ := h.value_bins
  have hbins : (0 : ℚ) < bins := by linarith
  have hfew : (bins : ℚ) ≤ 2 ^ 32 := by exact_mod_cast h.few.le
  have hspanEq : value (max - min) / bins * bins = value (max - min) := div_mul_cancel₀ _ hbins.ne'
  rcases (h.rounds_width hspan).value_le_or (h.width_bounds hspan).1 hwidth with hleast | hnormal
  · have hshort : (bins - 1 : ℚ) * 2 ^ (-1075 : ℤ) ≤ value (max - min) / bins := by
      rw [le_div_iff₀ hbins]
      linarith
    calc (bins - 1 : ℚ) * value (width min max bins)
        ≤ (bins - 1) * (value (max - min) / bins + 2 ^ (-1075 : ℤ)) :=
          mul_le_mul_of_nonneg_left hleast (by linarith)
      _ = value (max - min) / bins * bins - (value (max - min) / bins - (bins - 1) * 2 ^ (-1075 : ℤ)) := by ring
      _ ≤ value (max - min) := by linarith
  · have hless : (bins - 1 : ℚ) ≤ bins * (1 - 2 ^ (-53 : ℤ)) := by
      norm_num
      linarith
    calc (bins - 1 : ℚ) * value (width min max bins)
        ≤ bins * (1 - 2 ^ (-53 : ℤ)) * value (width min max bins) := mul_le_mul_of_nonneg_right hless hwidth.le
      _ = value (width min max bins) * (1 - 2 ^ (-53 : ℤ)) * bins := by ring
      _ ≤ value (max - min) / bins * bins := mul_le_mul_of_nonneg_right hnormal hbins.le
      _ = value (max - min) := hspanEq

/-- Over a range that does not overflow and is not too narrow for its bins the greatest value is in the last one. -/
theorem index_max (h : Divided min max bins) (hspan : (max - min).isFinite = true)
    (hwide : (bins * (bins - 1) : ℚ) * 2 ^ (-1075 : ℤ) ≤ value (max - min)) :
    index min (width min max bins) bins max = bins - 1 := by
  rcases (h.width_bounds hspan).2.eq_or_lt with hzero | hwidth
  · rw [h.index_of_no_width hspan h.max_finite h.lt.le le_rfl hzero.symm, if_neg h.lt.ne]
  · refine h.index_max_iff.2 (.inr ?_)
    obtain ⟨hrounds, -⟩ := h.quotient_bounds hspan h.max_finite h.lt.le le_rfl hwidth
    obtain ⟨hcount, hvalue⟩ := value_ofNat (n := bins - 1) (by have hfew := h.few; omega)
    apply hrounds.ge_of_ge hcount
    rw [hvalue, le_div_iff₀ hwidth, Nat.cast_pred h.pos]
    exact h.pred_mul_width_le hspan hwide hwidth

theorem countedIn_iff (h : Divided min max bins) {i : Nat} : CountedIn min max bins v i ↔
    (min ≤ v ∧ v ≤ max) ∧ index min (width min max bins) bins v = i := by
  apply Histogram.countedIn_iff h.pos
  rw [le_iff_value h.max_finite h.min_finite]
  exact not_le.2 h.lt

/-- Of two values of the range the lesser one is counted in no later bin. -/
theorem exists_countedIn (h : Divided min max bins) (hv : min ≤ v) (hvw : v ≤ w) (hw : w ≤ max) :
    ∃ i j, CountedIn min max bins v i ∧ CountedIn min max bins w j ∧ i ≤ j := by
  obtain ⟨hvNumber, hwNumber⟩ := isNaN_of_le hvw
  have hv' := le_trans hvNumber hwNumber (isNaN_of_isFinite h.max_finite) hvw hw
  have hw' := le_trans (isNaN_of_isFinite h.min_finite) hvNumber hwNumber hv hvw
  have hvFinite := isFinite_of_between h.min_finite h.max_finite hv hv'
  have hwFinite := isFinite_of_between h.min_finite h.max_finite hw' hw
  refine ⟨_, _, h.countedIn_iff.2 ⟨⟨hv, hv'⟩, rfl⟩, h.countedIn_iff.2 ⟨⟨hw', hw⟩, rfl⟩, ?_⟩
  exact h.index_mono hvFinite hwFinite ((le_iff_value h.min_finite hvFinite).1 hv)
    ((le_iff_value hvFinite hwFinite).1 hvw) ((le_iff_value hwFinite h.max_finite).1 hw)

end Divided

/-- Bins follow the order of the values, from the least value in the first bin on. The greatest value is counted in the
last bin exactly if the range divided by the width of the bins reaches it; it does over every range that does not
overflow and that has enough least doubles for its bins. If the range overflows, everything is counted in the first
bin. -/
theorem bins_follow_values {min max : Float} {bins : Nat} (hmin : min.isFinite = true) (hmax : max.isFinite = true)
    (hlt : min < max) (hbins : 0 < bins) (hfew : bins < 2 ^ 32) :
    CountedIn min max bins min 0 ∧
    (∀ v w, min ≤ v → v ≤ w → w ≤ max → ∃ i j, CountedIn min max bins v i ∧ CountedIn min max bins w j ∧ i ≤ j) ∧
    (CountedIn min max bins max (bins - 1) ↔
      bins = 1 ∨ Float.ofNat (bins - 1) ≤ (max - min) / ((max - min) / Float.ofNat bins)) ∧
    ((max - min).isFinite = true → (bins * (bins - 1) : ℚ) * 2 ^ (-1075 : ℤ) ≤ value (max - min) →
      CountedIn min max bins max (bins - 1)) ∧
    ((max - min).isFinite = false → ∀ v, min ≤ v → v ≤ max → CountedIn min max bins v 0) := by
  have hvalue := (lt_iff_value hmin hmax).1 hlt
  have h : Divided min max bins := ⟨hmin, hmax, hvalue, hbins, hfew⟩
  have hends := (le_iff_value hmin hmax).2 hvalue.le
  have hleast := le_refl (isNaN_of_isFinite hmin)
  have hgreatest := le_refl (isNaN_of_isFinite hmax)
  refine ⟨h.countedIn_iff.2 ⟨⟨hleast, hends⟩, h.index_min⟩, fun v w => h.exists_countedIn, ?_, ?_, ?_⟩
  · rw [h.countedIn_iff, and_iff_right ⟨hends, hgreatest⟩]
    exact h.index_max_iff
  · intro hspan hwide
    exact h.countedIn_iff.2 ⟨⟨hends, hgreatest⟩, h.index_max hspan hwide⟩
  · intro hspan v hv hv'
    exact h.countedIn_iff.2 ⟨⟨hv, hv'⟩, h.index_of_overflow hspan v⟩

/-- Four bins from zero to ten. -/
theorem bins_follow_values_ten : (0.0 : Float).isFinite = true ∧ (10.0 : Float).isFinite = true ∧ (0.0 : Float) < 10.0 ∧
    CountedIn 0.0 10.0 4 0.0 0 ∧ CountedIn 0.0 10.0 4 10.0 3 := by
  have hends : (0.0 : Float).isFinite = true ∧ (10.0 : Float).isFinite = true ∧ (0.0 : Float) < 10.0 := by
    decide +kernel
  have hbins := @bins_follow_values 0.0 10.0 4 hends.1 hends.2.1 hends.2.2 (by decide) (by decide)
  exact ⟨hends.1, hends.2.1, hends.2.2, hbins.1, hbins.2.2.1.2 (.inr (by decide +kernel))⟩

/-- Two ranges whose greatest value is not counted in the last bin: one that overflows, in two bins, and nine times the
least double, in six. -/
theorem greatest_before_last :
    (Float.ofBits 0xFFE1CCF385EBC8A0 < Float.ofBits 0x7FE1CCF385EBC8A0 ∧
      ¬ CountedIn (Float.ofBits 0xFFE1CCF385EBC8A0) (Float.ofBits 0x7FE1CCF385EBC8A0) 2
        (Float.ofBits 0x7FE1CCF385EBC8A0) 1) ∧
    (Float.ofBits 0 < Float.ofBits 9 ∧ ¬ CountedIn (Float.ofBits 0) (Float.ofBits 9) 6 (Float.ofBits 9) 5) := by
  refine ⟨⟨by decide +kernel, ?_⟩, by decide +kernel, ?_⟩
  · rw [countedIn_iff (by decide) (by decide +kernel)]
    decide +kernel
  · rw [countedIn_iff (by decide) (by decide +kernel)]
    decide +kernel

end Histogram

end WorkloadAtlas
