import WorkloadAtlas.Plot.Gallery
import WorkloadAtlas.Proofs.Extents
import WorkloadAtlas.Proofs.Narrowing
/-!
The value axis of the boxplots. Its margins are taken in doubles, and only then both ends are narrowed to the 32-bit
format. What this leaves of it depends on the digits: ends that are rounded to one value leave nothing, and an end beyond
the values of the format becomes infinite. Workloads that differ by enough of their magnitude are safe from both.
-/

namespace WorkloadAtlas

open Number

namespace Plot.Interval

/-- Both ends are finite, and the first comes before the last. -/
structure Proper (i : Interval) : Prop where
  first : i.first.isFinite = true
  last : i.last.isFinite = true
  lt : i.first < i.last

section Narrow

variable {i : Interval} {m : ℚ}

theorem Proper.value_lt (h : i.Proper) : value i.first < value i.last :=
  (lt_iff_value h.first h.last).1 h.lt

theorem Proper.toSingle_le (h : i.Proper) : i.toSingle.first ≤ i.toSingle.last :=
  Number.toSingle_le h.first h.last h.value_lt.le

/-- Narrowing spares an interval exactly if both ends are small enough and are not rounded to the same value. -/
theorem Proper.toSingle_iff (h : i.Proper) : i.toSingle.Proper ↔
    |value i.first| < singleThreshold ∧ |value i.last| < singleThreshold ∧
      ¬ ∃ s, IsNearestSingle (value i.first) s ∧ IsNearestSingle (value i.last) s := by
  have hle := h.value_lt.le
  constructor
  · intro hnarrow
    have hfirst := (isFinite_toSingle_iff h.first).1 hnarrow.first
    have hlast := (isFinite_toSingle_iff h.last).1 hnarrow.last
    refine ⟨hfirst, hlast, ?_⟩
    exact ((toSingle_of_lt h.first hfirst).2.1.lt_iff (toSingle_of_lt h.last hlast).2.1 hle).1 hnarrow.value_lt
  · rintro ⟨hfirst, hlast, hnone⟩
    obtain ⟨hfirstFinite, hfirstNearest, -⟩ := toSingle_of_lt h.first hfirst
    obtain ⟨hlastFinite, hlastNearest, -⟩ := toSingle_of_lt h.last hlast
    refine ⟨hfirstFinite, hlastFinite, ?_⟩
    exact (lt_iff_value hfirstFinite hlastFinite).2 ((hfirstNearest.lt_iff hlastNearest hle).2 hnone)

/-- Ends that are farther apart than both of their errors together stay apart. -/
theorem proper_of_gap (hfirst : i.first.isFinite = true) (hlast : i.last.isFinite = true)
    (hfirstLe : |value i.first| ≤ m) (hlastLe : |value i.last| ≤ m) (hm : m < singleThreshold)
    (hgap : m / 2 ^ 23 + 2 ^ (-149 : ℤ) < value i.last - value i.first) : i.Proper ∧ i.toSingle.Proper := by
  have hleast := two_zpow_pos (-149)
  have hhalf : (2 : ℚ) ^ (-150 : ℤ) = 1 / 2 * 2 ^ (-149 : ℤ) := by
    rw [← two_zpow_sub_one]
    rfl
  have hnonneg : 0 ≤ m := (abs_nonneg _).trans hfirstLe
  obtain ⟨hfirstFinite, -, hfirstError⟩ := toSingle_of_lt hfirst (hfirstLe.trans_lt hm)
  obtain ⟨hlastFinite, -, hlastError⟩ := toSingle_of_lt hlast (hlastLe.trans_lt hm)
  have hpart {x : ℚ} (hx : x ≤ m) : x / 2 ^ 24 ≤ 1 / 2 * (m / 2 ^ 23) := by
    rw [div_le_iff₀ (by positivity)]
    calc x ≤ m := hx
      _ = 1 / 2 * (m / 2 ^ 23) * 2 ^ 24 := by ring
  have hfirstPart := hpart hfirstLe
  have hlastPart := hpart hlastLe
  rw [hhalf] at hfirstError hlastError
  refine ⟨⟨hfirst, hlast, ?_⟩, hfirstFinite, hlastFinite, ?_⟩
  · rw [lt_iff_value hfirst hlast]
    have hspan : 0 ≤ m / 2 ^ 23 := by positivity
    linarith
  · change Number.toSingle i.first < Number.toSingle i.last
    rw [lt_iff_value hfirstFinite hlastFinite]
    linarith [(abs_le.1 hfirstError).1, (abs_le.1 hlastError).2]

end Narrow

section Margins

variable {min max : Float} {m : ℚ}

theorem value_epsilon_eq : value epsilon = 2 ^ (-52 : ℤ) := by
  have hsign : isNegative epsilon = false := by decide +kernel
  have hmagnitude : magnitude epsilon = ⟨2 ^ 52, -104⟩ := by decide +kernel
  rw [value, hsign, if_neg Bool.false_ne_true, hmagnitude, Binary.value]
  norm_num

/-- Halves are doubles up to two to the 50, so no nearest double is farther away than a half. -/
theorem near_half {q : ℚ} {x : Float} (h : Rounds q x) (hq : |q| ≤ 2 ^ 50) :
    x.isFinite = true ∧ |q - value x| ≤ 1 / 2 := by
  obtain ⟨hx, -⟩ := h.abs_value_le (representable_two_pow (by norm_num)) hq
  obtain ⟨hlow, hhigh⟩ := abs_le.1 hq
  have hfloor : |⌊2 * q⌋| ≤ 2 ^ 53 := by
    rw [abs_le]
    constructor
    · rw [Int.le_floor]
      push_cast
      linarith
    · have hle : (⌊2 * q⌋ : ℚ) ≤ 2 ^ 53 := (Int.floor_le _).trans (by linarith)
      exact_mod_cast hle
  have hrepresentable : Representable (⌊2 * q⌋ / 2) := by
    have hfloor' : |(⌊2 * q⌋ : ℚ)| ≤ 2 ^ 53 := by exact_mod_cast hfloor
    refine ⟨?_, ⌊2 * q⌋, -1, by rw [zpow_neg_one, div_eq_mul_inv], hfloor, by norm_num⟩
    rw [abs_div, abs_two]
    have hlt : (2 : ℚ) ^ 53 < overflow := two_pow_lt_overflow (by norm_num)
    linarith [abs_nonneg (⌊2 * q⌋ : ℚ)]
  obtain ⟨z, hz, hzValue⟩ := hrepresentable.exists_value
  refine ⟨hx, ((h.nearest hx).near z hz).trans ?_⟩
  rw [hzValue, abs_of_nonneg (by linarith [Int.floor_le (2 * q)])]
  linarith [Int.lt_floor_add_one (2 * q)]

variable (hmin : min.isFinite = true) (hmax : max.isFinite = true) (hminLe : |value min| ≤ m) (hmaxLe : |value max| ≤ m)

include hmin hmax hminLe hmaxLe

/-- One unit on each side is enough up to two to the 22. -/
theorem padded_of_small (hle : value min ≤ value max) (hsmall : max - min ≤ epsilon) (hm : m ≤ 2 ^ 22) :
    (padded min max).Proper ∧ (padded min max).toSingle.Proper := by
  obtain ⟨hminLow, hminHigh⟩ := abs_le.1 hminLe
  obtain ⟨hmaxLow, hmaxHigh⟩ := abs_le.1 hmaxLe
  have hfirst := rounds_sub hmin value_one.1
  have hlast := rounds_add hmax value_one.1
  rw [value_one.2] at hfirst hlast
  obtain ⟨hfirstFinite, hfirstNear⟩ := near_half hfirst (abs_le.2 ⟨by linarith, by linarith⟩)
  obtain ⟨hlastFinite, hlastNear⟩ := near_half hlast (abs_le.2 ⟨by linarith, by linarith⟩)
  obtain ⟨hfirstLow, hfirstHigh⟩ := abs_le.1 hfirstNear
  obtain ⟨hlastLow, hlastHigh⟩ := abs_le.1 hlastNear
  have hgap : ((2 : ℚ) ^ 22 + 2) / 2 ^ 23 + 2 ^ (-149 : ℤ) < value (max + 1.0) - value (min - 1.0) := by
    have hleast : (2 : ℚ) ^ (-149 : ℤ) ≤ 2 ^ (-2 : ℤ) := zpow_le_zpow_right₀ one_le_two (by norm_num)
    have hquarter : (2 : ℚ) ^ (-2 : ℤ) = 1 / 4 := by norm_num
    linarith
  rw [padded_eq hmin hmax, if_pos hsmall]
  exact proper_of_gap (i := ⟨min - 1.0, max + 1.0⟩) hfirstFinite hlastFinite
    (abs_le.2 ⟨by linarith, by linarith⟩) (abs_le.2 ⟨by linarith, by linarith⟩) (by norm_num [singleThreshold]) hgap

/-- A twentieth on each side is enough for data whose width is no too small part of its magnitude. -/
theorem padded_of_wide (hwide : ¬ max - min ≤ epsilon) (hm : m ≤ 2 ^ 124)
    (hspread : m ≤ 2 ^ 19 * (value max - value min)) :
    (padded min max).Proper ∧ (padded min max).toSingle.Proper := by
  obtain ⟨hminLow, hminHigh⟩ := abs_le.1 hminLe
  obtain ⟨hmaxLow, hmaxHigh⟩ := abs_le.1 hmaxLe
  have hspan := rounds_sub hmax hmin
  obtain ⟨hspanFinite, -⟩ := hspan.abs_value_le (representable_two_pow (j := 125) (by norm_num))
    (abs_le.2 ⟨by linarith, by linarith⟩)
  have hspanPos : 2 ^ (-52 : ℤ) < value (max - min) := by
    rw [le_iff_value hspanFinite value_epsilon.1, value_epsilon_eq] at hwide
    exact not_le.1 hwide
  have hleast := two_zpow_pos (-52)
  have hzero := (hspan.nearest hspanFinite).near 0.0 value_zero.1
  rw [value_zero.2, sub_zero] at hzero
  have hspanLe : value (max - min) ≤ 2 * (value max - value min) := by
    rcases abs_cases (value max - value min) with habs | habs <;> linarith [(abs_le.1 hzero).1]
  obtain ⟨htwentieth, hpos, hone⟩ := value_twentieth
  obtain ⟨hmargin, hlow, hhigh⟩ := part_bounds hspanFinite htwentieth hpos.le hone
  rw [min_eq_right (hleast.trans hspanPos).le] at hlow
  rw [max_eq_left (hleast.trans hspanPos).le] at hhigh
  have hfirst := rounds_sub hmin hmargin
  have hlast := rounds_add hmax hmargin
  have hroom := representable_two_pow (j := 127) (by norm_num)
  obtain ⟨hfirstFinite, -⟩ := hfirst.abs_value_le hroom (abs_le.2 ⟨by linarith, by linarith⟩)
  obtain ⟨hlastFinite, -⟩ := hlast.abs_value_le hroom (abs_le.2 ⟨by linarith, by linarith⟩)
  have hfirstNear := (hfirst.nearest hfirstFinite).near min hmin
  have hlastNear := (hlast.nearest hlastFinite).near max hmax
  rw [sub_sub_cancel_left, abs_neg, abs_of_nonneg hlow] at hfirstNear
  rw [add_sub_cancel_left, abs_of_nonneg hlow] at hlastNear
  obtain ⟨hfirstLow, hfirstHigh⟩ := abs_le.1 hfirstNear
  obtain ⟨hlastLow, hlastHigh⟩ := abs_le.1 hlastNear
  have hgap : 9 * m / 2 ^ 23 + 2 ^ (-149 : ℤ) <
      value (max + (max - min) * 0.05) - value (min - (max - min) * 0.05) := by
    have htiny : (2 : ℚ) ^ (-149 : ℤ) ≤ 1 / 16 * 2 ^ (-52 : ℤ) := by norm_num
    generalize (2 : ℚ) ^ (-149 : ℤ) = tiny at htiny ⊢
    generalize (2 : ℚ) ^ (-52 : ℤ) = least at htiny hspanPos hleast
    linarith
  rw [padded_eq hmin hmax, if_neg hwide]
  exact proper_of_gap (i := ⟨min - (max - min) * 0.05, max + (max - min) * 0.05⟩) hfirstFinite hlastFinite
    (abs_le.2 ⟨by linarith, by linarith⟩) (abs_le.2 ⟨by linarith, by linarith⟩)
    ((by linarith : 9 * m ≤ 9 * 2 ^ 124).trans_lt (by norm_num [singleThreshold])) hgap

/-- Data that are wide for their magnitude keep their axis; if they get one unit on each side, they are small. -/
theorem padded_of_spread (hm : m ≤ 2 ^ 124) (hle : value min ≤ value max)
    (hspread : m ≤ 2 ^ 19 * (value max - value min)) :
    (padded min max).Proper ∧ (padded min max).toSingle.Proper := by
  by_cases hsmall : max - min ≤ epsilon
  · refine padded_of_small hmin hmax hminLe hmaxLe hle hsmall ?_
    have hspan := rounds_sub hmax hmin
    obtain ⟨hspanFinite, -⟩ := hspan.abs_value_le (representable_two_pow (j := 125) (by norm_num))
      (abs_le.2 ⟨by linarith, by linarith [(abs_le.1 hminLe).1, (abs_le.1 hmaxLe).2]⟩)
    have hunit : value max - value min < 1 := by
      by_contra hwide
      have hone := hspan.le_value hspanFinite representable_one (not_lt.1 hwide)
      rw [le_iff_value hspanFinite value_epsilon.1, value_epsilon_eq] at hsmall
      have hless : (2 : ℚ) ^ (-52 : ℤ) < 1 := by norm_num
      linarith
    linarith
  · exact padded_of_wide hmin hmax hminLe hmaxLe hsmall hm hspread

end Margins

end Plot.Interval

namespace Bounds

variable {samples : List Loaded}

theorem isFinite_of_mem {v : Float} (hv : v ∈ workloads samples) : v.isFinite = true := by
  obtain ⟨loaded, -, hmem⟩ := List.mem_flatMap.1 hv
  exact loaded.sample.finite v hmem

theorem exact_least (hne : samples ≠ []) : Stats.Exact (· ≥ ·) (workloads samples) (leastWorkload samples) :=
  exact_extreme Stats.selects_lesser Sample.exact_min infinity_isNaN.1 le_infinity hne

theorem exact_greatest (hne : samples ≠ []) : Stats.Exact (· ≤ ·) (workloads samples) (greatestWorkload samples) :=
  exact_extreme Stats.selects_greater Sample.exact_max infinity_isNaN.2.1 infinity_le hne

/-- A finite double equal to a workload has its value. -/
theorem exists_value_eq {r : Float → Float → Prop} {x : Float} (h : Stats.Exact r (workloads samples) x) :
    x.isFinite = true ∧ ∃ v ∈ workloads samples, value v = value x := by
  have hx := h.isFinite fun v => isFinite_of_mem
  obtain ⟨v, hv, heq⟩ := h.attained
  exact ⟨hx, v, hv, (beq_iff_value (isFinite_of_mem hv) hx).1 heq⟩

end Bounds

namespace Plot.Gallery

/-- The value axis of the boxplots, once both of its ends are narrowed to the 32-bit format. Narrowing never turns it
round. It leaves it finite and not empty exactly if both ends lie below the threshold of the format and are not rounded
to the same value of it. That is so for workloads of which two differ by a part of at least two to the minus 19 of the
greatest magnitude, up to two to the 124; and for workloads that are all the same, up to two to the 22. -/
theorem boxplots_narrowed (iterations : Simulation.Span) (samples : List Loaded) :
    let axis := (boxplots iterations samples).y
    (axis.Proper → axis.toSingle.first ≤ axis.toSingle.last ∧
      (axis.toSingle.Proper ↔ |value axis.first| < singleThreshold ∧ |value axis.last| < singleThreshold ∧
        ¬ ∃ s, IsNearestSingle (value axis.first) s ∧ IsNearestSingle (value axis.last) s)) ∧
    ∀ m : ℚ, samples ≠ [] → (∀ v ∈ Bounds.workloads samples, |value v| ≤ m) →
      (m ≤ 2 ^ 124 ∧
          (∃ v ∈ Bounds.workloads samples, ∃ w ∈ Bounds.workloads samples, m ≤ 2 ^ 19 * (value w - value v)) ∨
        m ≤ 2 ^ 22 ∧ ∀ v ∈ Bounds.workloads samples, ∀ w ∈ Bounds.workloads samples, value v = value w) →
      axis.Proper ∧ axis.toSingle.Proper := by
  intro axis
  refine ⟨fun h => ⟨h.toSingle_le, h.toSingle_iff⟩, ?_⟩
  intro m hne hm hdata
  have hleast := Bounds.exact_least hne
  have hgreatest := Bounds.exact_greatest hne
  obtain ⟨hminFinite, v, hv, hmin⟩ := Bounds.exists_value_eq hleast
  obtain ⟨hmaxFinite, w, hw, hmax⟩ := Bounds.exists_value_eq hgreatest
  have hminLe : |value (Bounds.leastWorkload samples)| ≤ m := hmin ▸ hm v hv
  have hmaxLe : |value (Bounds.greatestWorkload samples)| ≤ m := hmax ▸ hm w hw
  have hbelow {u : Float} (hu : u ∈ Bounds.workloads samples) : value (Bounds.leastWorkload samples) ≤ value u :=
    (le_iff_value hminFinite (Bounds.isFinite_of_mem hu)).1 (hleast.bound u hu)
  have habove {u : Float} (hu : u ∈ Bounds.workloads samples) : value u ≤ value (Bounds.greatestWorkload samples) :=
    (le_iff_value (Bounds.isFinite_of_mem hu) hmaxFinite).1 (hgreatest.bound u hu)
  have hle := (hbelow hv).trans (habove hv)
  rcases hdata with ⟨hlarge, low, hlow, high, hhigh, hspread⟩ | ⟨hsmall, hsame⟩
  · refine Interval.padded_of_spread hminFinite hmaxFinite hminLe hmaxLe hlarge hle ?_
    linarith [hbelow hlow, habove hhigh]
  · refine Interval.padded_of_small hminFinite hmaxFinite hminLe hmaxLe hle ?_ hsmall
    obtain ⟨hfinite, hzero⟩ := value_sub_eq_zero hminFinite hmaxFinite (by rw [← hmin, ← hmax, hsame v hv w hw])
    rw [le_iff_value hfinite Interval.value_epsilon.1, hzero]
    exact Interval.value_epsilon.2

/-- One worker with a workload of two to the 25. -/
def heavy : Sample :=
  ⟨[0], [Float.ofBits 0x4180000000000000], rfl, by decide +kernel, List.cons_ne_nil _ _⟩

/-- The axis from one below to one above two to the 25 has both ends rounded to that power. -/
theorem heavy_without_axis :
    (boxplots ⟨0, 0⟩ [⟨0, heavy⟩]).y.Proper ∧ ¬ (boxplots ⟨0, 0⟩ [⟨0, heavy⟩]).y.toSingle.Proper := by
  refine ⟨⟨by decide +kernel, by decide +kernel, by decide +kernel⟩, fun h => ?_⟩
  exact absurd h.lt (by decide +kernel)

end Plot.Gallery

end WorkloadAtlas
