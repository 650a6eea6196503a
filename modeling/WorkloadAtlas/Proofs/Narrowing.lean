import WorkloadAtlas.Proofs.Bars
import WorkloadAtlas.Proofs.Singles
import WorkloadAtlas.Proofs.Spelling
/-!
Narrowing a double to the 32-bit format. It becomes the nearest value of that format, or an infinity if it lies beyond
the middle between the greatest one and the next power of two.
-/

namespace WorkloadAtlas.Number

/-- The middle between the greatest value of the 32-bit format and the next power of two. It is rounded to an infinity,
and what is less is not. -/
def singleThreshold : ℚ :=
  2 ^ 128 - 2 ^ 103

section Bits

variable {num den n : Nat} {place : ℤ} {q : ℚ}

/-- The place of the last digit that a quotient keeps in the 32-bit format. -/
def singlePlace (num den : Nat) : ℤ :=
  max (power num den - 23) (-149)

/-- The quotient in units of that place. -/
def singleUnits (num den : Nat) : Nat :=
  roundDiv (num * 2 ^ (-singlePlace num den).toNat) (den * 2 ^ (singlePlace num den).toNat)

theorem nearest_single (hnum : num ≠ 0) : single.nearest num den =
    min ((singlePlace num den + 149).toNat * 2 ^ 23 + singleUnits num den) single.infinity := by
  rw [Format.nearest, if_neg hnum]
  rfl

theorem isRounded_singleUnits (num : Nat) (hden : 0 < den) :
    IsRounded ((num : ℚ) / den / 2 ^ singlePlace num den) (singleUnits num den) :=
  isRounded_at _ num hden

/-- Above the least values the place is that of 24 digits. -/
theorem singlePlace_spec (hnum : 0 < num) (hden : 0 < den) : (num : ℚ) / den < 2 ^ 24 * 2 ^ singlePlace num den ∧
    (-149 < singlePlace num den → 2 ^ 23 * 2 ^ singlePlace num den ≤ (num : ℚ) / den) := by
  obtain ⟨hlow, hhigh⟩ := power_spec hnum hden
  constructor
  · rw [← zpow_natCast, ← zpow_add₀ two_ne_zero]
    apply hhigh.trans_le
    apply zpow_le_zpow_right₀ one_le_two
    unfold singlePlace
    push_cast
    omega
  · intro hnormal
    rw [← zpow_natCast, ← zpow_add₀ two_ne_zero]
    refine (zpow_le_zpow_right₀ one_le_two ?_).trans hlow
    unfold singlePlace at hnormal ⊢
    push_cast
    omega

/-- A quotient that is rounded at the last place of its 24 digits. -/
structure Placed (q : ℚ) (place : ℤ) (n : Nat) : Prop where
  rounded : IsRounded (q / 2 ^ place) n
  least : -149 ≤ place
  high : q < 2 ^ 24 * 2 ^ place
  low : -149 < place → 2 ^ 23 * 2 ^ place ≤ q

theorem placed_singleUnits (hnum : 0 < num) (hden : 0 < den) :
    Placed (num / den) (singlePlace num den) (singleUnits num den) :=
  ⟨isRounded_singleUnits num hden, le_max_right _ _, (singlePlace_spec hnum hden).1, (singlePlace_spec hnum hden).2⟩

theorem placed_zero : Placed 0 (-149) 0 := by
  have hunit := two_zpow_pos (-149)
  refine ⟨⟨?_, ?_, fun _ => rfl⟩, le_rfl, by positivity, fun h => absurd h (lt_irrefl _)⟩
  · rw [zero_div]
    norm_num
  · rw [zero_div]
    norm_num

namespace Placed

theorem units_le (h : Placed q place n) : n ≤ 2 ^ 24 := by
  have hle : q / 2 ^ place ≤ ((2 ^ 24 : ℤ) : ℚ) := by
    rw [div_le_iff₀ (two_zpow_pos place)]
    exact_mod_cast h.high.le
  exact_mod_cast (h.rounded.between (2 ^ 24)).2 hle

theorem le_units (h : Placed q place n) (hnormal : -149 < place) : 2 ^ 23 ≤ n := by
  have hle : ((2 ^ 23 : ℤ) : ℚ) ≤ q / 2 ^ place := by
    rw [le_div_iff₀ (two_zpow_pos place)]
    exact_mod_cast h.low hnormal
  exact_mod_cast (h.rounded.between (2 ^ 23)).1 hle

/-- Bits that are counted in units of the place; a full count is carried into the next binade. -/
theorem value_decode (h : Placed q place n) :
    (single.decode ((place + 149).toNat * 2 ^ 23 + n)).value = n * 2 ^ place := by
  have hunit : Nat.pow 2 (single.precision - 1) = 2 ^ 23 := rfl
  have hleast : single.leastExponent = -149 := rfl
  have hle := h.units_le
  obtain ⟨k, rfl⟩ : ∃ k : Nat, place = -149 + k := ⟨(place + 149).toNat, by have := h.least; omega⟩
  have hk : (-149 + (k : ℤ) + 149).toNat = k := by omega
  rw [hk, Format.decode]
  simp only [hunit, hleast]
  by_cases hsmall : n < 2 ^ 23
  · have hzero : k = 0 := by
      by_contra hne
      have := h.le_units (by omega)
      omega
    subst hzero
    rw [if_pos (by omega), Nat.zero_mul, Nat.zero_add]
    rfl
  · have hlarge := not_lt.1 hsmall
    by_cases hcarry : n = 2 ^ 24
    · have hstep : (k * 2 ^ 23 + n) / 2 ^ 23 = k + 2 := by omega
      have hmod : (k * 2 ^ 23 + n) % 2 ^ 23 = 0 := by omega
      rw [hstep, hmod, if_neg (by omega), Binary.value, hcarry]
      have hexponent : (-149 + ((k + 2 : ℕ) - 1 : ℤ)) = -149 + k + 1 := by
        push_cast
        ring
      rw [hexponent, zpow_add_one₀ two_ne_zero]
      push_cast
      ring
    · have hstep : (k * 2 ^ 23 + n) / 2 ^ 23 = k + 1 := by omega
      have hmod : 2 ^ 23 + (k * 2 ^ 23 + n) % 2 ^ 23 = n := by omega
      have hexponent : (-149 + ((k + 1 : ℕ) - 1 : ℤ)) = -149 + k := by
        push_cast
        ring
      rw [hstep, hmod, if_neg (by omega), Binary.value, hexponent]

theorem bits_lt_iff (h : Placed q place n) :
    (place + 149).toNat * 2 ^ 23 + n < single.infinity ↔ (n : ℚ) * 2 ^ place < 2 ^ 128 := by
  have hinfinity : single.infinity = 255 * 2 ^ 23 := rfl
  have hle := h.units_le
  have hle' : (n : ℚ) ≤ 2 ^ 24 := by exact_mod_cast hle
  have hunit := two_zpow_pos place
  rw [hinfinity]
  rcases lt_trichotomy place 104 with hsmall | rfl | hlarge
  · refine iff_of_true (by omega) ?_
    have hpower : (2 : ℚ) ^ place ≤ 2 ^ (103 : ℤ) := zpow_le_zpow_right₀ one_le_two (by omega)
    calc (n : ℚ) * 2 ^ place ≤ 2 ^ 24 * 2 ^ (103 : ℤ) := mul_le_mul hle' hpower hunit.le (by positivity)
      _ < 2 ^ 128 := by norm_num
  · have hsplit : (2 : ℚ) ^ 128 = 2 ^ 24 * 2 ^ (104 : ℤ) := by norm_num
    rw [hsplit, mul_lt_mul_iff_left₀ hunit]
    have hcast : (n : ℚ) < 2 ^ 24 ↔ n < 2 ^ 24 := by exact_mod_cast Iff.rfl
    rw [hcast]
    omega
  · have hfull := h.le_units (by omega)
    have hfull' : (2 : ℚ) ^ 23 ≤ n := by exact_mod_cast hfull
    refine iff_of_false (by omega) (not_lt.2 ?_)
    have hpower : (2 : ℚ) ^ (105 : ℤ) ≤ 2 ^ place := zpow_le_zpow_right₀ one_le_two (by omega)
    calc (2 : ℚ) ^ 128 = 2 ^ 23 * 2 ^ (105 : ℤ) := by norm_num
      _ ≤ (n : ℚ) * 2 ^ place := mul_le_mul hfull' hpower (two_zpow_pos _).le n.cast_nonneg

/-- In units of the last place of the greatest values the middle beyond them is a tie that is rounded upwards. -/
theorem lt_threshold_iff (h : Placed q place n) : (n : ℚ) * 2 ^ place < 2 ^ 128 ↔ q < singleThreshold := by
  have hunit := two_zpow_pos place
  have hround := h.rounded
  have hle : (n : ℚ) ≤ 2 ^ 24 := by exact_mod_cast h.units_le
  rw [singleThreshold]
  rcases lt_trichotomy place 104 with hsmall | rfl | hlarge
  · have hpower : (2 : ℚ) ^ place ≤ 2 ^ (103 : ℤ) := zpow_le_zpow_right₀ one_le_two (by omega)
    have hbound : (2 : ℚ) ^ 24 * 2 ^ place ≤ 2 ^ 24 * 2 ^ (103 : ℤ) := mul_le_mul_of_nonneg_left hpower (by positivity)
    have hunits : (n : ℚ) * 2 ^ place ≤ 2 ^ 24 * 2 ^ place := mul_le_mul_of_nonneg_right hle hunit.le
    have hq := h.high
    norm_num at hbound hunits hq ⊢
    exact iff_of_true (by linarith) (by linarith)
  · have hsplit : (2 : ℚ) ^ 128 = 2 ^ 24 * 2 ^ (104 : ℤ) := by norm_num
    have hthreshold : (2 : ℚ) ^ 24 * 2 ^ (104 : ℤ) - 2 ^ 103 = (2 ^ 24 - 1 / 2) * 2 ^ (104 : ℤ) := by norm_num
    rw [hsplit, hthreshold, mul_lt_mul_iff_left₀ hunit, ← div_lt_iff₀ hunit]
    constructor
    · intro hlt
      have hnat : n + 1 ≤ 2 ^ 24 := by exact_mod_cast hlt
      have hn : (n : ℚ) + 1 ≤ 2 ^ 24 := by exact_mod_cast hnat
      refine lt_of_le_of_ne (by linarith [hround.above]) fun htie => ?_
      have hlast : (n : ℚ) + 1 = 2 ^ 24 := by linarith [hround.above]
      have heven := hround.even (.inr (by linarith))
      have hlast' : n + 1 = 2 ^ 24 := by exact_mod_cast hlast
      omega
    · intro hlt
      linarith [hround.below]
  · have hfull : (2 : ℚ) ^ 23 ≤ n := by exact_mod_cast h.le_units (by omega)
    have hpower : (2 : ℚ) ^ (105 : ℤ) ≤ 2 ^ place := zpow_le_zpow_right₀ one_le_two (by omega)
    have hq : (2 : ℚ) ^ 23 * 2 ^ (105 : ℤ) ≤ q :=
      (mul_le_mul_of_nonneg_left hpower (by positivity)).trans (h.low (by omega))
    have hunits : (2 : ℚ) ^ 23 * 2 ^ (105 : ℤ) ≤ n * 2 ^ place :=
      mul_le_mul hfull hpower (two_zpow_pos _).le n.cast_nonneg
    norm_num at hq hunits ⊢
    exact iff_of_false (by linarith) (by linarith)

end Placed

/-- The bits of infinity are reached at the threshold. Below it the value of the bits is the nearest one. -/
theorem nearest_single_spec (num : Nat) (hden : 0 < den) :
    (single.nearest num den < single.infinity ↔ (num : ℚ) / den < singleThreshold) ∧
      ((num : ℚ) / den < singleThreshold →
        IsNearestSingle (num / den) (single.decode (single.nearest num den)).value ∧
          |(num : ℚ) / den - (single.decode (single.nearest num den)).value| ≤ num / den / 2 ^ 24 + 2 ^ (-150 : ℤ)) := by
  obtain ⟨place, n, hplaced, hbits⟩ : ∃ place n, Placed ((num : ℚ) / den) place n ∧
      single.nearest num den = min ((place + 149).toNat * 2 ^ 23 + n) single.infinity := by
    rcases Nat.eq_zero_or_pos num with rfl | hnum
    · refine ⟨-149, 0, ?_, ?_⟩
      · rw [Nat.cast_zero, zero_div]
        exact placed_zero
      · rw [Format.nearest, if_pos rfl]
        rfl
    · exact ⟨_, _, placed_singleUnits hnum hden, nearest_single hnum.ne'⟩
  have hlt := hplaced.bits_lt_iff.trans hplaced.lt_threshold_iff
  rw [hbits, min_lt_iff, or_iff_left (lt_irrefl _)]
  refine ⟨hlt, fun hq => ?_⟩
  have hnonneg : (0 : ℚ) ≤ num / den := div_nonneg num.cast_nonneg den.cast_nonneg
  rw [min_eq_left (hlt.2 hq).le, hplaced.value_decode]
  exact ⟨isNearestSingle_of_rounded hplaced.rounded hplaced.units_le hplaced.least hplaced.low
    (hplaced.lt_threshold_iff.2 hq), error_of_rounded hplaced.rounded hplaced.least hplaced.low hnonneg⟩

end Bits

section Double

open Float.Model (UnpackedFloat)
open Float.Model.UnpackedFloat

variable {x y : Float} {v : ℚ}

/-- Bits below those of infinity stand for a finite double. -/
theorem isFinite_of_magnitudeBits (h : magnitudeBits x < double.infinity) : x.isFinite = true := by
  have hall : @unpackExponent .binary64 x.toBits.toBitVec ≠ -1#11 := by
    intro hall
    have hexponent := toNat_unpackExponent x.toBits.toBitVec
    rw [hall] at hexponent
    change 2047 = x.toBits.toNat / 2 ^ 52 % 2 ^ 11 at hexponent
    have hsign : signBit = 2 ^ 63 := rfl
    have hinfinity : double.infinity = 2047 * 2 ^ 52 := rfl
    unfold magnitudeBits at h
    rw [hsign, hinfinity] at h
    omega
  change (UnpackedFloat.unpack .binary64 x.toBits.toBitVec).isFinite = true
  unfold UnpackedFloat.unpack
  simp only [hall, ↓reduceIte]
  split
  · split <;> rfl
  · rfl

theorem value_ofMagnitude (negative : Bool) {bits : Nat} (h : bits < double.infinity) :
    (ofMagnitude negative bits).isFinite = true ∧ value (ofMagnitude negative bits) =
      if negative then -(double.decode bits).value else (double.decode bits).value := by
  refine ⟨isFinite_of_magnitudeBits ?_, ?_⟩
  · rwa [magnitudeBits_ofMagnitude negative h.le]
  · rw [value, isNegative_ofMagnitude negative h.le, magnitude, magnitudeBits_ofMagnitude negative h.le]

/-- A value of the 32-bit format is that of a double. -/
theorem nearest_of_single (hv : IsSingle v) (hnonneg : 0 ≤ v) {num den : Nat} (hden : 0 < den)
    (heq : (num : ℚ) / den = v) :
    double.nearest num den < double.infinity ∧ (double.decode (double.nearest num den)).value = v := by
  have hinfinity : double.infinity = 2047 * 2 ^ 52 := rfl
  have hfinite : double.nearest num den < double.infinity := by
    rcases Nat.eq_zero_or_pos num with rfl | hnum
    · rw [Format.nearest, if_pos rfl]
      decide
    · have hlt : (num : ℚ) / den < 2 ^ (127 + 1 : ℤ) := by
        rw [heq]
        exact_mod_cast (le_abs_self v).trans_lt hv.1
      have hpower := power_le hnum hden hlt
      have hunits := (units_bounds hnum hden).1
      have hplace : lastPlace num den ≤ 75 := by
        unfold lastPlace
        omega
      rw [nearest_units hnum.ne', min_lt_iff]
      left
      omega
  refine ⟨hfinite, ?_⟩
  obtain ⟨z, hz, hzValue⟩ := hv.representable.exists_value
  have hmagnitude : (magnitude z).value = v := by
    rw [← abs_value, hzValue, abs_of_nonneg hnonneg]
  have hnear := (isNearest_nearest hden hfinite).near (magnitude z) (isDouble_magnitude hz)
  rw [hmagnitude, heq, sub_self, abs_zero] at hnear
  exact (sub_eq_zero.1 (abs_nonpos_iff.1 hnear)).symm

/-- The magnitude of a double below the threshold is narrowed on its own, and the sign is kept. -/
theorem exists_narrowed (hx : x.isFinite = true) (hlt : |value x| < singleThreshold) :
    ∃ s, IsNearestSingle |value x| s ∧ |(|value x|) - s| ≤ |value x| / 2 ^ 24 + 2 ^ (-150 : ℤ) ∧
      (toSingle x).isFinite = true ∧ value (toSingle x) = if isNegative x then -s else s := by
  obtain ⟨hbits, hspec⟩ := nearest_single_spec (magnitude x).toQuotient.1 (toQuotient_pos (magnitude x))
  rw [toQuotient_value, ← abs_value] at hbits hspec
  obtain ⟨hnearest, herror⟩ := hspec hlt
  have hnarrow : toSingle x = ofMagnitude (isNegative x) (double.nearest
      (single.decode (single.nearest (magnitude x).toQuotient.1 (magnitude x).toQuotient.2)).toQuotient.1
      (single.decode (single.nearest (magnitude x).toQuotient.1 (magnitude x).toQuotient.2)).toQuotient.2) := by
    rw [toSingle, if_pos hx]
    simp only
    rw [if_pos (hbits.2 hlt)]
  generalize single.decode (single.nearest (magnitude x).toQuotient.1 (magnitude x).toQuotient.2) = b
    at hnarrow hnearest herror
  obtain ⟨hfinite, hvalue⟩ :=
    nearest_of_single hnearest.single (value_nonneg b) (toQuotient_pos b) (toQuotient_value b)
  obtain ⟨hnarrowFinite, hnarrowValue⟩ := value_ofMagnitude (isNegative x) hfinite
  rw [← hnarrow] at hnarrowFinite hnarrowValue
  rw [hvalue] at hnarrowValue
  exact ⟨b.value, hnearest, herror, hnarrowFinite, hnarrowValue⟩

/-- Below the threshold a double is narrowed to the nearest value of the 32-bit format. -/
theorem toSingle_of_lt (hx : x.isFinite = true) (hlt : |value x| < singleThreshold) :
    (toSingle x).isFinite = true ∧ IsNearestSingle (value x) (value (toSingle x)) ∧
      |value x - value (toSingle x)| ≤ |value x| / 2 ^ 24 + 2 ^ (-150 : ℤ) := by
  obtain ⟨s, hnearest, herror, hfinite, hvalue⟩ := exists_narrowed hx hlt
  have hsigned : value x = if isNegative x then -|value x| else |value x| := by
    rw [abs_value]
    rfl
  refine ⟨hfinite, ?_⟩
  rw [hvalue]
  cases hsign : isNegative x with
  | true =>
    rw [hsign, if_pos rfl] at hsigned
    rw [if_pos rfl]
    have hmirror : |value x - -s| = |(|value x|) - s| := by
      rw [hsigned, abs_neg, abs_abs, ← abs_neg]
      congr 1
      ring
    refine ⟨?_, hmirror.trans_le herror⟩
    rw [hsigned]
    exact hnearest.neg
  | false =>
    rw [hsign, if_neg Bool.false_ne_true] at hsigned
    rw [if_neg Bool.false_ne_true]
    rw [← hsigned] at hnearest herror
    refine ⟨hnearest, ?_⟩
    rwa [← hsigned]

theorem toSingle_of_ge (hx : x.isFinite = true) (hge : singleThreshold ≤ |value x|) :
    toSingle x = ofMagnitude (isNegative x) double.infinity := by
  obtain ⟨hbits, -⟩ := nearest_single_spec (magnitude x).toQuotient.1 (toQuotient_pos (magnitude x))
  rw [toQuotient_value, ← abs_value] at hbits
  rw [toSingle, if_pos hx]
  simp only
  rw [if_neg (mt hbits.1 (not_lt.2 hge))]

theorem singleThreshold_pos : 0 < singleThreshold := by
  norm_num [singleThreshold]

theorem toSingle_of_above (hx : x.isFinite = true) (h : singleThreshold ≤ value x) :
    toSingle x = Float.ofBits 0x7FF0000000000000 := by
  have hsign : isNegative x = false := by
    by_contra hnegative
    rw [value, if_pos (Bool.eq_true_of_not_eq_false hnegative)] at h
    linarith [value_nonneg (magnitude x), singleThreshold_pos]
  rw [toSingle_of_ge hx (h.trans (le_abs_self _)), hsign]
  rfl

theorem toSingle_of_below (hx : x.isFinite = true) (h : value x ≤ -singleThreshold) :
    toSingle x = Float.ofBits 0xFFF0000000000000 := by
  have hsign : isNegative x = true := by
    by_contra hpositive
    rw [value, if_neg hpositive] at h
    linarith [value_nonneg (magnitude x), singleThreshold_pos]
  have hge : singleThreshold ≤ |value x| := (le_neg.1 h).trans (neg_le_abs _)
  rw [toSingle_of_ge hx hge, hsign]
  rfl

theorem isFinite_toSingle_iff (hx : x.isFinite = true) :
    (toSingle x).isFinite = true ↔ |value x| < singleThreshold := by
  refine ⟨fun h => ?_, fun hlt => (toSingle_of_lt hx hlt).1⟩
  by_contra hge
  rw [toSingle_of_ge hx (not_lt.1 hge)] at h
  have hlt := magnitudeBits_lt h
  rw [magnitudeBits_ofMagnitude _ le_rfl] at hlt
  exact lt_irrefl _ hlt

theorem isNaN_toSingle (hx : x.isFinite = true) : (toSingle x).isNaN = false := by
  by_cases hlt : |value x| < singleThreshold
  · exact isNaN_of_isFinite (toSingle_of_lt hx hlt).1
  · rcases le_abs.1 (not_lt.1 hlt) with habove | hbelow
    · rw [toSingle_of_above hx habove]
      exact infinity_isNaN.1
    · rw [toSingle_of_below hx (le_neg.1 hbelow)]
      exact infinity_isNaN.2.1

/-- Narrowing keeps the order, infinities included. -/
theorem toSingle_le (hx : x.isFinite = true) (hy : y.isFinite = true) (h : value x ≤ value y) :
    toSingle x ≤ toSingle y := by
  by_cases hbelow : value x ≤ -singleThreshold
  · rw [toSingle_of_below hx hbelow]
    exact infinity_le (isNaN_toSingle hy)
  · by_cases habove : singleThreshold ≤ value y
    · rw [toSingle_of_above hy habove]
      exact le_infinity (isNaN_toSingle hx)
    · rw [not_le] at hbelow habove
      obtain ⟨hxFinite, hxNearest, -⟩ := toSingle_of_lt hx (abs_lt.2 ⟨hbelow, h.trans_lt habove⟩)
      obtain ⟨hyFinite, hyNearest, -⟩ := toSingle_of_lt hy (abs_lt.2 ⟨hbelow.trans_le h, habove⟩)
      rw [le_iff_value hxFinite hyFinite]
      exact hxNearest.mono hyNearest h

end Double

end WorkloadAtlas.Number
