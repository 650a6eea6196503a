import WorkloadAtlas.Number.Order
import WorkloadAtlas.Proofs.Extents
/-!
The order of doubles and the order of their values. On finite doubles both are the same, and the total order by bits
goes along with them. Rounding to the nearest double keeps this order: of two doubles that are equally near to a
rational one is chosen by its last digit, and neighbours never both have an even one.
-/

namespace WorkloadAtlas.Number

open Float.Model.UnpackedFloat

section Place

variable {b c : Binary}

theorem place_lt_of_value (hb : b.IsDouble) (hc : c.IsDouble) (h : b.value < c.value) :
    b.exponent < c.exponent ∨ b.exponent = c.exponent ∧ b.significand < c.significand := by
  by_contra hplace
  exact absurd h (not_lt.2 (value_le_of_place hc hb (by omega)))

theorem Binary.IsDouble.eq_of_value (hb : b.IsDouble) (hc : c.IsDouble) (h : b.value = c.value) : b = c := by
  have hbelow := mt (value_lt_of_place hb hc) h.not_lt
  have habove := mt (value_lt_of_place hc hb) h.not_gt
  obtain ⟨significand, exponent⟩ := b
  obtain ⟨significand', exponent'⟩ := c
  simp only [Binary.mk.injEq] at *
  omega

/-- Behind an even significand there is an odd one of the same place, so two even doubles are no neighbours. -/
theorem exists_between_even (hb : b.IsDouble) (hc : c.IsDouble) (hbEven : b.significand % 2 = 0)
    (hcEven : c.significand % 2 = 0) (h : b.value < c.value) :
    ∃ d : Binary, d.IsDouble ∧ b.value < d.value ∧ d.value < c.value := by
  have hplace := place_lt_of_value hb hc h
  have hlt := hb.significand_lt
  have hd : (Binary.mk (b.significand + 1) b.exponent).IsDouble := by
    refine ⟨?_, hb.least_le, hb.le_greatest, fun hnormal => (hb.full hnormal).trans (Nat.le_succ _)⟩
    simp only
    omega
  refine ⟨_, hd, value_lt_of_place hb hd (.inr ⟨rfl, Nat.lt_succ_self _⟩), value_lt_of_place hd hc ?_⟩
  simp only
  omega

end Place

section Value

variable {x y : Float}

theorem abs_value (x : Float) : |value x| = (magnitude x).value := by
  have hnonneg := value_nonneg (magnitude x)
  rw [value]
  split
  · rw [abs_neg, abs_of_nonneg hnonneg]
  · rw [abs_of_nonneg hnonneg]

theorem significand_of_value_zero (h : value x = 0) : (magnitude x).significand = 0 := by
  have hvalue : (magnitude x).value = 0 := by rw [← abs_value, h, abs_zero]
  rw [Binary.value, mul_eq_zero] at hvalue
  exact_mod_cast hvalue.resolve_right (two_zpow_pos _).ne'

theorem place_of_value (hx : x.isFinite = true) (hy : y.isFinite = true) (h : value x = value y) :
    place x.toModel.unpack = place y.toModel.unpack := by
  have hmagnitude : magnitude x = magnitude y := by
    apply (isDouble_magnitude hx).eq_of_value (isDouble_magnitude hy)
    rw [← abs_value, ← abs_value, h]
  rw [value, value, hmagnitude] at h
  rw [unpack_eq hx, unpack_eq hy, hmagnitude]
  rcases Nat.eq_zero_or_pos (magnitude y).significand with hzero | hpos
  · rw [signed_of_zero hzero, signed_of_zero hzero]
    rfl
  · have hvalue : 0 < (magnitude y).value := mul_pos (by exact_mod_cast hpos) (two_zpow_pos _)
    have hsign : isNegative x = isNegative y := by
      cases hxSign : isNegative x <;> cases hySign : isNegative y
      · rfl
      · rw [hxSign, hySign, if_neg Bool.false_ne_true, if_pos rfl] at h
        linarith
      · rw [hxSign, hySign, if_neg Bool.false_ne_true, if_pos rfl] at h
        linarith
      · rfl
    rw [signOf, signOf, hsign]

theorem beq_iff_value (hx : x.isFinite = true) (hy : y.isFinite = true) : (x == y) = true ↔ value x = value y := by
  have hxNumber := isNaN_of_isFinite hx
  have hyNumber := isNaN_of_isFinite hy
  constructor
  · intro h
    have hplace := (beq_iff_place hxNumber hyNumber).1 h
    apply le_antisymm
    · exact value_le hx hy ((le_iff_place hxNumber hyNumber).2 hplace.le)
    · exact value_le hy hx ((le_iff_place hyNumber hxNumber).2 hplace.ge)
  · exact fun h => (beq_iff_place hxNumber hyNumber).2 (place_of_value hx hy h)

theorem le_iff_value (hx : x.isFinite = true) (hy : y.isFinite = true) : x ≤ y ↔ value x ≤ value y := by
  have hxNumber := isNaN_of_isFinite hx
  have hyNumber := isNaN_of_isFinite hy
  refine ⟨value_le hx hy, fun h => ?_⟩
  rw [le_iff_place hxNumber hyNumber]
  rcases h.lt_or_eq with hlt | heq
  · by_contra hplace
    have hyx := value_le hy hx ((le_iff_place hyNumber hxNumber).2 (not_le.1 hplace).le)
    exact absurd hlt (not_lt.2 hyx)
  · exact (place_of_value hx hy heq).le

theorem lt_iff_value (hx : x.isFinite = true) (hy : y.isFinite = true) : x < y ↔ value x < value y := by
  have hle := le_iff_value hy hx
  rw [le_iff_place (isNaN_of_isFinite hy) (isNaN_of_isFinite hx)] at hle
  rw [lt_iff_place (isNaN_of_isFinite hx) (isNaN_of_isFinite hy), ← not_le, hle, not_le]

theorem value_decode_le {bits bits' : Nat} (hbits' : bits' < double.infinity) (h : bits ≤ bits') :
    (double.decode bits).value ≤ (double.decode bits').value := by
  obtain ⟨hb, hsum⟩ := decode_spec (h.trans_lt hbits')
  obtain ⟨hc, hsum'⟩ := decode_spec hbits'
  apply value_le_of_place hb hc
  have hlt := hc.significand_lt
  have hleast := hb.least_le
  have hleast' := hc.least_le
  have hfull := hb.full
  omega

/-- The total order goes along with that of the values. -/
theorem value_le_of_precedes (hx : x.isFinite = true) (hy : y.isFinite = true) (h : precedes x y = true) :
    value x ≤ value y := by
  have hxBits := magnitudeBits_lt hx
  have hyBits := magnitudeBits_lt hy
  have hxValue := value_nonneg (magnitude x)
  have hyValue := value_nonneg (magnitude y)
  rw [precedes, decide_eq_true_iff, rank, rank] at h
  rw [value, value]
  split at h
  · split at h
    · next hxSign hySign =>
      rw [if_pos hxSign, if_pos hySign]
      exact neg_le_neg (value_decode_le hxBits (by omega))
    · next hxSign hySign =>
      rw [if_pos hxSign, if_neg hySign]
      linarith
  · split at h
    · omega
    · next hxSign hySign =>
      rw [if_neg hxSign, if_neg hySign]
      exact value_decode_le hyBits (by omega)

/-- Two finite doubles of even significands are no neighbours, whatever their signs. -/
theorem exists_value_between (hx : x.isFinite = true) (hy : y.isFinite = true)
    (hxEven : (magnitude x).significand % 2 = 0) (hyEven : (magnitude y).significand % 2 = 0)
    (h : value x < value y) : ∃ z : Float, z.isFinite = true ∧ value x < value z ∧ value z < value y := by
  have hxDouble := isDouble_magnitude hx
  have hyDouble := isDouble_magnitude hy
  have hxAbs := abs_value x
  have hyAbs := abs_value y
  rcases le_or_gt 0 (value x) with hxSign | hxSign
  · rw [abs_of_nonneg hxSign] at hxAbs
    rw [abs_of_nonneg (hxSign.trans h.le)] at hyAbs
    obtain ⟨d, hd, hlow, hhigh⟩ := exists_between_even hxDouble hyDouble hxEven hyEven (by rwa [← hxAbs, ← hyAbs])
    obtain ⟨hfinite, hvalue⟩ := value_pack hd .positive
    rw [unpackedValue_signed, withSign] at hvalue
    exact ⟨_, hfinite, by rwa [hxAbs, hvalue], by rwa [hyAbs, hvalue]⟩
  · rw [abs_of_neg hxSign] at hxAbs
    rcases le_or_gt (value y) 0 with hySign | hySign
    · rw [abs_of_nonpos hySign] at hyAbs
      obtain ⟨d, hd, hlow, hhigh⟩ := exists_between_even hyDouble hxDouble hyEven hxEven (by linarith)
      obtain ⟨hfinite, hvalue⟩ := value_pack hd .negative
      rw [unpackedValue_signed, withSign] at hvalue
      exact ⟨_, hfinite, by linarith, by linarith⟩
    · exact ⟨0.0, value_zero.1, by rwa [value_zero.2], by rwa [value_zero.2]⟩

end Value

section Nearest

variable {p q v w : ℚ} {x y : Float}

/-- What is at least as near to the lesser of two values lies below the middle. -/
theorem le_middle (hlt : v < w) (h : |q - v| ≤ |q - w|) : 2 * q ≤ v + w := by
  rcases abs_cases (q - v) with hv | hv <;> rcases abs_cases (q - w) with hw | hw <;> linarith

theorem middle_le (hlt : v < w) (h : |q - w| ≤ |q - v|) : v + w ≤ 2 * q := by
  rcases abs_cases (q - v) with hv | hv <;> rcases abs_cases (q - w) with hw | hw <;> linarith

theorem IsNearest.not_lt (hx : IsNearest q x) (hy : IsNearest q y) : ¬ value x < value y := by
  intro hlt
  have heq : |q - value x| = |q - value y| := (hx.near y hy.finite).antisymm (hy.near x hx.finite)
  obtain ⟨z, hz, hlow, hhigh⟩ := exists_value_between hx.finite hy.finite (hx.even y hy.finite hlt.ne' heq)
    (hy.even x hx.finite hlt.ne heq.symm) hlt
  -- What lies between both is nearer than one of them.
  have hbelow := le_middle hlow (hx.near z hz)
  have habove := middle_le hhigh (hy.near z hz)
  linarith

/-- What two rationals are rounded to stands in the order of the rationals. -/
theorem IsNearest.mono (hx : IsNearest p x) (hy : IsNearest q y) (h : p ≤ q) : value x ≤ value y := by
  by_contra hlt
  rw [not_le] at hlt
  have hbelow := middle_le hlt (hx.near y hy.finite)
  have habove := le_middle hlt (hy.near x hx.finite)
  obtain rfl : p = q := by linarith
  exact hy.not_lt hx hlt

theorem Rounds.mono (hx : Rounds p x) (hy : Rounds q y) (hxFinite : x.isFinite = true) (hyFinite : y.isFinite = true)
    (h : p ≤ q) : value x ≤ value y :=
  (hx.nearest hxFinite).mono (hy.nearest hyFinite) h

end Nearest

end WorkloadAtlas.Number
