import Mathlib
import WorkloadAtlas.Proofs.Doubles
import WorkloadAtlas.Proofs.Nearest
import WorkloadAtlas.Proofs.Numerals
import WorkloadAtlas.Table.Column
/-!
Finite doubles as text. A double is read back from its text, sign and all. The text has a point exactly if the double
has a fraction; without one it is also an integer, and that integer is the double again.
-/

namespace WorkloadAtlas.Number

open Table (Kind)

section Reading

variable {x : Float}

theorem magnitudeBits_of_zero (hx : x.isFinite = true) (hzero : (magnitude x).significand = 0) :
    magnitudeBits x = 0 := by
  obtain ⟨isDouble, hsum⟩ := decode_spec (magnitudeBits_lt hx)
  have hleast : ¬ -1074 < (double.decode (magnitudeBits x)).exponent := by
    intro hnormal
    have hfull := isDouble.full hnormal
    unfold magnitude at hzero
    rw [hzero] at hfull
    omega
  unfold magnitude at hzero
  rw [hzero] at hsum
  omega

/-- Nothing that rounds to a double but zero is so small that no power is computed for it. -/
theorem ofDecimal_of_holds (hx : x.isFinite = true) (hpos : 0 < (magnitude x).significand) {count : Nat} {e : ℤ}
    (he : e ≤ 0) (h : (Interval.ofBinary (magnitude x)).Holds (count * 10 ^ e)) :
    ofDecimal (isNegative x) count e = x := by
  have hlow : (2 : ℚ) ^ (-1075 : ℤ) ≤ count * 10 ^ e := by
    have hstep : (-1074 - 1 : ℤ) = -1075 := rfl
    calc (2 : ℚ) ^ (-1075 : ℤ) = 1 / 2 * 2 ^ (-1074 : ℤ) := by
          rw [← hstep, two_zpow_sub_one]
      _ ≤ 1 / 2 * 2 ^ (magnitude x).exponent := by
          apply mul_le_mul_of_nonneg_left _ (by norm_num)
          exact zpow_le_zpow_right₀ one_le_two (isDouble_magnitude hx).least_le
      _ ≤ count * 10 ^ e := half_le_of_holds hpos h
  have hcount : count ≠ 0 := by
    rintro rfl
    rw [Nat.cast_zero, zero_mul] at hlow
    exact absurd hlow (not_le.2 (two_zpow_pos _))
  have hlog : ¬ ((count.log2 : ℤ) + 1 + e ≤ -324) := by
    intro hle
    exact absurd hlow (not_le.2 (decimal_small hle))
  have hden : 0 < Nat.pow 10 (-e).toNat := Nat.pow_pos (by omega)
  have hquotient : ((count * Nat.pow 10 e.toNat : Nat) : ℚ) / (Nat.pow 10 (-e).toNat : Nat) = count * 10 ^ e := by
    have hpow (k : Nat) : Nat.pow 10 k = 10 ^ k := rfl
    rw [zpow_eq_div (by norm_num), hpow, hpow]
    push_cast
    ring
  have hnearest : double.nearest (count * Nat.pow 10 e.toNat) (Nat.pow 10 (-e).toNat) = magnitudeBits x := by
    apply nearest_of_holds (magnitudeBits_lt hx) hpos hden
    rw [hquotient]
    exact h
  unfold ofDecimal
  simp only
  rw [if_neg hcount, if_neg (by omega), if_neg hlog, hnearest, ofMagnitude_magnitudeBits]

theorem ofDecimal_zero (hx : x.isFinite = true) (hzero : (magnitude x).significand = 0) (e : ℤ) :
    ofDecimal (isNegative x) 0 e = x := by
  have hofMagnitude := ofMagnitude_magnitudeBits x
  rw [magnitudeBits_of_zero hx hzero] at hofMagnitude
  unfold ofDecimal
  simp only
  rw [if_pos trivial]
  exact hofMagnitude

/-- How a double is written: a numeral whose value is rounded to the double. -/
structure Spells (n : Numeral) (x : Float) : Prop where
  text : (Layout.plain.text x).toList = n.text
  negative : n.negative = isNegative x
  zero : (magnitude x).significand = 0 → n.count = 0
  holds : 0 < (magnitude x).significand → (Interval.ofBinary (magnitude x)).Holds n.value
  whole : (magnitude x).value < 10 ^ 15 → (n.fraction = [] ↔ ∃ k : Nat, (magnitude x).value = k)

theorem text_signed {s : String} {n : Numeral} (hnegative : n.negative = isNegative x) (hs : s.toList = n.unsigned) :
    ((if isNegative x then "-" else "") ++ s).toList = n.text := by
  unfold Numeral.text
  rw [hnegative, String.toList_append, hs]
  cases isNegative x with
  | true => rfl
  | false => rfl

theorem exists_spells_zero (hx : x.isFinite = true) (hzero : (magnitude x).significand = 0) : ∃ n, Spells n x := by
  have hdigits : ∀ c ∈ ['0'] ++ [], isDigit c = true := by
    intro c hc
    rw [List.mem_singleton.1 hc]
    rfl
  have hcount : digitsValue (['0'] ++ []) = 0 := by decide
  have htext : Layout.plain.text x = (if isNegative x then "-" else "") ++ "0" := by
    unfold Layout.text
    simp only [isNaN_of_isFinite hx, hx, hzero]
    exact String.append_empty
  refine ⟨⟨isNegative x, ['0'], [], hdigits, List.cons_ne_nil _ _⟩, ?_, rfl, fun _ => hcount, ?_, ?_⟩
  · rw [htext]
    exact text_signed rfl rfl
  · intro hpos
    omega
  · intro _
    refine ⟨fun _ => ⟨0, ?_⟩, fun _ => rfl⟩
    unfold Binary.value
    rw [hzero, Nat.cast_zero, zero_mul]

theorem exists_spells (hx : x.isFinite = true) : ∃ n, Spells n x := by
  rcases Nat.eq_zero_or_pos (magnitude x).significand with hzero | hpos
  · exact exists_spells_zero hx hzero
  · have isDouble := isDouble_magnitude hx
    have htext : Layout.plain.text x = (if isNegative x then "-" else "") ++
        Layout.plain.positionally (.shortest .up (magnitude x)) := by
      unfold Layout.text
      simp only [isNaN_of_isFinite hx, hx, hpos.ne']
      rfl
    obtain ⟨n, hnegative, hunsigned, hfraction, hvalue⟩ :=
      Numeral.exists_positionally (isNegative x) (.shortest .up (magnitude x))
    refine ⟨n, ?_, hnegative, ?_, ?_, ?_⟩
    · rw [htext]
      exact text_signed hnegative hunsigned
    · intro hzero
      omega
    · intro _
      rw [hvalue]
      exact shortest_holds isDouble hpos .up
    · intro hsmall
      rw [hfraction]
      exact shortest_exponent_nonneg_iff isDouble hpos .up hsmall

theorem Spells.ofDecimal_eq {n : Numeral} (h : Spells n x) (hx : x.isFinite = true) :
    ofDecimal n.negative n.count (-n.fraction.length) = x := by
  rw [h.negative]
  rcases Nat.eq_zero_or_pos (magnitude x).significand with hzero | hpos
  · rw [h.zero hzero]
    exact ofDecimal_zero hx hzero _
  · exact ofDecimal_of_holds hx hpos (by omega) (h.holds hpos)

/-- A finite double is read back from its text, sign and all. -/
theorem real?_plain (hx : x.isFinite = true) : real? (Layout.plain.text x).toList = some x := by
  obtain ⟨n, h⟩ := exists_spells hx
  rw [h.text, Numeral.real?_text, h.ofDecimal_eq hx]

end Reading

theorem toQuotient_value (b : Binary) : (b.toQuotient.1 : ℚ) / b.toQuotient.2 = b.value := by
  have hpow (k : Nat) : Nat.pow 2 k = 2 ^ k := rfl
  unfold Binary.toQuotient Binary.value
  rw [zpow_eq_div two_ne_zero, hpow, hpow]
  push_cast
  rw [mul_div_assoc]

theorem toQuotient_pos (b : Binary) : 0 < b.toQuotient.2 :=
  Nat.two_pow_pos _

theorem truncate_lt_iff (x : Float) (n : Nat) : (truncate x).natAbs < n ↔ (magnitude x).value < n := by
  have hden := toQuotient_pos (magnitude x)
  have hpos : (0 : ℚ) < (magnitude x).toQuotient.2 := by exact_mod_cast hden
  have habs : (truncate x).natAbs = (magnitude x).toQuotient.1 / (magnitude x).toQuotient.2 := by
    unfold truncate
    simp only
    split
    · rw [Int.natAbs_neg, Int.natAbs_natCast]
    · rw [Int.natAbs_natCast]
  rw [habs, Nat.div_lt_iff_lt_mul hden, ← toQuotient_value, div_lt_iff₀ hpos]
  exact_mod_cast Iff.rfl

/-- A double without a fraction: nothing is lost by rounding it down or up. -/
def IsWhole (x : Float) : Prop :=
  floor x = ceil x

instance (x : Float) : Decidable (IsWhole x) :=
  inferInstanceAs (Decidable (floor x = ceil x))

theorem toQuotient_dvd_iff (b : Binary) : b.toQuotient.2 ∣ b.toQuotient.1 ↔ ∃ n : Nat, b.value = n := by
  have hpos : (0 : ℚ) < b.toQuotient.2 := by exact_mod_cast toQuotient_pos b
  rw [← toQuotient_value b]
  constructor
  · rintro ⟨n, hn⟩
    refine ⟨n, ?_⟩
    rw [hn, Nat.cast_mul, mul_div_cancel_left₀ _ hpos.ne']
  · rintro ⟨n, hn⟩
    rw [div_eq_iff hpos.ne'] at hn
    refine ⟨n, ?_⟩
    rw [Nat.mul_comm]
    exact_mod_cast hn

/-- Rounding down and rounding up agree exactly if nothing is left over. -/
theorem fdiv_neg_eq_iff {den : Nat} (hden : 0 < den) (num : Nat) :
    (-(num : ℤ)).fdiv den = -((num / den : Nat) : ℤ) ↔ den ∣ num := by
  rw [Int.fdiv_eq_ediv_of_nonneg _ (by omega)]
  constructor
  · intro h
    have hup := Int.mul_ediv_add_emod (-(num : ℤ)) den
    have hdown := Nat.div_add_mod num den
    have hnonneg := Int.emod_nonneg (-(num : ℤ)) (by omega : (den : ℤ) ≠ 0)
    have hcast : ((den * (num / den) : Nat) : ℤ) = den * (num / den : Nat) := Int.natCast_mul _ _
    rw [h, mul_neg] at hup
    exact Nat.dvd_of_mod_eq_zero (by omega)
  · intro h
    rw [Int.neg_ediv_of_dvd (Int.natCast_dvd_natCast.2 h), Int.natCast_ediv]

theorem isWhole_iff (x : Float) : IsWhole x ↔ ∃ n : Nat, (magnitude x).value = n := by
  rw [← toQuotient_dvd_iff, ← fdiv_neg_eq_iff (toQuotient_pos _)]
  unfold IsWhole floor ceil
  simp only
  split
  · rfl
  · rw [eq_comm, neg_eq_iff_eq_neg]

/-- Finite doubles whose whole part has at most fifteen digits. The negative zero, which would lose its sign as an
integer, does not count. -/
structure Ordinary (x : Float) : Prop where
  finite : x.isFinite = true
  small : (truncate x).natAbs < 10 ^ 15
  ne_negative_zero : x.toBits ≠ 0x8000000000000000

section Ordinary

variable {x : Float}

theorem Ordinary.value_lt (h : Ordinary x) : (magnitude x).value < 10 ^ 15 := by
  have hsmall := (truncate_lt_iff x (10 ^ 15)).1 h.small
  exact_mod_cast hsmall

theorem Ordinary.isNegative_of_zero (h : Ordinary x) (hzero : (magnitude x).significand = 0) :
    isNegative x = false := by
  have hbits := magnitudeBits_of_zero h.finite hzero
  by_contra hnegative
  apply h.ne_negative_zero
  rw [← UInt64.toNat_inj]
  have hsign : signBit = 0x8000000000000000 := rfl
  have hlt := x.toBits.toNat_lt
  unfold magnitudeBits at hbits
  unfold isNegative at hnegative
  rw [Bool.not_eq_false, decide_eq_true_iff, hsign] at hnegative
  rw [hsign] at hbits
  have hnat : (0x8000000000000000 : UInt64).toNat = 0x8000000000000000 := rfl
  rw [hnat]
  omega

theorem Spells.fraction_iff {n : Numeral} (h : Spells n x) (hx : Ordinary x) : n.fraction = [] ↔ IsWhole x := by
  rw [h.whole hx.value_lt, isWhole_iff]

theorem ofText_plain (hx : Ordinary x) :
    Kind.ofText (Layout.plain.text x).toList = if IsWhole x then .integer else .real := by
  obtain ⟨n, h⟩ := exists_spells hx.finite
  have hfraction := h.fraction_iff hx
  rw [h.text, Numeral.ofText_text]
  simp only [hfraction]

theorem signed?_plain_of_fraction (hx : Ordinary x) (hfraction : ¬ IsWhole x) :
    signed? (Layout.plain.text x).toList = none := by
  obtain ⟨n, h⟩ := exists_spells hx.finite
  rw [h.text, Numeral.signed?_text, if_neg]
  rw [h.fraction_iff hx]
  exact hfraction

theorem Spells.value_eq_count {n : Numeral} (hnil : n.fraction = []) : n.value = n.count := by
  unfold Numeral.value
  rw [hnil]
  simp

theorem Spells.count_lt {n : Numeral} (h : Spells n x) (hx : Ordinary x) (hnil : n.fraction = []) :
    n.count < 2 * 10 ^ 15 := by
  rcases Nat.eq_zero_or_pos (magnitude x).significand with hzero | hpos
  · rw [h.zero hzero]
    norm_num
  · have hholds := h.holds hpos
    rw [value_eq_count hnil] at hholds
    have hsmall := hx.value_lt
    have hdouble := le_double_of_holds hpos hholds
    have hlt : (n.count : ℚ) < 2 * 10 ^ 15 := by linarith
    exact_mod_cast hlt

/-- Only a number that is not zero has a minus sign. -/
theorem Spells.count_pos {n : Numeral} (h : Spells n x) (hx : Ordinary x) (hnil : n.fraction = [])
    (hnegative : n.negative = true) : 0 < n.count := by
  rcases Nat.eq_zero_or_pos (magnitude x).significand with hzero | hpos
  · rw [h.negative, hx.isNegative_of_zero hzero] at hnegative
    cases hnegative
  · have hholds := h.holds hpos
    rw [value_eq_count hnil] at hholds
    have hhalf := half_le_of_holds hpos hholds
    have hunit := two_zpow_pos (magnitude x).exponent
    have hlt : (0 : ℚ) < n.count := by linarith
    exact_mod_cast hlt

/-- A whole double is also read back from its text as an integer. -/
theorem signed?_plain_of_whole (hx : Ordinary x) (hwhole : IsWhole x) :
    ∃ k, signed? (Layout.plain.text x).toList = some k ∧ Table.Column.ofInteger k = x := by
  obtain ⟨n, h⟩ := exists_spells hx.finite
  have hnil := (h.fraction_iff hx).2 hwhole
  have hofDecimal := h.ofDecimal_eq hx.finite
  have hcount := h.count_lt hx hnil
  have hsigned : IsSigned n.signed := by
    unfold Numeral.signed IsSigned
    split
    · omega
    · omega
  have hnegative : decide (n.signed < 0) = n.negative := by
    unfold Numeral.signed
    cases hnegative : n.negative with
    | true =>
      have hpos := h.count_pos hx hnil hnegative
      simp [hpos]
    | false => simp
  have habs : n.signed.natAbs = n.count := by
    unfold Numeral.signed
    split
    · rw [Int.natAbs_neg, Int.natAbs_natCast]
    · rw [Int.natAbs_natCast]
  refine ⟨n.signed, ?_, ?_⟩
  · rw [h.text, Numeral.signed?_text, if_pos hnil]
    exact if_pos hsigned
  · rw [hnil] at hofDecimal
    unfold Table.Column.ofInteger
    rw [hnegative, habs]
    exact hofDecimal

end Ordinary

end WorkloadAtlas.Number
