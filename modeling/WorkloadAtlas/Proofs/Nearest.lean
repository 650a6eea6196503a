import WorkloadAtlas.Number.Numeral
import WorkloadAtlas.Proofs.Encoding
import WorkloadAtlas.Proofs.Rounding
/-!
Doubles as rational numbers. The double that a quotient is rounded to is at least as near as any other, and if another
one is just as near its significand is even.
-/

namespace WorkloadAtlas.Number

/-- A natural that is nearest to a rational; of two the even one. -/
structure IsRounded (q : ℚ) (n : Nat) : Prop where
  below : (n : ℚ) - 1 / 2 ≤ q
  above : q ≤ n + 1 / 2
  even : q = n - 1 / 2 ∨ q = n + 1 / 2 → n % 2 = 0

section Quotient

variable {num den : Nat}

theorem isRounded_roundDiv (hden : 0 < den) : IsRounded ((num : ℚ) / den) (roundDiv num den) := by
  have hpos : (0 : ℚ) < den := by exact_mod_cast hden
  have hsum := Nat.div_add_mod num den
  have hmod := Nat.mod_lt num hden
  have hround : 2 * (roundDiv num den * den) ≤ 2 * num + den ∧ 2 * num ≤ 2 * (roundDiv num den * den) + den ∧
      (2 * (roundDiv num den * den) = 2 * num + den ∨ 2 * num = 2 * (roundDiv num den * den) + den →
        roundDiv num den % 2 = 0) := by
    rw [roundDiv]
    generalize num / den = quotient at hsum
    have hsucc : (quotient + 1) * den = den * quotient + den := by
      rw [Nat.succ_mul, Nat.mul_comm]
    have hzero : quotient * den = den * quotient := Nat.mul_comm _ _
    split
    · rw [hzero]
      omega
    · split
      · rw [hsucc]
        omega
      · rcases Nat.mod_two_eq_zero_or_one quotient with hparity | hparity
        · rw [hparity, Nat.add_zero, hzero]
          omega
        · rw [hparity, hsucc]
          omega
  obtain ⟨hlow, hhigh, heven⟩ := hround
  generalize roundDiv num den = n at hlow hhigh heven
  refine ⟨?_, ?_, ?_⟩
  · rw [le_div_iff₀ hpos]
    have h : (2 * (n * den) : ℚ) ≤ 2 * num + den := by exact_mod_cast hlow
    linarith
  · rw [div_le_iff₀ hpos]
    have h : (2 * num : ℚ) ≤ 2 * (n * den) + den := by exact_mod_cast hhigh
    linarith
  · intro hq
    apply heven
    rw [div_eq_iff hpos.ne', div_eq_iff hpos.ne'] at hq
    rcases hq with hq | hq
    · left
      have h : (2 * (n * den) : ℚ) = 2 * num + den := by linarith
      exact_mod_cast h
    · right
      have h : (2 * num : ℚ) = 2 * (n * den) + den := by linarith
      exact_mod_cast h

theorem IsRounded.abs_le_half {q : ℚ} {n : Nat} (h : IsRounded q n) : |q - n| ≤ 1 / 2 :=
  abs_le.2 ⟨by linarith [h.below], by linarith [h.above]⟩

/-- No other integer is nearer than the rounded one; one that is just as near is its neighbour and odd. -/
theorem IsRounded.near_int {q : ℚ} {n : Nat} (h : IsRounded q n) (m : ℤ) :
    |q - n| ≤ |q - m| ∧ (m ≠ n → |q - n| = |q - m| → n % 2 = 0 ∧ |(m : ℚ) - n| = 1) := by
  have hbelow := h.below
  have habove := h.above
  have hhalf := h.abs_le_half
  rcases lt_trichotomy m n with hlt | rfl | hlt
  · have hm : (m : ℚ) + 1 ≤ n := by exact_mod_cast hlt
    have hdistance : |q - m| = q - m := abs_of_nonneg (by linarith)
    rw [hdistance]
    refine ⟨by linarith, fun _ heq => ?_⟩
    have htie : q = n - 1 / 2 := by linarith
    have hnext : (m : ℚ) - n = -1 := by linarith
    exact ⟨h.even (.inl htie), by rw [hnext, abs_neg, abs_one]⟩
  · exact ⟨le_rfl, fun hne => absurd rfl hne⟩
  · have hm : (n : ℚ) + 1 ≤ m := by exact_mod_cast hlt
    have hdistance : |q - m| = m - q := by
      rw [abs_sub_comm]
      exact abs_of_nonneg (by linarith)
    rw [hdistance]
    refine ⟨by linarith, fun _ heq => ?_⟩
    have htie : q = n + 1 / 2 := by linarith
    have hnext : (m : ℚ) - n = 1 := by linarith
    exact ⟨h.even (.inr htie), by rw [hnext, abs_one]⟩

/-- No other natural is nearer, and one that is just as near belongs to an even one. -/
theorem IsRounded.near {q : ℚ} {n : Nat} (h : IsRounded q n) (k : Nat) :
    |q - n| ≤ |q - k| ∧ (k ≠ n → |q - n| = |q - k| → n % 2 = 0) := by
  obtain ⟨hle, htie⟩ := h.near_int k
  rw [Int.cast_natCast] at hle htie
  exact ⟨hle, fun hne heq => (htie (Int.ofNat_inj.not.2 hne) heq).1⟩

/-- No integer lies between a rational and what it is rounded to. -/
theorem IsRounded.between {q : ℚ} {n : Nat} (h : IsRounded q n) (k : ℤ) :
    ((k : ℚ) ≤ q → k ≤ n) ∧ (q ≤ k → (n : ℤ) ≤ k) := by
  have hbelow := h.below
  have habove := h.above
  constructor
  · intro hk
    have hlt : (k : ℚ) < n + 1 := by linarith
    have hlt' : k < n + 1 := by exact_mod_cast hlt
    omega
  · intro hk
    have hlt : (n : ℚ) < k + 1 := by linarith
    have hlt' : (n : ℤ) < k + 1 := by exact_mod_cast hlt
    omega

/-- The place of the last digit that a quotient keeps. -/
def lastPlace (num den : Nat) : ℤ :=
  max (power num den - 52) (-1074)

/-- The quotient in units of that place. -/
def units (num den : Nat) : Nat :=
  roundDiv (num * 2 ^ (-lastPlace num den).toNat) (den * 2 ^ (lastPlace num den).toNat)

theorem nearest_units (hnum : num ≠ 0) : double.nearest num den =
    min ((lastPlace num den + 1074).toNat * 2 ^ 52 + units num den) double.infinity := by
  rw [Format.nearest, if_neg hnum]
  rfl

/-- Scaling both sides of a quotient counts it in units of a place. -/
theorem isRounded_at (place : ℤ) (num : Nat) (hden : 0 < den) : IsRounded ((num : ℚ) / den / 2 ^ place)
    (roundDiv (num * 2 ^ (-place).toNat) (den * 2 ^ place.toNat)) := by
  have hdown : 0 < den * 2 ^ place.toNat := Nat.mul_pos hden (by positivity)
  have hquotient : (num : ℚ) / den / 2 ^ place =
      ((num * 2 ^ (-place).toNat : Nat) : ℚ) / (den * 2 ^ place.toNat : Nat) := by
    rw [zpow_eq_div two_ne_zero]
    push_cast
    rw [div_div_eq_mul_div, div_mul_eq_mul_div, div_div]
  rw [hquotient]
  exact isRounded_roundDiv hdown

theorem isRounded_units (num : Nat) (hden : 0 < den) :
    IsRounded ((num : ℚ) / den / 2 ^ lastPlace num den) (units num den) :=
  isRounded_at _ num hden

/-- Above the least values a quotient keeps 53 digits. -/
theorem units_bounds (hnum : 0 < num) (hden : 0 < den) :
    units num den ≤ 2 ^ 53 ∧ (-1074 < lastPlace num den → 2 ^ 52 ≤ units num den) := by
  obtain ⟨hlow, hhigh⟩ := power_spec hnum hden
  have hunit := two_zpow_pos (lastPlace num den)
  have hround := isRounded_units num hden
  constructor
  · have hplace : power num den + 1 ≤ lastPlace num den + 53 := by
      unfold lastPlace
      omega
    have hlt : (num : ℚ) / den / 2 ^ lastPlace num den < 2 ^ 53 := by
      rw [div_lt_iff₀ hunit, ← zpow_natCast, ← zpow_add₀ two_ne_zero]
      apply hhigh.trans_le
      apply zpow_le_zpow_right₀ one_le_two
      push_cast
      omega
    have hunits : (units num den : ℚ) < 2 ^ 53 + 1 := by
      have := hround.below
      linarith
    have hnat : units num den < 2 ^ 53 + 1 := by exact_mod_cast hunits
    omega
  · intro hnormal
    have hplace : lastPlace num den + 52 ≤ power num den := by
      unfold lastPlace at hnormal ⊢
      omega
    have hge : (2 : ℚ) ^ 52 ≤ num / den / 2 ^ lastPlace num den := by
      rw [le_div_iff₀ hunit, ← zpow_natCast, ← zpow_add₀ two_ne_zero]
      refine (zpow_le_zpow_right₀ one_le_two ?_).trans hlow
      push_cast
      omega
    have hunits : (2 : ℚ) ^ 52 < units num den + 1 := by
      have := hround.above
      linarith
    have hnat : 2 ^ 52 < units num den + 1 := by exact_mod_cast hunits
    omega

end Quotient

/-- Bits that are counted in units of a place; a full count is carried into the next binade. -/
theorem decode_eq {place : ℤ} {n : Nat} (hplace : -1074 ≤ place) (hle : n ≤ 2 ^ 53)
    (hfull : -1074 < place → 2 ^ 52 ≤ n) :
    double.decode ((place + 1074).toNat * 2 ^ 52 + n) = if n = 2 ^ 53 then ⟨2 ^ 52, place + 1⟩ else ⟨n, place⟩ := by
  have hunit : Nat.pow 2 (double.precision - 1) = 2 ^ 52 := rfl
  have hleast : double.leastExponent = -1074 := rfl
  obtain ⟨k, rfl⟩ : ∃ k : Nat, place = -1074 + k := ⟨(place + 1074).toNat, by omega⟩
  have hk : (-1074 + (k : ℤ) + 1074).toNat = k := by omega
  rw [hk, Format.decode]
  simp only [hunit, hleast]
  by_cases hsmall : n < 2 ^ 52
  · have hzero : k = 0 := by
      by_contra hne
      have := hfull (by omega)
      omega
    subst hzero
    rw [if_pos (by omega), if_neg (by omega)]
    simp only [Binary.mk.injEq]
    omega
  · rw [if_neg (by omega)]
    split
    · simp only [Binary.mk.injEq]
      omega
    · simp only [Binary.mk.injEq]
      omega

theorem decode_units {place : ℤ} {n : Nat} (hplace : -1074 ≤ place) (hle : n ≤ 2 ^ 53)
    (hfull : -1074 < place → 2 ^ 52 ≤ n) :
    (double.decode ((place + 1074).toNat * 2 ^ 52 + n)).value = n * 2 ^ place ∧
      (double.decode ((place + 1074).toNat * 2 ^ 52 + n)).significand % 2 = n % 2 := by
  rw [decode_eq hplace hle hfull]
  split
  · next hcarry =>
    rw [hcarry]
    refine ⟨?_, by norm_num⟩
    rw [Binary.value, zpow_add₀ two_ne_zero]
    push_cast
    ring
  · exact ⟨rfl, rfl⟩

/-- A binary value that is nearest to a rational among those of all doubles; of two the even one. -/
structure Binary.IsNearest (b : Binary) (q : ℚ) : Prop where
  near : ∀ b' : Binary, b'.IsDouble → |q - b.value| ≤ |q - b'.value|
  even : ∀ b' : Binary, b'.IsDouble → b'.value ≠ b.value → |q - b.value| = |q - b'.value| → b.significand % 2 = 0

theorem Binary.IsDouble.value_lt {b : Binary} (h : b.IsDouble) : b.value < 2 ^ 53 * 2 ^ b.exponent := by
  rw [Binary.value]
  apply mul_lt_mul_of_pos_right _ (two_zpow_pos _)
  exact_mod_cast h.significand_lt

/-- What is rounded at the last place of its digits is rounded to the nearest double. -/
theorem isNearest_of_rounded {q : ℚ} {place : ℤ} {n : Nat} (hround : IsRounded (q / 2 ^ place) n)
    (hlow : -1074 < place → 2 ^ 52 * 2 ^ place ≤ q) {b : Binary} (hvalue : b.value = n * 2 ^ place)
    (hparity : b.significand % 2 = n % 2) : b.IsNearest q := by
  have hunit := two_zpow_pos place
  -- Doubles at or above the place are multiples of its unit.
  have hmultiple (k : Nat) : |q - k * 2 ^ place| = |q / 2 ^ place - k| * 2 ^ place := by
    rw [← abs_of_pos hunit, ← abs_mul, abs_of_pos hunit, sub_mul, div_mul_cancel₀ _ hunit.ne']
  have key (b' : Binary) (h' : b'.IsDouble) : |q - b.value| ≤ |q - b'.value| ∧
      (b'.value ≠ b.value → |q - b.value| = |q - b'.value| → b.significand % 2 = 0) := by
    rw [hvalue, hparity]
    by_cases hexponent : place ≤ b'.exponent
    · obtain ⟨k, hk⟩ : ∃ k : Nat, b'.value = k * 2 ^ place := by
        refine ⟨b'.significand * 2 ^ (b'.exponent - place).toNat, ?_⟩
        rw [Binary.value]
        push_cast
        rw [mul_assoc, ← zpow_natCast, ← zpow_add₀ two_ne_zero]
        congr 2
        omega
      obtain ⟨hnear, heven⟩ := hround.near k
      rw [hk, hmultiple, hmultiple]
      refine ⟨mul_le_mul_of_nonneg_right hnear hunit.le, ?_⟩
      intro hne heq
      apply heven
      · rintro rfl
        exact hne rfl
      · exact mul_right_cancel₀ hunit.ne' heq
    · -- A double of a lower binade is farther away than the power of two between it and the rational.
      have hpower : (2 : ℚ) ^ 52 * 2 ^ place ≤ q := by
        have hleast := h'.least_le
        exact hlow (by omega)
      have hbelow : b'.value < 2 ^ 52 * 2 ^ place := by
        have hle : (2 : ℚ) ^ (b'.exponent + 1) ≤ 2 ^ place := zpow_le_zpow_right₀ one_le_two (by omega)
        rw [zpow_add₀ two_ne_zero, zpow_one] at hle
        have hlt := h'.value_lt
        linarith
      obtain ⟨hnear, -⟩ := hround.near (2 ^ 52)
      have hnear' := mul_le_mul_of_nonneg_right hnear hunit.le
      rw [← hmultiple, ← hmultiple] at hnear'
      rw [Nat.cast_pow, Nat.cast_ofNat, abs_of_nonneg (sub_nonneg.2 hpower)] at hnear'
      rw [abs_of_pos (sub_pos.2 (hbelow.trans_le hpower))]
      refine ⟨by linarith, ?_⟩
      intro _ heq
      linarith
  exact ⟨fun b' h' => (key b' h').1, fun b' h' => (key b' h').2⟩

theorem isNearest_units {num den : Nat} (hnum : 0 < num) (hden : 0 < den) {b : Binary}
    (hvalue : b.value = units num den * 2 ^ lastPlace num den) (hparity : b.significand % 2 = units num den % 2) :
    b.IsNearest (num / den) := by
  refine isNearest_of_rounded (isRounded_units num hden) ?_ hvalue hparity
  intro hnormal
  rw [← zpow_natCast, ← zpow_add₀ two_ne_zero]
  refine (zpow_le_zpow_right₀ one_le_two ?_).trans (power_spec hnum hden).1
  unfold lastPlace at hnormal ⊢
  push_cast
  omega

theorem isNearest_nearest {num den : Nat} (hden : 0 < den) (hfinite : double.nearest num den < double.infinity) :
    (double.decode (double.nearest num den)).IsNearest (num / den) := by
  rcases Nat.eq_zero_or_pos num with rfl | hnum
  · have hzero : double.decode (double.nearest 0 den) = ⟨0, -1074⟩ := by
      rw [Format.nearest, if_pos rfl]
      rfl
    have hvalue : (Binary.mk 0 (-1074)).value = 0 := by
      rw [Binary.value, Nat.cast_zero, zero_mul]
    rw [hzero, Nat.cast_zero, zero_div]
    refine ⟨?_, fun _ _ _ _ => rfl⟩
    intro b' _
    rw [hvalue, sub_zero, abs_zero]
    exact abs_nonneg _
  · rw [nearest_units hnum.ne'] at hfinite ⊢
    obtain ⟨hle, hfull⟩ := units_bounds hnum hden
    have hplace : -1074 ≤ lastPlace num den := le_max_right _ _
    obtain ⟨hvalue, hparity⟩ := decode_units hplace hle hfull
    rw [min_eq_left (by omega)]
    exact isNearest_units hnum hden hvalue hparity

section Signed

open Float.Model.UnpackedFloat in
/-- Bits up to those of infinity stand for a double as they are. -/
theorem toNat_ofMagnitude (negative : Bool) {bits : Nat} (h : bits ≤ double.infinity) :
    (ofMagnitude negative bits).toBits.toNat = if negative then signBit + bits else bits := by
  have hsign : signBit = 2 ^ 63 := rfl
  have hinfinity : double.infinity = 2047 * 2 ^ 52 := rfl
  rw [hinfinity] at h
  obtain ⟨word, hword⟩ : ∃ n : Nat, n = if negative then signBit + bits else bits := ⟨_, rfl⟩
  have hsmall : word < 2 ^ 64 ∧ word % 2 ^ 63 ≤ 2047 * 2 ^ 52 := by
    rw [hword, hsign]
    split <;> omega
  have hnat : (UInt64.ofNat word).toBitVec.toNat = word := Nat.mod_eq_of_lt hsmall.1
  have valid : Float.Model.Format.binary64.Valid (UInt64.ofNat word).toBitVec := by
    constructor
    intro hexponent hmantissa
    have hall := congrArg BitVec.toNat hexponent
    rw [toNat_unpackExponent, hnat] at hall
    have hones : (-1#11 : BitVec 11).toNat = 2047 := rfl
    exfalso
    apply hmantissa
    apply BitVec.eq_of_toNat_eq
    rw [toNat_unpackMantissa, hnat]
    change word / 2 ^ 52 % 2 ^ 11 = 2047 at hall
    change word % 2 ^ 52 = 0
    omega
  have hpack := pack_unpack _ valid
  rw [ofMagnitude, ← hword]
  change (pack .binary64 (unpack .binary64 (UInt64.ofNat word).toBitVec)).toNat = word
  rw [hpack, hnat]

theorem isNegative_ofMagnitude (negative : Bool) {bits : Nat} (h : bits ≤ double.infinity) :
    isNegative (ofMagnitude negative bits) = negative := by
  have hsign : signBit = 2 ^ 63 := rfl
  have hinfinity : double.infinity = 2047 * 2 ^ 52 := rfl
  rw [isNegative, toNat_ofMagnitude negative h]
  cases negative with
  | true => simp
  | false =>
    simp only [Bool.false_eq_true, ↓reduceIte, decide_eq_false_iff_not]
    omega

theorem magnitudeBits_ofMagnitude (negative : Bool) {bits : Nat} (h : bits ≤ double.infinity) :
    magnitudeBits (ofMagnitude negative bits) = bits := by
  have hsign : signBit = 2 ^ 63 := rfl
  have hinfinity : double.infinity = 2047 * 2 ^ 52 := rfl
  rw [magnitudeBits, toNat_ofMagnitude negative h, hsign]
  split <;> omega

theorem isDouble_magnitude {x : Float} (hx : x.isFinite = true) : (magnitude x).IsDouble :=
  (decode_spec (magnitudeBits_lt hx)).1

/-- The value of a finite double. -/
def value (x : Float) : ℚ :=
  if isNegative x then -(magnitude x).value else (magnitude x).value

/-- A finite double that is nearest to a rational; of two the one with an even significand. -/
structure IsNearest (q : ℚ) (x : Float) : Prop where
  finite : x.isFinite = true
  near : ∀ y : Float, y.isFinite = true → |q - value x| ≤ |q - value y|
  even : ∀ y : Float, y.isFinite = true → value y ≠ value x → |q - value x| = |q - value y| →
    (magnitude x).significand % 2 = 0

theorem value_nonneg (b : Binary) : 0 ≤ b.value :=
  mul_nonneg (Nat.cast_nonneg _) (two_zpow_pos _).le

theorem isNearest_zero_of_nonneg {b : Binary} (h : b.IsNearest 0) : b.value = 0 := by
  have hzero : (Binary.mk 0 (-1074)).value = 0 := by
    rw [Binary.value, Nat.cast_zero, zero_mul]
  have hnear := h.near ⟨0, -1074⟩ ⟨by norm_num, by norm_num, by norm_num, by norm_num⟩
  rw [hzero, zero_sub, abs_neg, sub_zero, abs_zero] at hnear
  exact abs_eq_zero.1 (hnear.antisymm (abs_nonneg _))

/-- Values of one sign are as far apart as their magnitudes, and values of two signs by the sum of these. -/
theorem abs_sub_value {q : ℚ} (hq : 0 ≤ q) (negative : Bool) (y : Float) :
    |(if negative then -q else q) - value y| =
      if isNegative y = negative then |q - (magnitude y).value| else q + (magnitude y).value := by
  have hc := value_nonneg (magnitude y)
  have hneg : |-q - -(magnitude y).value| = |q - (magnitude y).value| := by
    rw [neg_sub_neg, abs_sub_comm]
  have hdown : |-q - (magnitude y).value| = q + (magnitude y).value := by
    rw [← neg_add', abs_neg, abs_of_nonneg (add_nonneg hq hc)]
  have hup : |q - -(magnitude y).value| = q + (magnitude y).value := by
    rw [sub_neg_eq_add, abs_of_nonneg (add_nonneg hq hc)]
  rw [value]
  cases negative with
  | true =>
    cases isNegative y with
    | true => exact hneg
    | false => exact hdown
  | false =>
    cases isNegative y with
    | true => exact hup
    | false => rfl

/-- A double that has the sign of a rational and the magnitude nearest to it is nearest itself. -/
theorem isNearest_of_magnitude {x : Float} {q : ℚ} (hx : x.isFinite = true) (hq : 0 ≤ q)
    (h : (magnitude x).IsNearest q) : IsNearest (if isNegative x then -q else q) x := by
  have hself : |(if isNegative x then -q else q) - value x| = |q - (magnitude x).value| := by
    rw [abs_sub_value hq, if_pos rfl]
  have hfar (y : Float) : |q - (magnitude y).value| ≤ q + (magnitude y).value := by
    have hc := value_nonneg (magnitude y)
    exact abs_le.2 ⟨by linarith, by linarith⟩
  refine ⟨hx, ?_, ?_⟩
  · intro y hy
    have hnear := h.near (magnitude y) (isDouble_magnitude hy)
    rw [hself, abs_sub_value hq]
    split
    · exact hnear
    · exact hnear.trans (hfar y)
  · intro y hy hne heq
    have hdouble := isDouble_magnitude hy
    have hnear := h.near (magnitude y) hdouble
    rw [hself, abs_sub_value hq] at heq
    by_cases hsame : (magnitude y).value = (magnitude x).value
    · -- Both have one magnitude, so the signs differ and the rational lies half-way at zero.
      exfalso
      have hsign : isNegative y ≠ isNegative x := by
        intro hsign
        apply hne
        rw [value, value, hsign, hsame]
      rw [if_neg hsign, hsame] at heq
      have hzero : q = 0 ∨ (magnitude x).value = 0 := by
        rcases abs_choice (q - (magnitude x).value) with habs | habs
        · right
          linarith
        · left
          linarith
      have hvalue : (magnitude x).value = 0 := by
        rcases hzero with rfl | hvalue
        · exact isNearest_zero_of_nonneg h
        · exact hvalue
      apply hne
      simp [value, hsame, hvalue]
    · apply h.even (magnitude y) hdouble hsame
      apply hnear.antisymm
      rw [heq]
      split
      · exact le_rfl
      · exact hfar y

theorem isNearest_ofMagnitude {negative : Bool} {bits : Nat} {q : ℚ} (hbits : bits ≤ double.infinity) (hq : 0 ≤ q)
    (hfinite : (ofMagnitude negative bits).isFinite = true)
    (h : bits < double.infinity → (double.decode bits).IsNearest q) :
    IsNearest (if negative then -q else q) (ofMagnitude negative bits) := by
  have hlt := magnitudeBits_lt hfinite
  rw [magnitudeBits_ofMagnitude negative hbits] at hlt
  have hnearest : (magnitude (ofMagnitude negative bits)).IsNearest q := by
    rw [magnitude, magnitudeBits_ofMagnitude negative hbits]
    exact h hlt
  have hsigned := isNearest_of_magnitude hfinite hq hnearest
  rwa [isNegative_ofMagnitude negative hbits] at hsigned

/-- Below half of the least double zero is nearest. -/
theorem isNearest_zero {q : ℚ} (hq : 0 ≤ q) (hsmall : q < 2 ^ (-1075 : ℤ)) : (double.decode 0).IsNearest q := by
  have hdecode : double.decode 0 = ⟨0, -1074⟩ := rfl
  have hzero : (Binary.mk 0 (-1074)).value = 0 := by
    rw [Binary.value, Nat.cast_zero, zero_mul]
  rw [hdecode]
  refine ⟨?_, fun _ _ _ _ => rfl⟩
  intro b hb
  rw [hzero, sub_zero, abs_of_nonneg hq]
  rcases Nat.eq_zero_or_pos b.significand with hnone | hpos
  · rw [Binary.value, hnone, Nat.cast_zero, zero_mul, sub_zero, abs_of_nonneg hq]
  · have hleast : (2 : ℚ) ^ (-1074 : ℤ) ≤ b.value := by
      rw [Binary.value]
      have hone : (1 : ℚ) ≤ b.significand := by exact_mod_cast hpos
      have hunit := two_zpow_pos b.exponent
      have hexponent : (2 : ℚ) ^ (-1074 : ℤ) ≤ 2 ^ b.exponent := zpow_le_zpow_right₀ one_le_two hb.least_le
      nlinarith
    have hstep : (-1075 : ℤ) = -1074 - 1 := rfl
    rw [hstep, two_zpow_sub_one] at hsmall
    rw [abs_sub_comm, abs_of_nonneg (by linarith)]
    linarith

/-- The powers of ten that are not computed lie below the least double. -/
theorem ten_zpow_least : (10 : ℚ) ^ (-324 : ℤ) < 2 ^ (-1075 : ℤ) := by
  have hnat : 2 ^ 1075 < 10 ^ 324 := by decide +kernel
  have hlt : (2 : ℚ) ^ 1075 < 10 ^ 324 := by exact_mod_cast hnat
  rw [zpow_neg, zpow_neg]
  exact inv_strictAnti₀ (by positivity) hlt

theorem decimal_small {digits : Nat} {e : ℤ} (h : (digits.log2 : ℤ) + 1 + e ≤ -324) :
    (digits : ℚ) * 10 ^ e < 2 ^ (-1075 : ℤ) := by
  have hlt : (digits : ℚ) < 10 ^ ((digits.log2 : ℤ) + 1) := by
    have hnat : digits < 10 ^ (digits.log2 + 1) := Nat.lt_log2_self.trans_le (Nat.pow_le_pow_left (by omega) _)
    exact_mod_cast hnat
  calc (digits : ℚ) * 10 ^ e < 10 ^ ((digits.log2 : ℤ) + 1) * 10 ^ e := mul_lt_mul_of_pos_right hlt (ten_zpow_pos e)
    _ = 10 ^ ((digits.log2 : ℤ) + 1 + e) := (zpow_add₀ (by norm_num) _ _).symm
    _ ≤ 10 ^ (-324 : ℤ) := zpow_le_zpow_right₀ (by norm_num) h
    _ < 2 ^ (-1075 : ℤ) := ten_zpow_least

/-- The bits that a decimal is rounded to. -/
def decimalBits (digits : Nat) (e : ℤ) : Nat :=
  if digits = 0 then 0
  else if 400 < e then double.infinity
  else if digits.log2 + 1 + e ≤ -324 then 0
  else double.nearest (digits * Nat.pow 10 e.toNat) (Nat.pow 10 (-e).toNat)

theorem ofDecimal_eq (negative : Bool) (digits : Nat) (e : ℤ) :
    ofDecimal negative digits e = ofMagnitude negative (decimalBits digits e) := rfl

theorem decimalBits_spec (digits : Nat) (e : ℤ) : decimalBits digits e ≤ double.infinity ∧
    (decimalBits digits e < double.infinity → (double.decode (decimalBits digits e)).IsNearest (digits * 10 ^ e)) := by
  have hten := ten_zpow_pos e
  have hq : (0 : ℚ) ≤ digits * 10 ^ e := mul_nonneg (Nat.cast_nonneg _) hten.le
  rw [decimalBits]
  split_ifs with hzero hlarge hsmall
  · refine ⟨Nat.zero_le _, fun _ => isNearest_zero hq ?_⟩
    rw [hzero, Nat.cast_zero, zero_mul]
    exact two_zpow_pos _
  · exact ⟨le_rfl, fun h => absurd h (lt_irrefl _)⟩
  · exact ⟨Nat.zero_le _, fun _ => isNearest_zero hq (decimal_small hsmall)⟩
  · have hden : 0 < Nat.pow 10 (-e).toNat := Nat.pow_pos (by omega)
    have hnum : 0 < digits * Nat.pow 10 e.toNat := Nat.mul_pos (Nat.pos_of_ne_zero hzero) (Nat.pow_pos (by omega))
    have hquotient : ((digits * Nat.pow 10 e.toNat : Nat) : ℚ) / (Nat.pow 10 (-e).toNat : Nat) = digits * 10 ^ e := by
      have hpow (k : Nat) : Nat.pow 10 k = 10 ^ k := rfl
      rw [zpow_eq_div (by norm_num), hpow, hpow]
      push_cast
      ring
    rw [← hquotient]
    refine ⟨?_, isNearest_nearest hden⟩
    rw [nearest_units hnum.ne']
    exact min_le_right _ _

/-- A decimal that is rounded to a finite double is rounded to the nearest one. -/
theorem isNearest_ofDecimal {negative : Bool} {digits : Nat} {e : ℤ}
    (hfinite : (ofDecimal negative digits e).isFinite = true) :
    IsNearest (if negative then -(digits * 10 ^ e) else digits * 10 ^ e) (ofDecimal negative digits e) := by
  have hq : (0 : ℚ) ≤ digits * 10 ^ e := mul_nonneg (Nat.cast_nonneg _) (ten_zpow_pos e).le
  obtain ⟨hle, hnear⟩ := decimalBits_spec digits e
  exact isNearest_ofMagnitude hle hq hfinite hnear

end Signed

end WorkloadAtlas.Number
