import Mathlib
import WorkloadAtlas.Number.Binary
/-!
A double is its sign and the bits of its magnitude: put together again, they give the double itself.
-/

namespace WorkloadAtlas.Number

open Float.Model (UnpackedFloat)
open Float.Model.UnpackedFloat

section Word

variable (b : BitVec Float.Model.Format.binary64.numBits)

theorem toNat_unpackExponent : (unpackExponent b).toNat = b.toNat / 2 ^ 52 % 2 ^ 11 := by
  change (b.toNat >>> 52) % 2 ^ 11 = _
  rw [Nat.shiftRight_eq_div_pow]

theorem toNat_unpackMantissa : (unpackMantissa b).toNat = b.toNat % 2 ^ 52 := by
  change (b.toNat >>> 0) % 2 ^ 52 = _
  rw [Nat.shiftRight_zero]

theorem toNat_unpackSign : (unpackSign b).toNat = b.toNat / 2 ^ 63 % 2 := by
  change (b.toNat >>> 63) % 2 ^ 1 = _
  rw [Nat.shiftRight_eq_div_pow, pow_one]

theorem toNat_append {m n : ℕ} (high : BitVec m) (low : BitVec n) :
    (high ++ low).toNat = high.toNat * 2 ^ n + low.toNat := by
  rw [BitVec.toNat_append, ← Nat.shiftLeft_add_eq_or_of_lt low.isLt, Nat.shiftLeft_eq]

theorem toBitVec_ofBitVec (sign : BitVec 1) : (Sign.ofBitVec sign).toBitVec = sign := by
  revert sign
  decide

theorem packComponents_unpack :
    packComponents .binary64 (Sign.ofBitVec (unpackSign b)) (unpackExponent b) (unpackMantissa b) = b := by
  have hlt : b.toNat < 2 ^ 64 := b.isLt
  apply BitVec.eq_of_toNat_eq
  unfold packComponents
  rw [toNat_append, toNat_append, toBitVec_ofBitVec, toNat_unpackSign, toNat_unpackExponent, toNat_unpackMantissa]
  change (b.toNat / 2 ^ 63 % 2 * 2 ^ 11 + b.toNat / 2 ^ 52 % 2 ^ 11) * 2 ^ 52 + b.toNat % 2 ^ 52 = b.toNat
  omega

/-- Nothing is lost by taking a valid word apart: of the values that are no number only one is valid. -/
theorem pack_unpack (valid : Float.Model.Format.binary64.Valid b) :
    UnpackedFloat.pack .binary64 (UnpackedFloat.unpack .binary64 b) = b := by
  have hcomponents := packComponents_unpack b
  have hbias : ((Float.Model.Format.binary64.exponentBias : ℕ) : ℤ) = 1023 := rfl
  have hbits : ((Float.Model.Format.binary64.mantissaBitsWithoutImplicit : ℕ) : ℤ) = 52 := rfl
  have hwidth : Float.Model.Format.binary64.mantissaBits = 53 := rfl
  have hmantissa : (unpackMantissa b).toNat < 2 ^ 52 := (unpackMantissa b).isLt
  have hexponent : (unpackExponent b).toNat < 2 ^ 11 := (unpackExponent b).isLt
  unfold UnpackedFloat.unpack
  simp only
  split
  · next hall =>
    split
    · next hzero =>
      rw [hall, hzero] at hcomponents
      exact hcomponents
    · next hzero => exact (valid.eq_packedNaN hall hzero).symm
  · next hall =>
    split
    · next hleast =>
      rw [hleast] at hcomponents
      split
      · next hzero =>
        rw [hzero] at hcomponents
        exact hcomponents
      · next hzero =>
        have hbiased : ((unpackExponent b).toNat - (1023 + 52) + 1 + 1023 + 52 : ℤ).toNat = 1 := by
          rw [hleast]
          rfl
        have hpos : (unpackMantissa b).toNat ≠ 0 := fun hnat => hzero (BitVec.toNat_inj.1 hnat)
        have hlog : (unpackMantissa b).toNat.log2 < 52 := (Nat.log2_lt hpos).2 hmantissa
        simp only [UnpackedFloat.pack, hbias, hbits, hwidth, hbiased]
        rw [if_neg (by decide), if_neg (by omega), BitVec.ofNat_toNat, BitVec.setWidth_eq]
        exact hcomponents
    · next hleast =>
      have hbiased : ((unpackExponent b).toNat - (1023 + 52) + 1023 + 52 : ℤ).toNat = (unpackExponent b).toNat := by
        omega
      have hbelow : (unpackExponent b).toNat ≠ 2 ^ 11 - 1 := fun hnat => hall (BitVec.toNat_inj.1 hnat)
      have hfull : (1#1 ++ unpackMantissa b).toNat = 2 ^ 52 + (unpackMantissa b).toNat := by
        rw [toNat_append]
        rfl
      have hlog : (1#1 ++ unpackMantissa b).toNat.log2 = 52 := by
        rw [hfull, Nat.log2_eq_iff (by omega)]
        omega
      have hdrop : BitVec.ofNat 52 (1#1 ++ unpackMantissa b).toNat = unpackMantissa b := by
        apply BitVec.eq_of_toNat_eq
        rw [BitVec.toNat_ofNat, hfull, Nat.add_mod_left, Nat.mod_eq_of_lt hmantissa]
      simp only [UnpackedFloat.pack, hbias, hbits, hwidth, hbiased]
      rw [if_neg (by omega), if_pos (by omega), hdrop, BitVec.ofNat_toNat, BitVec.setWidth_eq]
      exact hcomponents

end Word

theorem ofBits_toBits (x : Float) : Float.ofBits x.toBits = x := by
  obtain ⟨⟨bits, valid⟩⟩ := x
  have hpack := pack_unpack bits.toBitVec valid
  unfold Float.ofBits Float.toBits Float.Model.ofBits Float.Model.pack
  simp only [hpack]

theorem ofMagnitude_magnitudeBits (x : Float) : ofMagnitude (isNegative x) (magnitudeBits x) = x := by
  have hlt : x.toBits.toNat < 2 ^ 64 := x.toBits.toNat_lt
  have hsign : signBit = 2 ^ 63 := rfl
  have hbits : (if isNegative x = true then signBit + magnitudeBits x else magnitudeBits x) = x.toBits.toNat := by
    unfold isNegative magnitudeBits
    simp only [hsign, decide_eq_true_iff]
    split
    · omega
    · omega
  unfold ofMagnitude
  rw [hbits, UInt64.ofNat_toNat, ofBits_toBits]

theorem magnitudeBits_lt {x : Float} (hx : x.isFinite = true) : magnitudeBits x < double.infinity := by
  have hall : @unpackExponent .binary64 x.toBits.toBitVec ≠ -1#11 := by
    intro hall
    have hfinite : (UnpackedFloat.unpack .binary64 x.toBits.toBitVec).isFinite = true := hx
    unfold UnpackedFloat.unpack at hfinite
    simp only [hall, ↓reduceIte] at hfinite
    split at hfinite
    · cases hfinite
    · cases hfinite
  have hexponent : x.toBits.toNat / 2 ^ 52 % 2 ^ 11 ≠ 2047 := by
    intro hnat
    apply hall
    apply BitVec.eq_of_toNat_eq
    rw [toNat_unpackExponent]
    exact hnat
  have hsign : signBit = 2 ^ 63 := rfl
  have hinfinity : double.infinity = 2047 * 2 ^ 52 := rfl
  unfold magnitudeBits
  rw [hsign, hinfinity]
  omega

end WorkloadAtlas.Number
