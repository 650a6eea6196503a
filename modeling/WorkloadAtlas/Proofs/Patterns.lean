import Mathlib
import WorkloadAtlas.Pattern
import WorkloadAtlas.Proofs.Encoding
/-!
The total order on patterns. It tells all of them apart, those that are no number as well, so a list of patterns has
one arrangement that ascends, whatever way it is sorted. Doubles stand in the order of their patterns.
-/

namespace WorkloadAtlas

namespace Pattern

section Key

/-- Shifted down with its sign, a word is all sign. -/
theorem sshiftRight_sign (bits : BitVec 64) :
    bits.sshiftRight 63 = if bits.msb then BitVec.allOnes 64 else 0 := by
  have hlow := bits.two_mul_toInt_lt
  have hhigh := bits.le_two_mul_toInt
  rw [BitVec.sshiftRight_eq, Int.shiftRight_eq_div_pow, BitVec.msb_eq_toInt]
  by_cases hneg : bits.toInt < 0
  · have hsign : bits.toInt / (2 ^ 63 : Nat) = -1 := by omega
    rw [hsign, decide_eq_true hneg]
    rfl
  · have hsign : bits.toInt / (2 ^ 63 : Nat) = 0 := by omega
    rw [hsign, decide_eq_false hneg]
    rfl

theorem toBitVec_key (v : UInt64) :
    (key v).toBitVec = v.toBitVec ^^^ (v.toBitVec.sshiftRight 63 >>> 1) := rfl

/-- Flipped behind its sign, a word counts downwards from minus one. -/
theorem toInt_xor_of_msb {bits : BitVec 64} (h : bits.msb = true) :
    (bits ^^^ BitVec.allOnes 64 >>> 1).toInt = -((bits.toNat % 2 ^ 63 : Nat) : Int) - 1 := by
  -- The mask leaves the sign alone, so the word is taken apart behind it.
  have hmask : BitVec.allOnes 64 >>> 1 = BitVec.cons false (BitVec.allOnes 63) := rfl
  have hflipped : bits ^^^ BitVec.allOnes 64 >>> 1 = BitVec.cons true (~~~ bits.setWidth 63) := by
    conv_lhs => rw [hmask, ← BitVec.cons_msb_setWidth bits, BitVec.cons_xor_cons, h, BitVec.xor_allOnes]
    rfl
  have hone : (true.toNat <<< 63 : Nat) = 2 ^ 63 := rfl
  rw [hflipped, BitVec.toInt_eq_msb_cond, BitVec.msb_cons, if_pos rfl, BitVec.toNat_cons', BitVec.toNat_not,
    BitVec.toNat_setWidth, hone]
  omega

/-- Keys count downwards from minus one behind a sign, and upwards from zero without it. -/
theorem toInt_key (v : UInt64) : (key v).toInt =
    if Number.signBit ≤ v.toNat then -((v.toNat % Number.signBit : Nat) : Int) - 1
    else (v.toNat % Number.signBit : Nat) := by
  have hmsb : v.toBitVec.msb = decide (2 ^ 63 ≤ v.toNat) := BitVec.msb_eq_decide v.toBitVec
  have hbit : Number.signBit = 2 ^ 63 := rfl
  rw [← Int64.toInt_toBitVec, toBitVec_key, sshiftRight_sign, hbit]
  split
  · next h =>
    rw [toInt_xor_of_msb h, if_pos (of_decide_eq_true (hmsb.symm.trans h))]
    rfl
  · next h =>
    have hlt : v.toNat < 2 ^ 63 := by
      rw [hmsb] at h
      simpa using h
    have hzero : v.toBitVec ^^^ (0 : BitVec 64) >>> 1 = v.toBitVec := BitVec.xor_zero
    rw [hzero, BitVec.toInt_eq_msb_cond, if_neg h, if_neg hlt.not_ge, Nat.mod_eq_of_lt hlt]
    rfl

theorem key_injective : Function.Injective key := by
  intro v w h
  have hint := congrArg Int64.toInt h
  have hbit : Number.signBit = 2 ^ 63 := rfl
  have hv := v.toNat_lt
  have hw := w.toNat_lt
  rw [toInt_key, toInt_key, hbit] at hint
  apply UInt64.toNat_inj.1
  split at hint <;> split at hint <;> omega

end Key

instance : Std.TransCmp order :=
  inferInstanceAs (Std.TransCmp (compareOn key))

instance : Std.LawfulEqCmp order where
  eq_of_compare h := key_injective (Std.LawfulEqCmp.eq_of_compare h)

theorem order_antisymm {v w : UInt64} (hvw : (order v w).isLE = true) (hwv : (order w v).isLE = true) : v = w :=
  Std.LawfulEqCmp.eq_of_compare (Std.OrientedCmp.isLE_antisymm hvw hwv)

theorem order_total (v w : UInt64) : ((order v w).isLE || (order w v).isLE) = true := by
  have hswap : order w v = (order v w).swap := Std.OrientedCmp.eq_swap
  rw [hswap]
  cases order v w <;> rfl

/-- A list with the members of another one, in the total order. -/
structure IsAscending (given sorted : List UInt64) : Prop where
  perm : sorted.Perm given
  pairwise : sorted.Pairwise fun v w => (order v w).isLE = true

section Ascending

variable {given other sorted : List UInt64}

theorem isAscending_ascending (given : List UInt64) : IsAscending given (ascending given) :=
  ⟨given.mergeSort_perm _, List.pairwise_mergeSort (fun _ _ _ => Std.TransCmp.isLE_trans) order_total given⟩

theorem IsAscending.unique {sorted' : List UInt64} (h : IsAscending given sorted) (h' : IsAscending given sorted') :
    sorted = sorted' :=
  (h.perm.trans h'.perm.symm).eq_of_pairwise (fun _ _ _ _ => order_antisymm) h.pairwise h'.pairwise

theorem isAscending_iff : IsAscending given sorted ↔ sorted = ascending given := by
  constructor
  · intro h
    exact h.unique (isAscending_ascending given)
  · rintro rfl
    exact isAscending_ascending given

theorem ascending_of_perm (h : other.Perm given) : ascending other = ascending given := by
  have hother := isAscending_ascending other
  exact isAscending_iff.1 ⟨hother.perm.trans h, hother.pairwise⟩

theorem ascending_of_pairwise (h : sorted.Pairwise fun v w => (order v w).isLE = true) : ascending sorted = sorted :=
  (isAscending_iff.1 ⟨.refl sorted, h⟩).symm

end Ascending

end Pattern

namespace Number

theorem toBits_injective : Function.Injective Float.toBits := by
  intro x y h
  rw [← ofBits_toBits x, ← ofBits_toBits y, h]

theorem rank_eq_key (x : Float) : rank x = (Pattern.key x.toBits).toInt := by
  rw [Pattern.toInt_key]
  unfold rank isNegative magnitudeBits
  simp only [decide_eq_true_iff]

theorem precedes_eq_isLE (x y : Float) : precedes x y = (Pattern.order x.toBits y.toBits).isLE := by
  rw [Bool.eq_iff_iff, precedes, rank_eq_key, rank_eq_key, decide_eq_true_iff, ← Int64.le_iff_toInt_le]
  exact Std.isLE_compare.symm

/-- The total order tells all doubles apart. -/
theorem precedes_antisymm {x y : Float} (hxy : precedes x y = true) (hyx : precedes y x = true) : x = y := by
  rw [precedes_eq_isLE] at hxy hyx
  exact toBits_injective (Pattern.order_antisymm hxy hyx)

theorem map_toBits_ascending (values : List Float) :
    (ascending values).map Float.toBits = Pattern.ascending (values.map Float.toBits) :=
  List.map_mergeSort fun x _ y _ => precedes_eq_isLE x y

theorem ascending_of_perm {values other : List Float} (h : other.Perm values) : ascending other = ascending values := by
  apply toBits_injective.list_map
  rw [map_toBits_ascending, map_toBits_ascending, Pattern.ascending_of_perm (h.map Float.toBits)]

end Number

end WorkloadAtlas
