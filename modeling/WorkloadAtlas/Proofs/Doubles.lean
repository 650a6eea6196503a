import Mathlib
import WorkloadAtlas.Number.Binary
import WorkloadAtlas.Stats
/-!
The comparison of doubles. Without the values that are no number it is a linear order, and neither the difference of
finite values nor an absolute value leaves it. The least and the greatest value of a list are bounds of the list
under this order.
-/

namespace WorkloadAtlas.Number

open Float.Model (UnpackedFloat)
open Float.Model.UnpackedFloat (Sign)

/-- The place of an unpacked double among all. Its sign and whether it is infinite count first, then the exponent
and then the mantissa; both count downwards below zero. -/
def place : UnpackedFloat → ℤ ×ₗ ℤ ×ₗ ℤ
  | .infinity .negative => toLex (-2, toLex (0, 0))
  | .finite .negative m e _ => toLex (-1, toLex (-e, -m))
  | .zero _ | .notANumber => toLex (0, toLex (0, 0))
  | .finite .positive m e _ => toLex (1, toLex (e, m))
  | .infinity .positive => toLex (2, toLex (0, 0))

theorem compare_neg (a b : ℤ) : compare (-a) (-b) = compare b a := by
  rw [← cmp_eq_compare, ← cmp_eq_compare]
  exact StrictAnti.cmp_map_eq (fun _ _ => Int.neg_lt_neg) a b

theorem compare_cast (m n : ℕ) : compare (m : ℤ) n = compare m n := by
  rw [← cmp_eq_compare, ← cmp_eq_compare]
  exact StrictMono.cmp_map_eq (fun _ _ => Int.ofNat_lt.2) m n

theorem compare_eq_place {a b : UnpackedFloat} (ha : a ≠ .notANumber) (hb : b ≠ .notANumber) :
    a.compare b = some (compare (place a) (place b)) := by
  -- Unless both are finite of one sign, the first component alone decides.
  rcases a with ⟨⟨⟩⟩ | - | ⟨⟨⟩⟩ | ⟨⟨⟩, m, e, -⟩ <;> rcases b with ⟨⟨⟩⟩ | - | ⟨⟨⟩⟩ | ⟨⟨⟩, m', e', -⟩
  all_goals first | contradiction | skip
  all_goals try rfl
  · simp only [UnpackedFloat.compare, place, Prod.Lex.compare_def, compareLex, compareOn, ofLex_toLex, compare_neg,
      compare_cast, Ordering.swap_then, Int.compare_swap, Nat.compare_swap]
    rfl
  · simp only [UnpackedFloat.compare, place, Prod.Lex.compare_def, compareLex, compareOn, ofLex_toLex, compare_cast]
    rfl

/-- Only bits with the greatest exponent and a mantissa stand for no number. -/
theorem unpack_ne {spec : Float.Model.Format} {bits : BitVec spec.numBits}
    (h : UnpackedFloat.unpackExponent bits = -1#_ → UnpackedFloat.unpackMantissa bits = 0#_) :
    UnpackedFloat.unpack spec bits ≠ .notANumber := by
  fun_cases UnpackedFloat.unpack spec bits with
  | case1 mantissa exponent hexponent hmantissa => exact UnpackedFloat.noConfusion
  | case2 mantissa exponent hexponent hmantissa => exact absurd (h hexponent) hmantissa
  | case3 mantissa exponent hexponent hzero hmantissa => exact UnpackedFloat.noConfusion
  | case4 mantissa exponent _ hexponent hzero hmantissa => exact UnpackedFloat.noConfusion
  | case5 mantissa exponent hexponent hzero => exact UnpackedFloat.noConfusion

theorem unpack_pack_ne {a : UnpackedFloat} (ha : a ≠ .notANumber) :
    (Float.Model.pack a).unpack ≠ .notANumber := by
  apply unpack_ne
  change UnpackedFloat.unpackExponent (UnpackedFloat.pack Float.Model.Format.binary64 a) = _ →
    UnpackedFloat.unpackMantissa (UnpackedFloat.pack Float.Model.Format.binary64 a) = _
  fun_cases UnpackedFloat.pack Float.Model.Format.binary64 a with
  | case1 => contradiction
  | case2 s => simp [UnpackedFloat.packedInfinity]
  | case3 s => simp [UnpackedFloat.packedZero]
  | case4 s m e hm biased h => simp [UnpackedFloat.packedInfinity]
  | case5 s m e hm bits biased h hbits =>
    rw [UnpackedFloat.unpackExponent_packComponents]
    intro hall
    have hnat : biased % 2048 = 2047 := congrArg BitVec.toNat hall
    have hpow : 2 ^ Float.Model.Format.binary64.exponentBits = 2048 := rfl
    omega
  | case6 s m e hm bits biased h hbits => simp

section Order

variable {x y z : Float}

theorem isNaN_eq_false_iff : x.isNaN = false ↔ x.toModel.unpack ≠ .notANumber := by
  unfold Float.isNaN Float.Model.isNaN
  cases x.toModel.unpack <;> simp [UnpackedFloat.isNaN]

theorem isNaN_of_isFinite (h : x.isFinite = true) : x.isNaN = false := by
  rw [isNaN_eq_false_iff]
  intro hnan
  unfold Float.isFinite Float.Model.isFinite at h
  rw [hnan] at h
  cases h

theorem lt_iff_place (hx : x.isNaN = false) (hy : y.isNaN = false) :
    x < y ↔ place x.toModel.unpack < place y.toModel.unpack := by
  rw [isNaN_eq_false_iff] at hx hy
  have hlt : x < y ↔ x.toModel.unpack.lt y.toModel.unpack = true := decide_eq_true_iff
  rw [hlt, UnpackedFloat.lt, compare_eq_place hx hy, beq_iff_eq, Option.some_inj, compare_lt_iff_lt]

theorem le_iff_place (hx : x.isNaN = false) (hy : y.isNaN = false) :
    x ≤ y ↔ place x.toModel.unpack ≤ place y.toModel.unpack := by
  rw [isNaN_eq_false_iff] at hx hy
  have hle : x ≤ y ↔ x.toModel.unpack.le y.toModel.unpack = true := decide_eq_true_iff
  rw [hle, UnpackedFloat.le, compare_eq_place hx hy, Option.any_some, Ordering.isLE_iff_ne_gt, ← compare_le_iff_le]

theorem le_of_not_lt (hx : x.isNaN = false) (hy : y.isNaN = false) (h : ¬ x < y) : y ≤ x := by
  rw [lt_iff_place hx hy] at h
  rw [le_iff_place hy hx]
  exact not_lt.1 h

theorem le_of_lt (hx : x.isNaN = false) (hy : y.isNaN = false) (h : x < y) : x ≤ y := by
  rw [lt_iff_place hx hy] at h
  rw [le_iff_place hx hy]
  exact Std.le_of_lt h

theorem le_trans (hx : x.isNaN = false) (hy : y.isNaN = false) (hz : z.isNaN = false) (hxy : x ≤ y) (hyz : y ≤ z) :
    x ≤ z := by
  rw [le_iff_place hx hy] at hxy
  rw [le_iff_place hy hz] at hyz
  rw [le_iff_place hx hz]
  exact hxy.trans hyz

theorem le_refl (hx : x.isNaN = false) : x ≤ x := by
  rw [le_iff_place hx hx]

theorem beq_iff_place (hx : x.isNaN = false) (hy : y.isNaN = false) :
    (x == y) = true ↔ place x.toModel.unpack = place y.toModel.unpack := by
  rw [isNaN_eq_false_iff] at hx hy
  have hbeq : (x == y) = x.toModel.unpack.beq y.toModel.unpack := rfl
  rw [hbeq, UnpackedFloat.beq, compare_eq_place hx hy, beq_iff_eq, Option.some_inj, compare_eq_iff_eq]

theorem beq_refl (hx : x.isNaN = false) : (x == x) = true :=
  (beq_iff_place hx hx).2 rfl

theorem beq_trans (hx : x.isNaN = false) (hy : y.isNaN = false) (hz : z.isNaN = false) (hxy : (x == y) = true)
    (hyz : (y == z) = true) : (x == z) = true := by
  rw [beq_iff_place hx hy] at hxy
  rw [beq_iff_place hy hz] at hyz
  rw [beq_iff_place hx hz]
  exact hxy.trans hyz

theorem beq_of_le_of_le (hx : x.isNaN = false) (hy : y.isNaN = false) (hxy : x ≤ y) (hyx : y ≤ x) :
    (x == y) = true := by
  rw [le_iff_place hx hy] at hxy
  rw [le_iff_place hy hx] at hyx
  rw [beq_iff_place hx hy]
  exact le_antisymm hxy hyx

theorem place_bounds (a : UnpackedFloat) :
    place (.infinity .negative) ≤ place a ∧ place a ≤ place (.infinity .positive) := by
  rcases a with ⟨⟨⟩⟩ | - | ⟨⟨⟩⟩ | ⟨⟨⟩, m, e, -⟩
  all_goals simp [place, Prod.Lex.toLex_le_toLex]

theorem infinity_isNaN : (Float.ofBits 0x7FF0000000000000).isNaN = false ∧
    (Float.ofBits 0xFFF0000000000000).isNaN = false ∧ (0.0 : Float).isNaN = false := by
  decide

theorem le_infinity (hx : x.isNaN = false) : x ≤ Float.ofBits 0x7FF0000000000000 := by
  rw [le_iff_place hx infinity_isNaN.1]
  exact (place_bounds _).2

theorem infinity_le (hx : x.isNaN = false) : Float.ofBits 0xFFF0000000000000 ≤ x := by
  rw [le_iff_place infinity_isNaN.2.1 hx]
  exact (place_bounds _).1

end Order

theorem round_ne (spec : Float.Model.Format) (sign : Sign) (mantissa : ℕ) (exponent : ℤ) :
    UnpackedFloat.round spec sign mantissa exponent ≠ .notANumber := by
  unfold UnpackedFloat.round UnpackedFloat.roundWithAccuracy
  simp only
  split
  · exact UnpackedFloat.noConfusion
  · exact UnpackedFloat.noConfusion

theorem normalize_ne (spec : Float.Model.Format) (mantissa exponent : ℤ) (sign : Sign) :
    UnpackedFloat.normalize spec mantissa exponent sign ≠ .notANumber := by
  unfold UnpackedFloat.normalize
  split
  · exact round_ne _ _ _ _
  · exact UnpackedFloat.noConfusion
  · exact round_ne _ _ _ _

theorem isNaN_sub {x y : Float} (hx : x.isFinite = true) (hy : y.isFinite = true) : (x - y).isNaN = false := by
  rw [isNaN_eq_false_iff]
  apply unpack_pack_ne
  unfold Float.isFinite Float.Model.isFinite at hx hy
  generalize x.toModel.unpack = a at hx ⊢
  generalize y.toModel.unpack = b at hy ⊢
  cases a with
  | infinity s => cases hx
  | notANumber => cases hx
  | zero s =>
    cases b with
    | infinity s' => cases hy
    | notANumber => cases hy
    | zero s' =>
      simp only [UnpackedFloat.sub]
      split
      · exact UnpackedFloat.noConfusion
      · exact UnpackedFloat.noConfusion
    | finite s' m' e' hm' => exact UnpackedFloat.noConfusion
  | finite s m e hm =>
    cases b with
    | infinity s' => cases hy
    | notANumber => cases hy
    | zero s' => exact UnpackedFloat.noConfusion
    | finite s' m' e' hm' => exact normalize_ne _ _ _ _

theorem isNaN_abs {x : Float} (hx : x.isNaN = false) : x.abs.isNaN = false := by
  rw [isNaN_eq_false_iff] at hx ⊢
  apply unpack_pack_ne
  cases h : x.toModel.unpack with
  | notANumber => exact absurd h hx
  | infinity s => exact UnpackedFloat.noConfusion
  | zero s => exact UnpackedFloat.noConfusion
  | finite s m e hm => exact UnpackedFloat.noConfusion

theorem zero_le_place_abs (a : UnpackedFloat) : place (.zero .positive) ≤ place a.abs := by
  cases a with
  | notANumber => exact le_rfl
  | infinity s => exact (by decide : (toLex (0, toLex (0, 0)) : ℤ ×ₗ ℤ ×ₗ ℤ) ≤ toLex (2, toLex (0, 0)))
  | zero s => exact le_rfl
  | finite s m e hm => exact Prod.Lex.toLex_le_toLex.2 (.inl Int.zero_lt_one)

/-- Bits without a sign stand for a value that is its own absolute value. -/
theorem abs_unpack {spec : Float.Model.Format} {bits : BitVec spec.numBits}
    (hsign : UnpackedFloat.unpackSign bits = Sign.positive.toBitVec) :
    (UnpackedFloat.unpack spec bits).abs = UnpackedFloat.unpack spec bits := by
  have hpositive : Sign.ofBitVec (UnpackedFloat.unpackSign bits) = .positive := by
    rw [hsign]
    rfl
  unfold UnpackedFloat.unpack
  simp only [hpositive]
  split
  · split
    · rfl
    · rfl
  · split
    · split
      · rfl
      · rfl
    · rfl

theorem unpackSign_pack_abs {a : UnpackedFloat} (ha : a ≠ .notANumber) :
    UnpackedFloat.unpackSign (UnpackedFloat.pack Float.Model.Format.binary64 a.abs) = Sign.positive.toBitVec := by
  cases a with
  | notANumber => contradiction
  | infinity s => exact UnpackedFloat.unpackSign_packComponents _ _ _
  | zero s => exact UnpackedFloat.unpackSign_packComponents _ _ _
  | finite s m e hm =>
    unfold UnpackedFloat.abs UnpackedFloat.pack
    simp only
    split
    · exact UnpackedFloat.unpackSign_packComponents _ _ _
    · split
      · exact UnpackedFloat.unpackSign_packComponents _ _ _
      · exact UnpackedFloat.unpackSign_packComponents _ _ _

theorem zero_le_abs {x : Float} (hx : x.isNaN = false) : 0.0 ≤ x.abs := by
  have hunpack : x.abs.toModel.unpack.abs = x.abs.toModel.unpack :=
    abs_unpack (unpackSign_pack_abs (isNaN_eq_false_iff.1 hx))
  rw [le_iff_place infinity_isNaN.2.2 (isNaN_abs hx), ← hunpack]
  exact zero_le_place_abs _

end WorkloadAtlas.Number

namespace WorkloadAtlas.Stats

open Number

/-- A choice of one of two values that stands to both as `r` says. -/
structure Extreme (choice : Float → Float → Float) (r : Float → Float → Prop) : Prop where
  isNaN {x y : Float} : x.isNaN = false → y.isNaN = false → (choice x y).isNaN = false
  left {x y : Float} : x.isNaN = false → y.isNaN = false → r x (choice x y)
  right {x y : Float} : x.isNaN = false → y.isNaN = false → r y (choice x y)
  refl {x : Float} : x.isNaN = false → r x x
  trans {x y z : Float} : x.isNaN = false → y.isNaN = false → z.isNaN = false → r x y → r y z → r x z

theorem extreme_greater : Extreme greater (· ≤ ·) := by
  refine ⟨fun hx hy => ?_, fun {x y} hx hy => ?_, fun {x y} hx hy => ?_, le_refl, le_trans⟩
  · unfold greater
    split <;> assumption
  · by_cases h : x < y
    · rw [greater, if_pos h]
      exact le_of_lt hx hy h
    · rw [greater, if_neg h]
      exact le_refl hx
  · by_cases h : x < y
    · rw [greater, if_pos h]
      exact le_refl hy
    · rw [greater, if_neg h]
      exact le_of_not_lt hx hy h

theorem extreme_lesser : Extreme lesser (· ≥ ·) := by
  refine ⟨fun hx hy => ?_, fun {x y} hx hy => ?_, fun {x y} hx hy => ?_, le_refl,
    fun hx hy hz hxy hyz => le_trans hz hy hx hyz hxy⟩
  · unfold lesser
    split <;> assumption
  · by_cases h : y < x
    · rw [lesser, if_pos h]
      exact le_of_lt hy hx h
    · rw [lesser, if_neg h]
      exact le_refl hx
  · by_cases h : y < x
    · rw [lesser, if_pos h]
      exact le_refl hy
    · rw [lesser, if_neg h]
      exact le_of_not_lt hy hx h

theorem Extreme.foldl {choice : Float → Float → Float} {r : Float → Float → Prop} (h : Extreme choice r)
    {values : List Float} {first : Float} (hfirst : first.isNaN = false) (hvalues : ∀ v ∈ values, v.isNaN = false) :
    (values.foldl choice first).isNaN = false ∧ r first (values.foldl choice first) ∧
      ∀ v ∈ values, r v (values.foldl choice first) := by
  -- The extreme so far is free, and both it and the values before it stand to the next one as `r` says.
  induction values generalizing first with
  | nil => exact ⟨hfirst, h.refl hfirst, fun _ hv => nomatch hv⟩
  | cons value rest ih =>
    have hvalue := hvalues value List.mem_cons_self
    have hnext := h.isNaN hfirst hvalue
    obtain ⟨hnumber, hstart, hrest⟩ := ih hnext fun v hv => hvalues v (List.mem_cons_of_mem _ hv)
    refine ⟨hnumber, h.trans hfirst hnext hnumber (h.left hfirst hvalue) hstart, ?_⟩
    intro v hv
    rcases List.mem_cons.1 hv with rfl | hv
    · exact h.trans hvalue hnext hnumber (h.right hfirst hvalue) hstart
    · exact hrest v hv

theorem lesser_choice (x y : Float) : lesser x y = x ∨ lesser x y = y := by
  unfold lesser
  split
  · exact .inr rfl
  · exact .inl rfl

theorem greater_choice (x y : Float) : greater x y = x ∨ greater x y = y := by
  unfold greater
  split
  · exact .inr rfl
  · exact .inl rfl

theorem foldl_mem {choice : Float → Float → Float} (h : ∀ x y, choice x y = x ∨ choice x y = y)
    (values : List Float) (first : Float) : values.foldl choice first ∈ first :: values := by
  induction values generalizing first with
  | nil => exact List.mem_singleton.2 rfl
  | cons value rest ih =>
    rcases List.mem_cons.1 (ih (choice first value)) with hhead | hrest
    · rw [List.foldl_cons, hhead]
      rcases h first value with heq | heq
      · rw [heq]
        exact List.mem_cons_self
      · rw [heq]
        exact List.mem_cons_of_mem _ List.mem_cons_self
    · exact List.mem_cons_of_mem _ (List.mem_cons_of_mem _ hrest)

end WorkloadAtlas.Stats
