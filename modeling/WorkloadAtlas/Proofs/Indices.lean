import WorkloadAtlas.Proofs.Monotony
import WorkloadAtlas.Proofs.Ranks
/-!
The two indices of a level. They are the whole numbers next to its rank, which is rounded twice but never past the last
index, so both are those of values, whatever the values are.
-/

namespace WorkloadAtlas.Quantile

open Number

/-- The rank of a level among sorted values. -/
def rankAmong (sorted : List Float) (level : Float) : Float :=
  rank level (Float.ofNat (sorted.length - 1))

/-- What is interpolated for a level stands at two neighbouring indices of values, or at one. -/
structure Placed (sorted : List Float) (level : Float) : Prop where
  below_eq : below (rankAmong sorted level) = ⌊Number.value (rankAmong sorted level)⌋₊
  above_eq : above (rankAmong sorted level) = ⌈Number.value (rankAmong sorted level)⌉₊
  below_le : below (rankAmong sorted level) ≤ above (rankAmong sorted level)
  above_le : above (rankAmong sorted level) ≤ below (rankAmong sorted level) + 1
  above_lt : above (rankAmong sorted level) < sorted.length
  interpolated : valueAt sorted level =
    sorted.get ⟨below (rankAmong sorted level), below_le.trans_lt above_lt⟩ +
      (sorted.get ⟨above (rankAmong sorted level), above_lt⟩ -
          sorted.get ⟨below (rankAmong sorted level), below_le.trans_lt above_lt⟩) *
        (rankAmong sorted level - Float.ofNat (below (rankAmong sorted level)))

section Level

variable {level : Float} {last : Nat}

/-- The index above is one further exactly if the rank is no index itself. -/
theorem above_eq_ceil (h : isLevel level = true) (hlast : last < 2 ^ 53) :
    above (rank level (Float.ofNat last)) = ⌈Number.value (rank level (Float.ofNat last))⌉₊ := by
  obtain ⟨hle, hlow, hhigh⟩ := below_bounds h hlast
  have hfinite := (rank_bounds h hlast).1
  obtain ⟨hindex, hvalue⟩ := value_ofNat (hle.trans_lt hlast)
  have hlt := lt_iff_value hindex hfinite
  rw [hvalue] at hlt
  generalize rank level (Float.ofNat last) = r at *
  by_cases hpassed : Float.ofNat (below r) < r
  · rw [above, if_pos hpassed]
    refine ((Nat.ceil_eq_iff (Nat.succ_ne_zero _)).2 ⟨?_, ?_⟩).symm
    · rw [Nat.succ_sub_one]
      exact hlt.1 hpassed
    · rw [Nat.cast_add_one]
      exact hhigh.le
  · rw [above, if_neg hpassed, ← hlow.antisymm (not_lt.1 (mt hlt.2 hpassed)), Nat.ceil_natCast]

theorem above_le_last (h : isLevel level = true) (hlast : last < 2 ^ 53) :
    above (rank level (Float.ofNat last)) ≤ last := by
  rw [above_eq_ceil h hlast]
  exact Nat.ceil_le.2 (rank_bounds h hlast).2.2

end Level

theorem placed {sorted : List Float} {level : Float} (hne : sorted ≠ []) (hcount : sorted.length ≤ 2 ^ 53)
    (h : isLevel level = true) : Placed sorted level := by
  have hlength : 0 < sorted.length := List.length_pos_iff.2 hne
  have hlast : sorted.length - 1 < 2 ^ 53 := by omega
  have hbelow := below_eq_floor h hlast
  have habove := above_eq_ceil h hlast
  have hle : below (rankAmong sorted level) ≤ above (rankAmong sorted level) := by
    rw [rankAmong, hbelow, habove]
    exact Nat.floor_le_ceil _
  have hlt : above (rankAmong sorted level) < sorted.length := by
    have := above_le_last h hlast
    unfold rankAmong
    omega
  refine ⟨hbelow, habove, hle, ?_, hlt, ?_⟩
  · rw [rankAmong, hbelow, habove]
    exact Nat.ceil_le_floor_add_one _
  · have hlow := List.getD_eq_getElem sorted 0.0 (hle.trans_lt hlt)
    have hhigh := List.getD_eq_getElem sorted 0.0 hlt
    unfold rankAmong at hlow hhigh
    rw [valueAt, hlow, hhigh]
    rfl

-- Beyond so many values their count is itself rounded, and the last level comes to an index past the last one.
example : below (rank 100.0 (Float.ofNat (2 ^ 53 + 3))) = 2 ^ 53 + 4 := by
  decide +kernel

/-- The quantiles of values, none of which need be a number, look up none but these: for each level the indices are the
floor and the ceiling of its rank, which are at most one apart and not past the last index. -/
theorem ofValues_placed {values : List Float} (hne : values ≠ []) (hcount : values.length ≤ 2 ^ 53) (levels : Levels) :
    ofValues values levels =
        levels.toList.map (fun level => ⟨level, valueAt (Number.ascending values) level⟩) ∧
      (Number.ascending values).length = values.length ∧
      ∀ level ∈ levels.toList, Placed (Number.ascending values) level := by
  have hlength : (Number.ascending values).length = values.length := List.length_mergeSort _
  refine ⟨?_, hlength, ?_⟩
  · rw [ofValues, List.isEmpty_eq_false_iff.2 hne]
    rfl
  · intro level hlevel
    refine placed ?_ (hlength.trans_le hcount) (levels.within level hlevel)
    rw [← List.length_pos_iff, hlength]
    exact List.length_pos_iff.2 hne

/-- Among three values, one of which is no number, a quarter of the way lies between the first two. -/
theorem ofValues_placed_quarter :
    Placed (Number.ascending [0.0, 1.0, Float.ofBits 0x7FF8000000000000]) 25.0 :=
  (ofValues_placed (List.cons_ne_nil _ _) (by simp) .quartiles).2.2 _ (.tail _ (.head _))

end WorkloadAtlas.Quantile
