import Mathlib
import WorkloadAtlas.Histogram
/-!
What a histogram counts. The counts are folded over the values, and for each bin the fold has at every time the number of
the values seen so far that lie within the range and have the index of the bin. An index is cut off at the last bin,
whatever the quotient is that it comes from, so no value within the range is lost.
-/

namespace WorkloadAtlas

/-- Two bins over one interval as one. -/
def Bin.merge (a b : Bin) : Bin :=
  ⟨a.start, a.count + b.count⟩

namespace Histogram

variable {min max width value : Float} {bins i : Nat}

/-- The value lies within the range and has the index of the bin. -/
def falls (min max width : Float) (bins i : Nat) (value : Float) : Bool :=
  (min ≤ value && value ≤ max) && index min width bins value == i

/-- What one value does to the counts. -/
def counted (min max width : Float) (bins : Nat) (counts : Array Nat) (value : Float) : Array Nat :=
  if min ≤ value && value ≤ max then counts.modify (index min width bins value) (· + 1) else counts

theorem counts_eq_foldl (values : List Float) :
    counts values min max width bins = values.foldl (counted min max width bins) (Array.replicate bins 0) := rfl

theorem index_lt (hbins : 0 < bins) (min width value : Float) : index min width bins value < bins :=
  (Nat.min_le_right _ _).trans_lt (Nat.sub_one_lt hbins.ne')

section Fold

variable (tallies : Array Nat)

@[simp]
theorem size_counted : (counted min max width bins tallies value).size = tallies.size := by
  unfold counted
  split
  · exact Array.size_modify
  · rfl

/-- One value is counted in the bin that it falls into, and nowhere else. -/
theorem getElem?_counted : (counted min max width bins tallies value)[i]? =
    tallies[i]?.map (· + if falls min max width bins i value then 1 else 0) := by
  unfold counted falls
  cases min ≤ value && value ≤ max with
  | false => exact Option.map_id'.symm
  | true =>
    rw [if_pos rfl, Array.getElem?_modify, Bool.true_and]
    by_cases hindex : index min width bins value = i
    · rw [if_pos hindex, if_pos (beq_iff_eq.2 hindex)]
    · rw [if_neg hindex, if_neg (mt beq_iff_eq.1 hindex)]
      exact Option.map_id'.symm

theorem size_foldl (values : List Float) :
    (values.foldl (counted min max width bins) tallies).size = tallies.size := by
  induction values generalizing tallies with
  | nil => rfl
  | cons value values ih => rw [List.foldl_cons, ih, size_counted]

theorem getElem?_foldl (values : List Float) : (values.foldl (counted min max width bins) tallies)[i]? =
    tallies[i]?.map (· + values.countP (falls min max width bins i)) := by
  induction values generalizing tallies with
  | nil => exact Option.map_id'.symm
  | cons value values ih =>
    rw [List.foldl_cons, ih, getElem?_counted, Option.map_map, List.countP_cons]
    congr 1
    funext n
    simp only [Function.comp_apply]
    omega

end Fold

theorem size_counts (values : List Float) : (counts values min max width bins).size = bins := by
  rw [counts_eq_foldl, size_foldl, Array.size_replicate]

/-- How many of the values fall into each bin. -/
theorem toList_counts (values : List Float) : (counts values min max width bins).toList =
    (List.range bins).map fun i => values.countP (falls min max width bins i) := by
  apply List.ext_getElem?
  intro i
  rw [Array.getElem?_toList, counts_eq_foldl, getElem?_foldl, List.getElem?_map]
  by_cases hi : i < bins
  · rw [Array.getElem?_replicate, if_pos hi, List.getElem?_range hi, Option.map_some, Option.map_some, Nat.zero_add]
  · rw [Array.getElem?_replicate, if_neg hi, List.getElem?_eq_none (by rw [List.length_range]; omega)]
    rfl

/-- A value within the range falls into one of the bins, and any other value into none. -/
theorem sum_falls (hbins : 0 < bins) (value : Float) :
    ((List.range bins).map fun i => if falls min max width bins i value then 1 else 0).sum =
      if min ≤ value && value ≤ max then 1 else 0 := by
  unfold falls
  cases min ≤ value && value ≤ max with
  | false =>
    simp only [Bool.false_and, Bool.false_eq_true, ↓reduceIte, List.map_const', List.sum_replicate, smul_zero]
  | true =>
    have hmem := Finset.mem_range.2 (index_lt hbins min width value)
    simp only [Bool.true_and, beq_iff_eq, ↓reduceIte]
    rw [← List.sum_toFinset _ List.nodup_range, List.toFinset_range, Finset.sum_ite_eq, if_pos hmem]

theorem sum_countP (hbins : 0 < bins) (values : List Float) :
    ((List.range bins).map fun i => values.countP (falls min max width bins i)).sum =
      values.countP fun v => min ≤ v && v ≤ max := by
  induction values with
  | nil => simp only [List.countP_nil, List.map_const', List.sum_replicate, smul_zero]
  | cons value values ih =>
    simp only [List.countP_cons, List.sum_map_add]
    rw [ih, sum_falls hbins]

/-- Each bin, by its start and by the values that fall into it. -/
theorem ofValues_eq (hbins : 0 < bins) (hrange : ¬ max ≤ min) (values : List Float) : ofValues values min max bins =
    (List.range bins).map fun i => ⟨min + Float.ofNat i * ((max - min) / Float.ofNat bins),
      values.countP (falls min max ((max - min) / Float.ofNat bins) bins i)⟩ := by
  have hsome : ¬ (bins = 0 ∨ max ≤ min) := not_or.2 ⟨hbins.ne', hrange⟩
  rw [ofValues, if_neg hsome]
  simp only [toList_counts]
  apply List.ext_getElem?
  intro i
  rw [List.getElem?_mapIdx, List.getElem?_map, List.getElem?_map, Option.map_map]
  by_cases hi : i < bins
  · rw [List.getElem?_range hi, Option.map_some, Option.map_some, Function.comp_apply]
  · rw [List.getElem?_eq_none (by rw [List.length_range]; omega), Option.map_none, Option.map_none]

/-- The value is counted in the bin: with it the bin counts one more, and the others count what they count without it. -/
structure CountedIn (min max : Float) (bins : Nat) (value : Float) (i : Nat) : Prop where
  lt : i < bins
  counted : ∀ values, ofValues (value :: values) min max bins =
    (ofValues values min max bins).modify i fun bin => ⟨bin.start, bin.count + 1⟩

theorem countedIn_iff (hbins : 0 < bins) (hrange : ¬ max ≤ min) : CountedIn min max bins value i ↔
    (min ≤ value ∧ value ≤ max) ∧ index min ((max - min) / Float.ofNat bins) bins value = i := by
  have hfalls (j : Nat) : falls min max ((max - min) / Float.ofNat bins) bins j value = true ↔
      (min ≤ value ∧ value ≤ max) ∧ index min ((max - min) / Float.ofNat bins) bins value = j := by
    rw [falls, Bool.and_eq_true, Bool.and_eq_true, decide_eq_true_iff, decide_eq_true_iff, beq_iff_eq]
  constructor
  · intro h
    have hentry := congrArg (·[i]?) (h.counted [])
    simp only [ofValues_eq hbins hrange, List.getElem?_modify, List.getElem?_map, List.getElem?_range h.lt, ↓reduceIte,
      Option.map_some, Option.map_eq_map, Option.some_inj, Bin.mk.injEq, List.countP_nil, List.countP_cons,
      Nat.zero_add] at hentry
    rw [← hfalls]
    by_contra hout
    rw [if_neg hout] at hentry
    exact absurd hentry.2 Nat.zero_ne_one
  · rintro ⟨hwithin, rfl⟩
    refine ⟨index_lt hbins .., fun values => List.ext_getElem? fun j => ?_⟩
    simp only [ofValues_eq hbins hrange, List.getElem?_modify, List.getElem?_map, List.countP_cons, hfalls]
    by_cases hj : j < bins
    · simp only [List.getElem?_range hj, Option.map_some, Option.map_eq_map, hwithin, and_self, true_and]
      split <;> rfl
    · rw [List.getElem?_eq_none (by rw [List.length_range]; omega), Option.map_none, Option.map_none]
      rfl

/-- Nothing is lost and nothing is invented: a histogram has all its bins, every value within the range is counted in one
of them, at an index that the counts have at that time, and none of the others is. What two lists are counted to is
added bin by bin, over the same starts, and the order of the values does not matter. No value needs to be finite, and
neither does the width of the bins. -/
theorem ofValues_conserves {min max : Float} {bins : Nat} (hbins : 0 < bins) (hrange : ¬ max ≤ min)
    (values : List Float) :
    (ofValues values min max bins).length = bins ∧
    ((ofValues values min max bins).map (·.count)).sum = values.countP (fun v => min ≤ v && v ≤ max) ∧
    (∀ seen v later, values = seen ++ v :: later →
      index min ((max - min) / Float.ofNat bins) bins v <
        (counts seen min max ((max - min) / Float.ofNat bins) bins).size) ∧
    (∀ more, (ofValues more min max bins).map (·.start) = (ofValues values min max bins).map (·.start) ∧
      ofValues (values ++ more) min max bins =
        List.zipWith Bin.merge (ofValues values min max bins) (ofValues more min max bins)) ∧
    ∀ other, values.Perm other → ofValues other min max bins = ofValues values min max bins := by
  simp only [ofValues_eq hbins hrange, List.map_map]
  refine ⟨?_, ?_, ?_, ?_, ?_⟩
  · rw [List.length_map, List.length_range]
  · exact sum_countP hbins values
  · intro seen v later _
    rw [size_counts]
    exact index_lt hbins ..
  · intro more
    refine ⟨rfl, ?_⟩
    rw [List.zipWith_map, List.zipWith_self]
    simp only [Bin.merge, List.countP_append]
  · intro other hperm
    simp only [hperm.countP_eq]

/-- A range whose length overflows, and values of which only its two ends lie within it. -/
theorem ofValues_conserves_overflow : 0 < 2 ∧ ¬ Float.ofBits 0x7FE1CCF385EBC8A0 ≤ Float.ofBits 0xFFE1CCF385EBC8A0 ∧
    ((ofValues [Float.ofBits 0x7FF8000000000000, Float.ofBits 0xFFE1CCF385EBC8A0, Float.ofBits 0x7FF0000000000000,
      Float.ofBits 0x7FE1CCF385EBC8A0] (Float.ofBits 0xFFE1CCF385EBC8A0) (Float.ofBits 0x7FE1CCF385EBC8A0) 2).map
      (·.count)).sum = 2 := by
  have hrange : ¬ Float.ofBits 0x7FE1CCF385EBC8A0 ≤ Float.ofBits 0xFFE1CCF385EBC8A0 := by decide +kernel
  refine ⟨by decide, hrange, ?_⟩
  exact (ofValues_conserves (by decide) hrange [Float.ofBits 0x7FF8000000000000, Float.ofBits 0xFFE1CCF385EBC8A0,
    Float.ofBits 0x7FF0000000000000, Float.ofBits 0x7FE1CCF385EBC8A0]).2.1.trans (by decide +kernel)

end Histogram

end WorkloadAtlas
