import WorkloadAtlas.Proofs.Patterns
import WorkloadAtlas.Sample
/-!
What is read off a sorted list depends on what is in the list and not on its order: samples with the same values in
another order have the same sorted values, and lists with the same members have the same quantiles, bit by bit.
-/

namespace WorkloadAtlas

/-- Values in another order have the same quantiles. -/
theorem Quantile.ofValues_of_perm {values other : List Float} (h : other.Perm values) (levels : Levels) :
    ofValues other levels = ofValues values levels := by
  unfold ofValues
  rw [h.isEmpty_eq, Number.ascending_of_perm h]

namespace Pattern

/-- The arithmetic of doubles, whose results that are no number all have one pattern. -/
def Arithmetic.ofDoubles : Arithmetic where
  add v w := (Float.ofBits v + Float.ofBits w).toBits
  sub v w := (Float.ofBits v - Float.ofBits w).toBits
  mul v w := (Float.ofBits v * Float.ofBits w).toBits
  ofBits_add _ _ := Number.ofBits_toBits _
  ofBits_sub _ _ := Number.ofBits_toBits _
  ofBits_mul _ _ := Number.ofBits_toBits _

variable (arithmetic : Arithmetic)

theorem quantiles_of_perm {given other : List UInt64} (h : other.Perm given) (levels : Quantile.Levels) :
    quantiles arithmetic other levels = quantiles arithmetic given levels := by
  unfold quantiles
  rw [h.isEmpty_eq, ascending_of_perm h]

/-- Read as doubles, patterns have the quantiles of these. -/
theorem ofBits_quantileAt (sorted : List UInt64) (level : Float) :
    Float.ofBits (quantileAt arithmetic sorted level) = Quantile.valueAt (sorted.map Float.ofBits) level := by
  -- An index past the end gives zero in both lists.
  have hzero : Float.ofBits 0 = 0.0 := by decide
  unfold quantileAt Quantile.valueAt
  simp only [arithmetic.ofBits_add, arithmetic.ofBits_mul, arithmetic.ofBits_sub, Number.ofBits_toBits,
    List.length_map, ← hzero, List.getD_map]

theorem map_ofBits_quantiles (values : List Float) (levels : Quantile.Levels) :
    (quantiles arithmetic (values.map Float.toBits) levels).map (fun q => ⟨q.1, Float.ofBits q.2⟩) =
      Quantile.ofValues values levels := by
  have hread : (ascending (values.map Float.toBits)).map Float.ofBits = Number.ascending values := by
    rw [← Number.map_toBits_ascending, List.map_map]
    exact List.map_id'' Number.ofBits_toBits _
  unfold quantiles Quantile.ofValues
  cases values with
  | nil => rfl
  | cons first rest =>
    simp only [List.map_cons, List.isEmpty_cons, Bool.false_eq_true, ↓reduceIte, List.map_map]
    refine List.map_congr_left fun level _ => ?_
    rw [Function.comp_apply, ofBits_quantileAt, ← List.map_cons, hread]

/-- A list of patterns has one arrangement in the total order. So every list with its members is sorted to it and has
the same quantiles, down to the pattern of one that is no number, and a list that ascends stays as it is. Doubles are
sorted by their patterns and have the quantiles of these, and the values of a sample are sorted in the same way; hence
lists of doubles and samples that hold the same values, in whatever order, agree in all of this. -/
theorem order_statistics (given : List UInt64) (values : List Float) :
    (∀ sorted, IsAscending given sorted ↔ sorted = ascending given) ∧
    (∀ other, other.Perm given → ascending other = ascending given ∧
      ∀ arithmetic levels, quantiles arithmetic other levels = quantiles arithmetic given levels) ∧
    (given.Pairwise (fun v w => (order v w).isLE = true) → ascending given = given) ∧
    (Number.ascending values).map Float.toBits = ascending (values.map Float.toBits) ∧
    (∀ arithmetic levels, (quantiles arithmetic (values.map Float.toBits) levels).map
      (fun q => ⟨q.1, Float.ofBits q.2⟩) = Quantile.ofValues values levels) ∧
    (∀ other, other.Perm values → Number.ascending other = Number.ascending values ∧
      ∀ levels, Quantile.ofValues other levels = Quantile.ofValues values levels) ∧
    ∀ s : Sample, IsAscending (s.values.map Float.toBits) (s.sorted.map Float.toBits) ∧
      ∀ t : Sample, t.values.Perm s.values → t.sorted = s.sorted := by
  refine ⟨fun _ => isAscending_iff, ?_, ascending_of_pairwise, Number.map_toBits_ascending values,
    fun arithmetic => map_ofBits_quantiles arithmetic values, ?_, ?_⟩
  · intro other h
    exact ⟨ascending_of_perm h, fun arithmetic => quantiles_of_perm arithmetic h⟩
  · intro other h
    exact ⟨Number.ascending_of_perm h, Quantile.ofValues_of_perm h⟩
  · intro s
    exact ⟨isAscending_iff.2 (Number.map_toBits_ascending s.values), fun t => Number.ascending_of_perm⟩

/-- Both zeros, both infinities and three patterns that are no number. -/
def special : List UInt64 :=
  [0, 0x7FF8000000000001, 0x8000000000000000, 0xFFF8000000000002, 0x7FF0000000000000, 0x7FF8000000000000,
    0xFFF0000000000000]

/-- What is no number stands before all numbers if it has a sign, and else behind them by what is left of its bits. -/
theorem order_statistics_special :
    ascending special = [0xFFF8000000000002, 0xFFF0000000000000, 0x8000000000000000, 0, 0x7FF0000000000000,
      0x7FF8000000000000, 0x7FF8000000000001] ∧
    quantiles .ofDoubles special.reverse .quartiles = quantiles .ofDoubles special .quartiles := by
  obtain ⟨hsorted, hperm, -⟩ := order_statistics special []
  refine ⟨((hsorted _).1 ⟨by decide, by decide⟩).symm, ?_⟩
  exact (hperm special.reverse special.reverse_perm).2 .ofDoubles .quartiles

end Pattern

end WorkloadAtlas
