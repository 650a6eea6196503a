import WorkloadAtlas.Proofs.Finiteness
import WorkloadAtlas.Proofs.Indices
import WorkloadAtlas.Proofs.Interpolation
/-!
Quantiles level by level. The rank of a level is rounded, but it grows with the level, and what is left of it behind its
index is exact. So quantiles stand in the order of their levels and within the sample, up to those whose two neighbours
lie so far apart that their difference overflows; these are not finite. The ends of the sample are met exactly.
-/

namespace WorkloadAtlas

open Number

namespace Number

theorem pairwise_ascending (values : List Float) : (ascending values).Pairwise fun x y => precedes x y = true := by
  apply List.pairwise_mergeSort
  · intro x y z hxy hyz
    simp only [precedes, decide_eq_true_eq] at *
    exact hxy.trans hyz
  · intro x y
    simp only [precedes, Bool.or_eq_true, decide_eq_true_eq]
    exact le_total _ _

/-- Of two rationals the greater one has its neighbours behind those of the lesser one, or the same. -/
theorem floor_ceil_steps {p q : ℚ} (h : p ≤ q) :
    ⌈p⌉₊ ≤ ⌊q⌋₊ ∨ ⌊p⌋₊ = ⌊q⌋₊ ∧ ⌈p⌉₊ = ⌈q⌉₊ := by
  have hfloor : ⌊p⌋₊ ≤ ⌊q⌋₊ := Nat.floor_le_floor h
  have hceil : ⌈p⌉₊ ≤ ⌈q⌉₊ := Nat.ceil_le_ceil h
  have hp := Nat.ceil_le_floor_add_one p
  have hq := Nat.ceil_le_floor_add_one q
  omega

end Number

namespace Quantile

/-- Finite values in ascending order, no more of them than doubles count. -/
structure Ordered (sorted : List Float) : Prop where
  nonempty : sorted ≠ []
  count : sorted.length ≤ 2 ^ 53
  finite : ∀ v ∈ sorted, v.isFinite = true
  ascending : sorted.Pairwise fun x y => precedes x y = true

/-- The value at the index below the rank of a level. -/
def low (sorted : List Float) (level : Float) : Float :=
  sorted.getD (below (rankAmong sorted level)) 0.0

def high (sorted : List Float) (level : Float) : Float :=
  sorted.getD (above (rankAmong sorted level)) 0.0

/-- The distance that is interpolated over. -/
def gap (sorted : List Float) (level : Float) : Float :=
  high sorted level - low sorted level

/-- The part of the way that lies behind the index below. -/
def part (sorted : List Float) (level : Float) : Float :=
  rankAmong sorted level - Float.ofNat (below (rankAmong sorted level))

theorem valueAt_eq (sorted : List Float) (level : Float) :
    valueAt sorted level = low sorted level + gap sorted level * part sorted level := rfl

section Ranks

variable {sorted : List Float} {level other : Float}

theorem Ordered.last_lt (h : Ordered sorted) : sorted.length - 1 < 2 ^ 53 := by
  have hcount := h.count
  omega

theorem Ordered.length_pos (h : Ordered sorted) : 0 < sorted.length :=
  List.length_pos_iff.2 h.nonempty

theorem Ordered.isFinite_getD (h : Ordered sorted) {i : Nat} (hi : i < sorted.length) :
    (sorted.getD i 0.0).isFinite = true := by
  rw [List.getD_eq_getElem _ _ hi]
  exact h.finite _ (List.getElem_mem hi)

theorem Ordered.value_getD_le (h : Ordered sorted) {i j : Nat} (hij : i ≤ j) (hj : j < sorted.length) :
    Number.value (sorted.getD i 0.0) ≤ Number.value (sorted.getD j 0.0) := by
  have hi := hij.trans_lt hj
  rcases Nat.lt_or_eq_of_le hij with hlt | rfl
  · apply value_le_of_precedes (h.isFinite_getD hi) (h.isFinite_getD hj)
    rw [List.getD_eq_getElem _ _ hi, List.getD_eq_getElem _ _ hj]
    exact List.pairwise_iff_getElem.1 h.ascending i j hi hj hlt
  · exact le_rfl

theorem Ordered.rank_bounds (h : Ordered sorted) (hlevel : isLevel level = true) :
    (rankAmong sorted level).isFinite = true ∧ 0 ≤ Number.value (rankAmong sorted level) :=
  ⟨(Quantile.rank_bounds hlevel h.last_lt).1, (Quantile.rank_bounds hlevel h.last_lt).2.1⟩

/-- What is left behind the index is not rounded. -/
theorem part_spec (h : Ordered sorted) (hlevel : isLevel level = true) :
    (part sorted level).isFinite = true ∧
      Number.value (part sorted level) = Number.value (rankAmong sorted level) - below (rankAmong sorted level) ∧
      0 ≤ Number.value (part sorted level) ∧ Number.value (part sorted level) < 1 :=
  fraction_spec hlevel h.last_lt

theorem neighbours (h : Ordered sorted) (hlevel : isLevel level = true) :
    (low sorted level).isFinite = true ∧ (high sorted level).isFinite = true ∧
      Number.value (low sorted level) ≤ Number.value (high sorted level) := by
  have hplaced := placed h.nonempty h.count hlevel
  exact ⟨h.isFinite_getD (hplaced.below_le.trans_lt hplaced.above_lt), h.isFinite_getD hplaced.above_lt,
    h.value_getD_le hplaced.below_le hplaced.above_lt⟩

/-- A quantile lies between its neighbours if their distance does not overflow. -/
theorem valueAt_bounds (h : Ordered sorted) (hlevel : isLevel level = true)
    (hgap : (gap sorted level).isFinite = true) :
    (valueAt sorted level).isFinite = true ∧ Number.value (low sorted level) ≤ Number.value (valueAt sorted level) ∧
      Number.value (valueAt sorted level) ≤ Number.value (high sorted level) := by
  obtain ⟨hlow, hhigh, hle⟩ := neighbours h hlevel
  obtain ⟨hpart, -, hnonneg, hlt⟩ := part_spec h hlevel
  exact interpolated_bounds hlow hhigh hpart hle hnonneg hlt hgap

theorem isFinite_valueAt_iff (h : Ordered sorted) (hlevel : isLevel level = true) :
    (valueAt sorted level).isFinite = true ↔ (gap sorted level).isFinite = true := by
  refine ⟨fun hvalue => ?_, fun hgap => (valueAt_bounds h hlevel hgap).1⟩
  by_contra hgap
  rw [valueAt_eq, not_isFinite_add _ (not_isFinite_mul (Bool.eq_false_iff.2 hgap) _)] at hvalue
  cases hvalue

/-- A rank grows with its level. -/
theorem rank_mono (h : Ordered sorted) (hlevel : isLevel level = true) (hother : isLevel other = true)
    (hle : Number.value level ≤ Number.value other) :
    Number.value (rankAmong sorted level) ≤ Number.value (rankAmong sorted other) := by
  obtain ⟨hcount, hvalue⟩ := value_ofNat h.last_lt
  have hundred : Number.value 100.0 ≠ 0 := by
    rw [value_hundred.2]
    norm_num
  have hfirst := rounds_div (level_bounds hlevel).1 value_hundred.1 hundred
  have hsecond := rounds_div (level_bounds hother).1 value_hundred.1 hundred
  have hfinite := (hundredth_bounds hlevel).1
  have hfinite' := (hundredth_bounds hother).1
  rw [value_hundred.2] at hfirst hsecond
  have hparts := hfirst.mono hsecond hfinite hfinite' (div_le_div_of_nonneg_right hle (by norm_num))
  refine (rounds_mul hfinite hcount).mono (rounds_mul hfinite' hcount) (h.rank_bounds hlevel).1
    (h.rank_bounds hother).1 ?_
  rw [hvalue]
  exact mul_le_mul_of_nonneg_right hparts (Nat.cast_nonneg _)

/-- Quantiles stand in the order of their levels. Two levels have the same neighbours, or the upper one of the lesser
level does not come behind the lower one of the greater. -/
theorem valueAt_mono (h : Ordered sorted) (hlevel : isLevel level = true) (hother : isLevel other = true)
    (hle : Number.value level ≤ Number.value other) (hgap : (gap sorted level).isFinite = true)
    (hgap' : (gap sorted other).isFinite = true) :
    Number.value (valueAt sorted level) ≤ Number.value (valueAt sorted other) := by
  have hrank := rank_mono h hlevel hother hle
  have hplaced := placed h.nonempty h.count hlevel
  have hplaced' := placed h.nonempty h.count hother
  have hsteps := floor_ceil_steps hrank
  rw [← hplaced.below_eq, ← hplaced.above_eq, ← hplaced'.below_eq, ← hplaced'.above_eq] at hsteps
  rcases hsteps with hapart | ⟨hbelow, habove⟩
  · calc Number.value (valueAt sorted level) ≤ Number.value (high sorted level) := (valueAt_bounds h hlevel hgap).2.2
      _ ≤ Number.value (low sorted other) :=
        h.value_getD_le hapart (hplaced'.below_le.trans_lt hplaced'.above_lt)
      _ ≤ Number.value (valueAt sorted other) := (valueAt_bounds h hother hgap').2.1
  · have hlow : low sorted level = low sorted other := congrArg (sorted.getD · 0.0) hbelow
    have hhigh : high sorted level = high sorted other := congrArg (sorted.getD · 0.0) habove
    obtain ⟨hlowFinite, hhighFinite, hends⟩ := neighbours h hother
    obtain ⟨hpart, heq, hnonneg, -⟩ := part_spec h hlevel
    obtain ⟨hpart', heq', -, hlt⟩ := part_spec h hother
    rw [valueAt_eq, valueAt_eq, gap, hlow, hhigh]
    refine interpolated_mono hlowFinite hhighFinite hpart hpart' hends hnonneg ?_ hlt hgap'
    rw [heq, heq', hbelow]
    exact sub_le_sub_right hrank _

/-- A rank that is an index has the value there, and nothing is interpolated. -/
theorem valueAt_whole (h : Ordered sorted) (hlevel : isLevel level = true) {n : Nat}
    (hrank : Number.value (rankAmong sorted level) = n) :
    (valueAt sorted level).isFinite = true ∧ Number.value (valueAt sorted level) = Number.value (sorted.getD n 0.0) := by
  have hplaced := placed h.nonempty h.count hlevel
  have hbelow := hplaced.below_eq
  have habove := hplaced.above_eq
  rw [hrank, Nat.floor_natCast] at hbelow
  rw [hrank, Nat.ceil_natCast] at habove
  have hlow : low sorted level = sorted.getD n 0.0 := congrArg (sorted.getD · 0.0) hbelow
  have hhigh : high sorted level = sorted.getD n 0.0 := congrArg (sorted.getD · 0.0) habove
  have hfinite := (neighbours h hlevel).1
  have hgap : (gap sorted level).isFinite = true := by
    rw [gap, hhigh, ← hlow]
    apply ((rounds_sub hfinite hfinite).exact _).1
    rw [sub_self]
    exact representable_zero
  obtain ⟨hvalue, hge, hle⟩ := valueAt_bounds h hlevel hgap
  rw [hlow] at hge
  rw [hhigh] at hle
  exact ⟨hvalue, hle.antisymm hge⟩

/-- The ranks of the first and the last level are not rounded. -/
theorem rank_exact (h : Ordered sorted) (hlevel : isLevel level = true) {p : ℚ} (hp : Representable p)
    (hproduct : Representable (p * (sorted.length - 1 : Nat))) (heq : Number.value level = 100 * p) :
    Number.value (rankAmong sorted level) = p * (sorted.length - 1 : Nat) := by
  obtain ⟨hcount, hvalue⟩ := value_ofNat h.last_lt
  have hquotient := rounds_div (level_bounds hlevel).1 value_hundred.1 (by rw [value_hundred.2]; norm_num)
  rw [value_hundred.2, heq, mul_div_cancel_left₀ p (by norm_num)] at hquotient
  obtain ⟨hfinite, hpart⟩ := hquotient.exact hp
  have hrounds := rounds_mul hfinite hcount
  rw [hpart, hvalue] at hrounds
  exact (hrounds.exact hproduct).2

theorem valueAt_zero (h : Ordered sorted) (hlevel : isLevel level = true) (hzero : Number.value level = 0) :
    (valueAt sorted level).isFinite = true ∧ Number.value (valueAt sorted level) = Number.value (sorted.getD 0 0.0) := by
  apply valueAt_whole h hlevel
  rw [rank_exact h hlevel representable_zero (by rw [zero_mul]; exact representable_zero) (by rw [hzero, mul_zero]),
    zero_mul, Nat.cast_zero]

theorem valueAt_hundred (h : Ordered sorted) (hlevel : isLevel level = true) (hhundred : Number.value level = 100) :
    (valueAt sorted level).isFinite = true ∧
      Number.value (valueAt sorted level) = Number.value (sorted.getD (sorted.length - 1) 0.0) := by
  apply valueAt_whole h hlevel
  rw [rank_exact h hlevel representable_one (by rw [one_mul]; exact representable_natCast h.last_lt.le)
    (by rw [hhundred, mul_one]), one_mul]

end Ranks

section Levels

theorem dropRepeats_sublist (xs : List Float) : (dropRepeats xs).Sublist xs := by
  induction xs with
  | nil => exact .slnil
  | cons x rest ih =>
    unfold dropRepeats
    cases hkept : dropRepeats rest with
    | nil => exact (List.nil_sublist rest).cons_cons x
    | cons y kept =>
      rw [hkept] at ih
      simp only
      split
      · exact ((List.sublist_cons_self y kept).trans ih).cons_cons x
      · exact ih.cons_cons x

/-- Levels that stand in ascending order without repeats are accepted as they are. -/
theorem Levels.ofList_toList (levels : Levels) (hsorted : levels.toList.Pairwise fun x y => precedes x y = true)
    (hdistinct : dropRepeats levels.toList = levels.toList) : ofList levels.toList = .ok levels := by
  have hascending : Number.ascending levels.toList = levels.toList := List.mergeSort_of_pairwise hsorted
  unfold ofList
  split
  · next x hfound =>
    have hout := List.find?_some hfound
    rw [levels.within x (List.mem_of_find?_eq_some hfound)] at hout
    cases hout
  · simp only [hascending, hdistinct]

theorem Levels.ofList_quartiles : ofList quartiles.toList = .ok quartiles :=
  quartiles.ofList_toList (by decide) rfl

/-- Levels that are accepted stand in ascending order. -/
theorem Levels.pairwise_of_ofList {given : List Float} {levels : Levels} (h : ofList given = .ok levels) :
    levels.toList.Pairwise fun x y => Number.value x ≤ Number.value y := by
  have hlist : levels.toList = dropRepeats (Number.ascending given) := by
    unfold ofList at h
    split at h
    · cases h
    · cases h
      rfl
  have hpairwise : levels.toList.Pairwise fun x y => precedes x y = true := by
    rw [hlist]
    exact (pairwise_ascending given).sublist (dropRepeats_sublist _)
  refine hpairwise.imp_of_mem ?_
  intro x y hx hy hxy
  exact value_le_of_precedes (level_bounds (levels.within x hx)).1 (level_bounds (levels.within y hy)).1 hxy

end Levels

end Quantile

namespace Sample

open Quantile (Levels Ordered gap valueAt)

section Ends

variable {s : Sample}

theorem ordered (hcount : s.size ≤ 2 ^ 53) : Ordered s.sorted := by
  have hlength : s.sorted.length = s.values.length := List.length_mergeSort _
  refine ⟨?_, hlength.trans_le hcount, ?_, pairwise_ascending _⟩
  · rw [← List.length_pos_iff, hlength]
    exact List.length_pos_iff.2 s.nonempty
  · exact fun v hv => s.finite v (List.mem_mergeSort.1 hv)

theorem mem_of_getD {i : Nat} (hi : i < s.sorted.length) : s.sorted.getD i 0.0 ∈ s.values := by
  rw [List.getD_eq_getElem _ _ hi]
  exact List.mem_mergeSort.1 (List.getElem_mem hi)

theorem value_bounds (hcount : s.size ≤ 2 ^ 53) {v : Float} (hv : v ∈ s.values) :
    value (s.sorted.getD 0 0.0) ≤ value v ∧ value v ≤ value (s.sorted.getD (s.sorted.length - 1) 0.0) := by
  have hordered := ordered hcount
  obtain ⟨i, hi, rfl⟩ := List.mem_iff_getElem.1 (show v ∈ s.sorted from List.mem_mergeSort.2 hv)
  rw [← List.getD_eq_getElem _ 0.0 hi]
  exact ⟨hordered.value_getD_le (Nat.zero_le i) hi, hordered.value_getD_le (by omega) (by omega)⟩

/-- The least workload stands first. -/
theorem value_min (hcount : s.size ≤ 2 ^ 53) : value s.stats.min = value (s.sorted.getD 0 0.0) := by
  have hmem := mem_of_getD (ordered hcount).length_pos
  have hmin := (isFinite_extremes s).1
  obtain ⟨v, hv, heq⟩ := s.exact_min.attained
  apply le_antisymm
  · exact value_le hmin (s.finite _ hmem) (s.exact_min.bound _ hmem)
  · exact (value_bounds hcount hv).1.trans_eq ((beq_iff_value (s.finite v hv) hmin).1 heq)

theorem value_max (hcount : s.size ≤ 2 ^ 53) :
    value s.stats.max = value (s.sorted.getD (s.sorted.length - 1) 0.0) := by
  have hmem := mem_of_getD (Nat.sub_one_lt (ordered hcount).length_pos.ne')
  have hmax := (isFinite_extremes s).2
  obtain ⟨v, hv, heq⟩ := s.exact_max.attained
  apply le_antisymm
  · exact ((beq_iff_value (s.finite v hv) hmax).1 heq).symm.trans_le (value_bounds hcount hv).2
  · exact value_le (s.finite _ hmem) hmax (s.exact_max.bound _ hmem)

/-- A quantile lies within the sample exactly if the distance of its neighbours does not overflow. -/
theorem within_iff_gap (hcount : s.size ≤ 2 ^ 53) {level : Float} (hlevel : Quantile.isLevel level = true) :
    s.stats.min ≤ valueAt s.sorted level ∧ valueAt s.sorted level ≤ s.stats.max ↔
      (gap s.sorted level).isFinite = true := by
  have hordered := ordered hcount
  obtain ⟨hmin, hmax⟩ := isFinite_extremes s
  constructor
  · rintro ⟨hlow, hhigh⟩
    exact (Quantile.isFinite_valueAt_iff hordered hlevel).1 (isFinite_of_between hmin hmax hlow hhigh)
  · intro hgap
    have hplaced := Quantile.placed hordered.nonempty hordered.count hlevel
    have hbelow := hplaced.below_le.trans_lt hplaced.above_lt
    obtain ⟨hfinite, hlow, hhigh⟩ := Quantile.valueAt_bounds hordered hlevel hgap
    rw [le_iff_value hmin hfinite, le_iff_value hfinite hmax, value_min hcount, value_max hcount]
    have habove := hplaced.above_lt
    exact ⟨(hordered.value_getD_le (Nat.zero_le _) hbelow).trans hlow,
      hhigh.trans (hordered.value_getD_le (by omega) (by omega))⟩

/-- Workloads that are not among the greatest doubles are not that far apart. -/
theorem isFinite_gap (hcount : s.size ≤ 2 ^ 53) (hvalues : ∀ v ∈ s.values, Within (2 ^ 1022) v) {level : Float}
    (hlevel : Quantile.isLevel level = true) : (gap s.sorted level).isFinite = true := by
  have hordered := ordered hcount
  have hplaced := Quantile.placed hordered.nonempty hordered.count hlevel
  have hbelow := mem_of_getD (hplaced.below_le.trans_lt hplaced.above_lt)
  exact ((hvalues _ (mem_of_getD hplaced.above_lt)).difference (hvalues _ hbelow)
    (representable_two_pow (by norm_num))).1

end Ends

/-- There is one quantile for each level. A quantile lies within the sample exactly if the difference of the two values
next to its rank does not overflow, and quantiles of which this is true stand in the order of their levels. The level
zero has the least workload and the level hundred the greatest. -/
theorem quantiles_ordered (s : Sample) (hcount : s.size ≤ 2 ^ 53) {given : List Float} {levels : Levels}
    (h : Levels.ofList given = .ok levels) :
    (Quantile.ofValues s.values levels).map (·.level) = levels.toList ∧
    (∀ q ∈ Quantile.ofValues s.values levels,
      (s.stats.min ≤ q.value ∧ q.value ≤ s.stats.max ↔ (gap s.sorted q.level).isFinite = true) ∧
      ((q.level == 0.0) = true → (q.value == s.stats.min) = true) ∧
      ((q.level == 100.0) = true → (q.value == s.stats.max) = true)) ∧
    (Quantile.ofValues s.values levels).Pairwise (fun p q =>
      (gap s.sorted p.level).isFinite = true → (gap s.sorted q.level).isFinite = true → p.value ≤ q.value) ∧
    ((∀ v ∈ s.values, Within (2 ^ 1022) v) →
      ∀ q ∈ Quantile.ofValues s.values levels, (gap s.sorted q.level).isFinite = true) := by
  have hordered := ordered hcount
  have hquantiles : Quantile.ofValues s.values levels =
      levels.toList.map fun level => ⟨level, valueAt s.sorted level⟩ := by
    rw [Quantile.ofValues, List.isEmpty_eq_false_iff.2 s.nonempty]
    rfl
  rw [hquantiles]
  simp only [List.forall_mem_map, List.map_map, List.pairwise_map]
  refine ⟨List.map_id _, ?_, ?_, ?_⟩
  · intro level hlevel
    have hwithin := levels.within level hlevel
    have hfinite := (Quantile.level_bounds hwithin).1
    obtain ⟨hmin, hmax⟩ := isFinite_extremes s
    refine ⟨within_iff_gap hcount hwithin, fun hzero => ?_, fun hhundred => ?_⟩
    · rw [beq_iff_value hfinite value_zero.1, value_zero.2] at hzero
      obtain ⟨hvalue, heq⟩ := Quantile.valueAt_zero hordered hwithin hzero
      rw [beq_iff_value hvalue hmin, heq, value_min hcount]
    · rw [beq_iff_value hfinite value_hundred.1, value_hundred.2] at hhundred
      obtain ⟨hvalue, heq⟩ := Quantile.valueAt_hundred hordered hwithin hhundred
      rw [beq_iff_value hvalue hmax, heq, value_max hcount]
  · refine (Levels.pairwise_of_ofList h).imp_of_mem ?_
    intro level other hlevel hother hle hgap hgap'
    have hwithin := levels.within level hlevel
    have hwithin' := levels.within other hother
    rw [le_iff_value (Quantile.valueAt_bounds hordered hwithin hgap).1
      (Quantile.valueAt_bounds hordered hwithin' hgap').1]
    exact Quantile.valueAt_mono hordered hwithin hwithin' hle hgap hgap'
  · exact fun hvalues level hlevel => isFinite_gap hcount hvalues (levels.within level hlevel)

/-- The quartiles of three workloads in no order. -/
theorem quantiles_ordered_quartiles : ∃ s : Sample, s.values = [4.0, 1.0, 2.0] ∧
    (Quantile.ofValues s.values .quartiles).Pairwise fun p q =>
      (gap s.sorted p.level).isFinite = true → (gap s.sorted q.level).isFinite = true → p.value ≤ q.value := by
  refine ⟨⟨[0, 1, 2], [4.0, 1.0, 2.0], rfl, by decide, List.cons_ne_nil _ _⟩, rfl, ?_⟩
  exact (quantiles_ordered _ (by decide) Levels.ofList_quartiles).2.2.1

/-- Three workloads next to the greatest double, two of which have both signs. -/
def torn : Sample where
  workers := [0, 1, 2]
  values := [Float.ofBits 0xFFE1CCF385EBC8A0, Float.ofBits 0x7FE1CCF385EBC8A0, Float.ofBits 0x7FE1CCF385EBC8A0]
  lengths_eq := rfl
  finite := by decide
  nonempty := List.cons_ne_nil _ _

def quarterAndWhole : Levels :=
  ⟨[25.0, 100.0], by decide⟩

/-- Half the way between them is beyond the greatest one, and the level after it comes back to that. -/
theorem torn_quantiles : Levels.ofList [25.0, 100.0] = .ok quarterAndWhole ∧
    ∃ p q, Quantile.ofValues torn.values quarterAndWhole = [p, q] ∧
      ¬ p.value ≤ torn.stats.max ∧ ¬ p.value ≤ q.value := by
  refine ⟨quarterAndWhole.ofList_toList (by decide) rfl, ?_⟩
  have hsorted : Number.ascending torn.values = torn.values := List.mergeSort_of_pairwise (by decide)
  refine ⟨⟨25.0, valueAt torn.values 25.0⟩, ⟨100.0, valueAt torn.values 100.0⟩, ?_, ?_, ?_⟩
  · rw [Quantile.ofValues, hsorted]
    rfl
  · decide +kernel
  · decide +kernel

end Sample

end WorkloadAtlas
