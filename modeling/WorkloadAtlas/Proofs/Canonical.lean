import WorkloadAtlas.Proofs.Levels
import WorkloadAtlas.Proofs.Patterns
import WorkloadAtlas.Proofs.Spelling
/-!
Levels are a normal form. They are sorted by their bits and compared by their values, and on levels both orders agree
but for the two zeros. So of each value that is given the first one in the total order is kept, and nothing but the set
of the given doubles counts.
-/

namespace WorkloadAtlas

namespace Number

theorem eq_of_value_zero {x : Float} (hx : x.isFinite = true) (hvalue : value x = 0) :
    x = ofMagnitude (isNegative x) 0 := by
  have heq := ofMagnitude_magnitudeBits x
  rw [magnitudeBits_of_zero hx (significand_of_value_zero hvalue)] at heq
  exact heq.symm

end Number

namespace Quantile

open Number

/-- What is kept of given doubles: of each value one double, which no given one of that value precedes, in ascending
order. -/
structure IsNormal (given kept : List Float) : Prop where
  ascending : kept.Pairwise (· < ·)
  subset : ∀ y ∈ kept, y ∈ given
  unique : ∀ x ∈ given, ∃! y, y ∈ kept ∧ (x == y) = true
  first : ∀ y ∈ kept, ∀ x ∈ given, (x == y) = true → precedes y x = true

namespace IsNormal

variable {given given' kept kept' : List Float}

theorem of_mem_iff (h : IsNormal given kept) (hmem : ∀ x, x ∈ given' ↔ x ∈ given) : IsNormal given' kept :=
  ⟨h.ascending, fun y hy => (hmem y).2 (h.subset y hy), fun x hx => h.unique x ((hmem x).1 hx),
    fun y hy x hx => h.first y hy x ((hmem x).1 hx)⟩

/-- What is kept once is kept again. -/
theorem again (h : IsNormal given kept) : IsNormal kept kept :=
  ⟨h.ascending, fun _ hy => hy, fun x hx => h.unique x (h.subset x hx), fun y hy x hx => h.first y hy x (h.subset x hx)⟩

section Finite

variable (finite : ∀ x ∈ given, x.isFinite = true)

include finite

theorem pairwise_value (h : IsNormal given kept) : kept.Pairwise (InvImage (· < ·) Number.value) := by
  refine h.ascending.imp_of_mem fun {x y} hx hy hlt => ?_
  exact (lt_iff_value (finite x (h.subset x hx)) (finite y (h.subset y hy))).1 hlt

/-- Both of two normal forms keep the first one of a value. -/
theorem mem_of_mem (h : IsNormal given kept) (h' : IsNormal given kept') {y : Float} (hy : y ∈ kept) : y ∈ kept' := by
  have hgiven := h.subset y hy
  obtain ⟨z, ⟨hz, hyz⟩, -⟩ := h'.unique y hgiven
  have hgiven' := h'.subset z hz
  have hvalue := (beq_iff_value (finite y hgiven) (finite z hgiven')).1 hyz
  have hzy := (beq_iff_value (finite z hgiven') (finite y hgiven)).2 hvalue.symm
  have heq := precedes_antisymm (h.first y hy z hgiven' hzy) (h'.first z hz y hgiven hyz)
  rwa [heq]

/-- Given doubles have one normal form. -/
theorem eq (h : IsNormal given kept) (h' : IsNormal given kept') : kept = kept' :=
  (h.pairwise_value finite).eq_of_mem_iff (h'.pairwise_value finite) fun _ =>
    ⟨h.mem_of_mem finite h', h'.mem_of_mem finite h⟩

end Finite

/-- Of the two zeros the negative one is kept. -/
theorem negative_zero (h : IsNormal given kept) (finite : ∀ x ∈ given, x.isFinite = true) (hzero : -0.0 ∈ given) :
    -0.0 ∈ kept ∧ 0.0 ∉ kept := by
  have hnegative : Number.value (-0.0) = 0 := by decide +kernel
  obtain ⟨y, ⟨hy, hzeroY⟩, hunique⟩ := h.unique _ hzero
  have hfinite := finite y (h.subset y hy)
  have hvalue : Number.value y = 0 := by rw [← (beq_iff_value (finite _ hzero) hfinite).1 hzeroY, hnegative]
  have hyZero : y = -0.0 := by
    have hfirst := h.first y hy _ hzero hzeroY
    have heq := eq_of_value_zero hfinite hvalue
    cases hsign : isNegative y with
    | true =>
      rw [hsign] at heq
      exact heq
    | false =>
      rw [heq, hsign] at hfirst
      cases hfirst
  refine ⟨hyZero ▸ hy, fun hpositive => ?_⟩
  have heq := hunique 0.0 ⟨hpositive, by decide +kernel⟩
  rw [hyZero] at heq
  exact absurd (congrArg isNegative heq) (by decide +kernel)

end IsNormal

section Repeats

variable {xs : List Float}

/-- Neighbours in the total order that are kept have different values, so values ascend. -/
theorem pairwise_dropRepeats (sorted : xs.Pairwise fun x y => precedes x y = true)
    (finite : ∀ x ∈ xs, x.isFinite = true) : (dropRepeats xs).Pairwise (InvImage (· < ·) Number.value) := by
  induction xs with
  | nil => exact .nil
  | cons x rest ih =>
    obtain ⟨hx, hrest⟩ := List.pairwise_cons.1 sorted
    obtain ⟨hfinite, hfinite'⟩ := List.forall_mem_cons.1 finite
    have hpairwise := ih hrest hfinite'
    have hmem : ∀ y ∈ dropRepeats rest, y ∈ rest := fun y => mem_of_mem_dropRepeats
    unfold dropRepeats
    cases hkept : dropRepeats rest with
    | nil => exact List.pairwise_singleton _ x
    | cons y kept =>
      rw [hkept] at hpairwise hmem
      obtain ⟨hy, hpairs⟩ := List.pairwise_cons.1 hpairwise
      have hyRest := hmem y List.mem_cons_self
      have hequal := beq_iff_value hfinite (hfinite' y hyRest)
      simp only
      split
      · next heq =>
        refine List.pairwise_cons.2 ⟨fun z hz => ?_, hpairs⟩
        exact (hequal.1 heq).trans_lt (hy z hz)
      · next hne =>
        have hlt : Number.value x < Number.value y :=
          (value_le_of_precedes hfinite (hfinite' y hyRest) (hx y hyRest)).lt_of_ne (mt hequal.2 hne)
        refine List.pairwise_cons.2 ⟨List.forall_mem_cons.2 ⟨hlt, fun z hz => ?_⟩, hpairwise⟩
        exact hlt.trans (hy z hz)

/-- What is dropped has its value from one that stands before it and is kept. -/
theorem exists_kept (sorted : xs.Pairwise fun x y => precedes x y = true) (finite : ∀ x ∈ xs, x.isFinite = true)
    {x : Float} (hx : x ∈ xs) : ∃ y ∈ dropRepeats xs, Number.value x = Number.value y ∧ precedes y x = true := by
  induction xs with
  | nil => cases hx
  | cons first rest ih =>
    obtain ⟨hfirst, hrest⟩ := List.pairwise_cons.1 sorted
    obtain ⟨hfinite, hfinite'⟩ := List.forall_mem_cons.1 finite
    have hhead : first ∈ dropRepeats (first :: rest) := by
      unfold dropRepeats
      split
      · exact List.mem_cons_self
      · split <;> exact List.mem_cons_self
    rcases List.mem_cons.1 hx with rfl | hlater
    · exact ⟨x, hhead, rfl, decide_eq_true le_rfl⟩
    · obtain ⟨z, hz, hvalue, hbefore⟩ := ih hrest hfinite' hlater
      by_cases hzFirst : Number.value z = Number.value first
      · exact ⟨first, hhead, hvalue.trans hzFirst, hfirst x hlater⟩
      · refine ⟨z, ?_, hvalue, hbefore⟩
        unfold dropRepeats
        cases hkept : dropRepeats rest with
        | nil =>
          rw [hkept] at hz
          cases hz
        | cons y kept =>
          have hyRest : y ∈ rest := mem_of_mem_dropRepeats (hkept ▸ List.mem_cons_self)
          rw [hkept] at hz
          simp only
          split
          · next heq =>
            rcases List.mem_cons.1 hz with rfl | htail
            · exact absurd ((beq_iff_value hfinite (hfinite' z hyRest)).1 heq).symm hzFirst
            · exact List.mem_cons_of_mem _ htail
          · exact List.mem_cons_of_mem _ hz

theorem isNormal_dropRepeats (sorted : xs.Pairwise fun x y => precedes x y = true)
    (finite : ∀ x ∈ xs, x.isFinite = true) : IsNormal xs (dropRepeats xs) := by
  have hpairwise := pairwise_dropRepeats sorted finite
  have hfinite : ∀ y ∈ dropRepeats xs, y.isFinite = true := fun y hy => finite y (mem_of_mem_dropRepeats hy)
  have hdistinct : ((dropRepeats xs).map Number.value).Nodup := List.pairwise_map.2 (hpairwise.imp ne_of_lt)
  refine ⟨?_, fun y => mem_of_mem_dropRepeats, ?_, ?_⟩
  · exact hpairwise.imp_of_mem fun {x y} hx hy hlt => (lt_iff_value (hfinite x hx) (hfinite y hy)).2 hlt
  · intro x hx
    obtain ⟨y, hy, hvalue, -⟩ := exists_kept sorted finite hx
    refine ⟨y, ⟨hy, (beq_iff_value (finite x hx) (hfinite y hy)).2 hvalue⟩, ?_⟩
    rintro z ⟨hz, hxz⟩
    exact List.inj_on_of_nodup_map hdistinct hz hy (((beq_iff_value (finite x hx) (hfinite z hz)).1 hxz).symm.trans hvalue)
  · intro y hy x hx hxy
    obtain ⟨z, hz, hvalue, hbefore⟩ := exists_kept sorted finite hx
    have hsame := (beq_iff_value (finite x hx) (hfinite y hy)).1 hxy
    rwa [List.inj_on_of_nodup_map hdistinct hy hz (hsame.symm.trans hvalue)]

end Repeats

namespace Levels

variable {given : List Float} {levels : Levels}

theorem isLevel_iff (x : Float) : isLevel x = true ↔ 0.0 ≤ x ∧ x ≤ 100.0 := by
  rw [isLevel, Bool.and_eq_true, decide_eq_true_iff, decide_eq_true_iff]

theorem ofList_eq_ok (h : ∀ x ∈ given, isLevel x = true) :
    ∃ levels, ofList given = .ok levels ∧ IsNormal given levels.toList := by
  have hmem : ∀ x, x ∈ given ↔ x ∈ ascending given := fun _ => List.mem_mergeSort.symm
  have hnormal := isNormal_dropRepeats (pairwise_ascending given) fun x hx => (level_bounds (h x ((hmem x).2 hx))).1
  unfold ofList
  split
  · next x hfound =>
    have hout := List.find?_some hfound
    rw [h x (List.mem_of_find?_eq_some hfound)] at hout
    cases hout
  · exact ⟨_, rfl, hnormal.of_mem_iff hmem⟩

/-- The first one that is no level, in the order given, decides about the failure. -/
theorem ofList_eq_error_iff {failure : Failure} : ofList given = .error failure ↔
    ∃ before x after, given = before ++ x :: after ∧ (∀ y ∈ before, isLevel y = true) ∧ ¬ isLevel x = true ∧
      failure = .levelOutOfRange x := by
  constructor
  · intro h
    unfold ofList at h
    split at h
    · next x hfound =>
      obtain ⟨hout, before, after, heq, hbefore⟩ := List.find?_eq_some_iff_append.1 hfound
      cases h
      exact ⟨before, x, after, heq, by simpa using hbefore, by simpa using hout, rfl⟩
    · cases h
  · rintro ⟨before, x, after, rfl, hbefore, hout, rfl⟩
    have hfound : (before ++ x :: after).find? (fun x => !isLevel x) = some x :=
      List.find?_eq_some_iff_append.2 ⟨by simpa using hout, before, after, rfl, by simpa using hbefore⟩
    unfold ofList
    split
    · next y hfirst =>
      cases hfound.symm.trans hfirst
      rfl
    · next hnone => cases hfound.symm.trans hnone

theorem isLevel_of_ofList (h : ofList given = .ok levels) : ∀ x ∈ given, isLevel x = true := by
  unfold ofList at h
  split at h
  · cases h
  · next hnone => simpa using hnone

theorem isNormal_of_ofList (h : ofList given = .ok levels) : IsNormal given levels.toList := by
  obtain ⟨levels', heq, hnormal⟩ := ofList_eq_ok (isLevel_of_ofList h)
  cases h.symm.trans heq
  exact hnormal

/-- Levels of one normal form are the same levels. -/
theorem ofList_of_isNormal (hgiven : ∀ x ∈ given, isLevel x = true) (hnormal : IsNormal given levels.toList) :
    ofList given = .ok levels := by
  obtain ⟨levels', heq, hnormal'⟩ := ofList_eq_ok hgiven
  obtain ⟨kept, hwithin⟩ := levels
  obtain ⟨kept', hwithin'⟩ := levels'
  obtain rfl : kept = kept' := hnormal.eq (fun x hx => (level_bounds (hgiven x hx)).1) hnormal'
  exact heq

/-- Doubles that are no levels are refused with the first one in the order given. All others have one normal form: the
distinct values in ascending order, each as the given double that the total order puts first, so that of the zeros the
negative one is kept. It depends on the set of the given doubles only, and it is its own normal form. -/
theorem ofList_normal (given : List Float) :
    (∀ failure, ofList given = .error failure ↔
      ∃ before x after, given = before ++ x :: after ∧ (∀ y ∈ before, 0.0 ≤ y ∧ y ≤ 100.0) ∧
        ¬ (0.0 ≤ x ∧ x ≤ 100.0) ∧ failure = .levelOutOfRange x) ∧
    ((∃ levels, ofList given = .ok levels) ↔ ∀ x ∈ given, 0.0 ≤ x ∧ x ≤ 100.0) ∧
    ∀ levels, ofList given = .ok levels →
      IsNormal given levels.toList ∧
      (-0.0 ∈ given → -0.0 ∈ levels.toList ∧ 0.0 ∉ levels.toList) ∧
      (∀ other, (∀ x, x ∈ other ↔ x ∈ given) → ofList other = .ok levels) ∧
      ofList levels.toList = .ok levels := by
  simp only [← isLevel_iff]
  refine ⟨fun _ => ofList_eq_error_iff, ⟨?_, ?_⟩, ?_⟩
  · rintro ⟨levels, h⟩
    exact isLevel_of_ofList h
  · intro h
    obtain ⟨levels, heq, -⟩ := ofList_eq_ok h
    exact ⟨levels, heq⟩
  · intro levels h
    have hlevels := isLevel_of_ofList h
    have hnormal := isNormal_of_ofList h
    refine ⟨hnormal, hnormal.negative_zero fun x hx => (level_bounds (hlevels x hx)).1, ?_, ?_⟩
    · intro other hmem
      exact ofList_of_isNormal (fun x hx => hlevels x ((hmem x).1 hx)) (hnormal.of_mem_iff hmem)
    · exact ofList_of_isNormal levels.within hnormal.again

end Levels

end Quantile

end WorkloadAtlas
