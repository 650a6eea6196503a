import WorkloadAtlas.Proofs.Changes
import WorkloadAtlas.Proofs.Doubles
/-!
The bounds over samples are exact. There are bounds if all samples list the same workers, and otherwise the first one
that breaks with the sample before it is reported. Each bound is a number that no workload, or no change from a sample
to the next one, goes beyond, and it is equal to one of them.

Neighbours are all that is compared and all that the greatest change is taken over; that they agree is handed on along
the chain, and the greatest change along the list of all changes.
-/

namespace WorkloadAtlas

open Number

namespace Stats

/-- A number to which all of the values stand as `r` says, and which is equal to one of them. -/
structure Exact (r : Float → Float → Prop) (values : List Float) (x : Float) : Prop where
  isNaN : x.isNaN = false
  bound : ∀ v ∈ values, r v x
  attained : ∃ v ∈ values, (v == x) = true

/-- A choice that is always one of the two values, where only equal values stand to each other both ways. -/
structure Selects (choice : Float → Float → Float) (r : Float → Float → Prop) : Prop extends Extreme choice r where
  either (x y : Float) : choice x y = x ∨ choice x y = y
  antisymm {x y : Float} : x.isNaN = false → y.isNaN = false → r x y → r y x → (x == y) = true

theorem selects_greater : Selects greater (· ≤ ·) :=
  ⟨extreme_greater, greater_choice, beq_of_le_of_le⟩

theorem selects_lesser : Selects lesser (· ≥ ·) :=
  ⟨extreme_lesser, lesser_choice, fun hx hy hxy hyx => beq_of_le_of_le hx hy hyx hxy⟩

section Exact

variable {choice : Float → Float → Float} {r : Float → Float → Prop} {first : Float} {values : List Float}

theorem Selects.exact_cons (h : Selects choice r) (hvalues : ∀ v ∈ first :: values, v.isNaN = false) :
    Exact r (first :: values) (values.foldl choice first) := by
  obtain ⟨hfirst, hrest⟩ := List.forall_mem_cons.1 hvalues
  obtain ⟨hnumber, hstart, hbound⟩ := h.foldl hfirst hrest
  exact ⟨hnumber, List.forall_mem_cons.2 ⟨hstart, hbound⟩, _, foldl_mem h.either values first, beq_refl hnumber⟩

/-- A start that none of the values goes short of leaves no trace, if there are values. -/
theorem Selects.exact_foldl (h : Selects choice r) (hfirst : first.isNaN = false)
    (hvalues : ∀ v ∈ values, v.isNaN = false) (hstart : ∀ v ∈ values, r first v) (hne : values ≠ []) :
    Exact r values (values.foldl choice first) := by
  obtain ⟨hnumber, -, hbound⟩ := h.foldl hfirst hvalues
  refine ⟨hnumber, hbound, ?_⟩
  rcases List.mem_cons.1 (foldl_mem h.either values first) with hkept | hmem
  · obtain ⟨v, hv⟩ := List.exists_mem_of_ne_nil values hne
    have hle := hbound v hv
    rw [hkept] at hle ⊢
    exact ⟨v, hv, h.antisymm (hvalues v hv) hfirst hle (hstart v hv)⟩
  · exact ⟨_, hmem, beq_refl hnumber⟩

/-- What is exact for the numbers that are exact for each of the items is exact for all of their values. -/
theorem Exact.flatMap (h : Selects choice r) {α : Type} {items : List α} {f : α → List Float} {g : α → Float} {x : Float}
    (hitems : ∀ a ∈ items, Exact r (f a) (g a)) (hvalues : ∀ a ∈ items, ∀ v ∈ f a, v.isNaN = false)
    (hx : Exact r (items.map g) x) : Exact r (items.flatMap f) x := by
  refine ⟨hx.isNaN, ?_, ?_⟩
  · intro v hv
    obtain ⟨a, ha, hva⟩ := List.mem_flatMap.1 hv
    exact h.trans (hvalues a ha v hva) (hitems a ha).isNaN hx.isNaN ((hitems a ha).bound v hva)
      (hx.bound _ (List.mem_map_of_mem ha))
  · obtain ⟨m, hm, heq⟩ := hx.attained
    obtain ⟨a, ha, rfl⟩ := List.mem_map.1 hm
    obtain ⟨v, hva, hv⟩ := (hitems a ha).attained
    exact ⟨v, List.mem_flatMap.2 ⟨a, ha, hva⟩, beq_trans (hvalues a ha v hva) (hitems a ha).isNaN hx.isNaN hv heq⟩

end Exact

end Stats

namespace Sample

variable (s : Sample)

theorem isNaN_of_mem {v : Float} (hv : v ∈ s.values) : v.isNaN = false :=
  isNaN_of_isFinite (s.finite v hv)

theorem exact_extreme {choice : Float → Float → Float} {r : Float → Float → Prop} (h : Stats.Selects choice r) :
    Stats.Exact r s.values (s.values.tail.foldl choice (s.values.head s.nonempty)) := by
  have hcons := List.cons_head_tail s.nonempty
  have hvalues : ∀ v ∈ s.values.head s.nonempty :: s.values.tail, v.isNaN = false := by
    rw [hcons]
    exact fun v hv => s.isNaN_of_mem hv
  have hexact := h.exact_cons hvalues
  rwa [hcons] at hexact

theorem exact_min : Stats.Exact (· ≥ ·) s.values s.stats.min :=
  s.exact_extreme Stats.selects_lesser

theorem exact_max : Stats.Exact (· ≤ ·) s.values s.stats.max :=
  s.exact_extreme Stats.selects_greater

end Sample

namespace Bounds

/-- The workloads of all workers in all samples. -/
def workloads (samples : List Loaded) : List Float :=
  samples.flatMap (·.sample.values)

/-- Bounds that are taken from samples: both ends of the workloads are among them, and so is the greatest change; a
single sample has none, and counts as unchanged. -/
structure Exact (samples : List Loaded) (b : Bounds) : Prop where
  minWorkload : Stats.Exact (· ≥ ·) (workloads samples) b.minWorkload
  maxWorkload : Stats.Exact (· ≤ ·) (workloads samples) b.maxWorkload
  maxAbsDelta : samples.length ≠ 1 → Stats.Exact (· ≤ ·) (changes samples) b.maxAbsDelta
  unchanged : samples.length = 1 → b.maxAbsDelta = 0.0

section Exact

variable {samples : List Loaded}

theorem exact_extreme {choice : Float → Float → Float} {r : Float → Float → Prop} (h : Stats.Selects choice r)
    {extreme : Sample → Float} (hextreme : ∀ s, Stats.Exact r s.values (extreme s)) {first : Float}
    (hfirst : first.isNaN = false) (hstart : ∀ {x : Float}, x.isNaN = false → r first x) (hne : samples ≠ []) :
    Stats.Exact r (workloads samples) (samples.foldl (fun x s => choice x (extreme s.sample)) first) := by
  have hnumbers : ∀ m ∈ samples.map (fun s => extreme s.sample), m.isNaN = false := by
    intro m hm
    obtain ⟨loaded, -, rfl⟩ := List.mem_map.1 hm
    exact (hextreme loaded.sample).isNaN
  have hfold := h.exact_foldl hfirst hnumbers (fun m hm => hstart (hnumbers m hm)) (by simpa using hne)
  rw [List.foldl_map] at hfold
  exact .flatMap h (fun s _ => hextreme s.sample) (fun s _ _ hv => s.sample.isNaN_of_mem hv) hfold

theorem number_of_mem_changes {d : Float} (h : d ∈ changes samples) : d.isNaN = false ∧ 0.0 ≤ d := by
  obtain ⟨⟨previous, current⟩, -, hd⟩ := List.mem_flatMap.1 h
  simp only [← List.map_uncurry_zip_eq_zipWith, List.mem_map] at hd
  obtain ⟨⟨x, y⟩, hxy, rfl⟩ := hd
  obtain ⟨hx, hy⟩ := List.of_mem_zip hxy
  have hsub := isNaN_sub (current.sample.finite x hx) (previous.sample.finite y hy)
  exact ⟨isNaN_abs hsub, zero_le_abs hsub⟩

theorem changes_ne_nil {previous current : Loaded} {rest : List Loaded} :
    changes (previous :: current :: rest) ≠ [] := by
  rw [changes_cons]
  apply List.append_ne_nil_of_left_ne_nil
  intro hnil
  rcases List.zipWith_eq_nil_iff.1 hnil with h | h
  · exact current.sample.nonempty h
  · exact previous.sample.nonempty h

theorem ofLoaded_of_chain (chain : samples.IsChain Continues) (hne : samples ≠ []) :
    ofLoaded samples =
      .ok ⟨leastWorkload samples, greatestWorkload samples, (changes samples).foldl Stats.greater 0.0⟩ := by
  have hempty : samples.isEmpty = false := List.isEmpty_eq_false_iff.2 hne
  simp only [ofLoaded, hempty, Bool.false_eq_true, ↓reduceIte, greatestDelta_of_chain chain]
  rfl

theorem ofLoaded_of_break {done rest : List Loaded} {previous current : Loaded}
    (chain : (done ++ [previous]).IsChain Continues) (differ : ¬ Continues previous current) :
    ofLoaded (done ++ previous :: current :: rest) =
      .error (current.sample.mismatch previous.sample current.iteration) := by
  have hempty : (done ++ previous :: current :: rest).isEmpty = false :=
    List.isEmpty_eq_false_iff.2 (List.append_ne_nil_of_right_ne_nil _ (List.cons_ne_nil _ _))
  simp only [ofLoaded, hempty, Bool.false_eq_true, ↓reduceIte, greatestDelta_of_break chain differ]
  rfl

theorem exact_of_chain (hne : samples ≠ []) :
    Exact samples ⟨leastWorkload samples, greatestWorkload samples, (changes samples).foldl Stats.greater 0.0⟩ := by
  constructor
  · exact exact_extreme Stats.selects_lesser Sample.exact_min infinity_isNaN.1 le_infinity hne
  · exact exact_extreme Stats.selects_greater Sample.exact_max infinity_isNaN.2.1 infinity_le hne
  · intro hlength
    have hchanges : changes samples ≠ [] := by
      match samples with
      | [] => exact absurd rfl hne
      | [single] => exact absurd rfl hlength
      | _ :: _ :: _ => exact changes_ne_nil
    exact Stats.selects_greater.exact_foldl infinity_isNaN.2.2 (fun d hd => (number_of_mem_changes hd).1)
      (fun d hd => (number_of_mem_changes hd).2) hchanges
  · intro hlength
    obtain ⟨single, rfl⟩ := List.length_eq_one_iff.1 hlength
    rfl

theorem chain_of_ofLoaded {b : Bounds} (h : ofLoaded samples = .ok b) :
    samples ≠ [] ∧ samples.IsChain Continues := by
  constructor
  · rintro rfl
    cases h
  · rcases chain_or_break samples with chain | ⟨done, previous, current, rest, rfl, chain, differ⟩
    · exact chain
    · rw [ofLoaded_of_break chain differ] at h
      cases h

theorem exact_of_ofLoaded {b : Bounds} (h : ofLoaded samples = .ok b) : Exact samples b := by
  obtain ⟨hne, chain⟩ := chain_of_ofLoaded h
  rw [ofLoaded_of_chain chain hne] at h
  cases h
  exact exact_of_chain hne

theorem mem_changes {done rest : List Loaded} {previous current : Loaded} {d : Float}
    (h : d ∈ List.zipWith (fun x y => (x - y).abs) current.sample.values previous.sample.values) :
    d ∈ changes (done ++ previous :: current :: rest) := by
  induction done with
  | nil => exact List.mem_append_left _ h
  | cons first done ih =>
    cases done with
    | nil => exact List.mem_append_right _ ih
    | cons second done => exact List.mem_append_right _ ih

/-- No worker changes by more than the bound from one sample to the next one. -/
theorem deltas_of_ofLoaded {done rest : List Loaded} {previous current : Loaded} {b : Bounds}
    (h : ofLoaded (done ++ previous :: current :: rest) = .ok b) :
    ∃ deltas, current.sample.deltasFrom previous.sample current.iteration = .ok deltas ∧
      ∀ d ∈ deltas, d.abs ≤ b.maxAbsDelta := by
  have hlength : (done ++ previous :: current :: rest).length ≠ 1 := by
    simp only [List.length_append, List.length_cons]
    omega
  obtain ⟨-, hworkers, -⟩ := List.isChain_append_cons_cons.1 (chain_of_ofLoaded h).2
  refine ⟨_, Sample.deltasFrom_of_workers_eq hworkers _, ?_⟩
  intro d hd
  apply ((exact_of_ofLoaded h).maxAbsDelta hlength).bound
  apply mem_changes
  rw [← List.map_zipWith]
  exact List.mem_map_of_mem hd

theorem deltas_of_inOrder {sample : Nat → Sample} {count first i : Nat} {b : Bounds}
    (h : ofLoaded (inOrder sample count first) = .ok b) (hi : first < i) (hlt : i < first + count) :
    ∃ deltas, (sample i).deltasFrom (sample (i - 1)) i = .ok deltas ∧ ∀ d ∈ deltas, d.abs ≤ b.maxAbsDelta := by
  obtain ⟨k, rfl⟩ := Nat.exists_eq_add_of_lt hi
  obtain ⟨m, rfl⟩ := Nat.exists_eq_add_of_lt (show k + 1 < count by omega)
  rw [inOrder_neighbours] at h
  exact deltas_of_ofLoaded h

end Exact

/-- All samples list the same workers. -/
def Agree (samples : List Loaded) : Prop :=
  ∀ a ∈ samples, ∀ b ∈ samples, a.sample.workers = b.sample.workers

instance : Trans Continues Continues Continues :=
  ⟨fun h h' => h'.trans h⟩

instance : Std.Symm Continues :=
  ⟨fun _ _ h => h.symm⟩

theorem chain_iff_agree {samples : List Loaded} : samples.IsChain Continues ↔ Agree samples := by
  rw [List.isChain_iff_pairwise]
  constructor
  · intro pairwise a ha b hb
    exact List.Pairwise.forall_of_forall (R := Continues) (fun _ _ => rfl) pairwise hb ha
  · intro agree
    exact List.pairwise_of_forall_mem_list fun a ha b hb => agree b hb a ha

/-- Samples that do not agree have a first one that breaks with the sample before it, and that one is reported. -/
theorem ofLoaded_of_not_agree {samples : List Loaded} (h : ¬ Agree samples) :
    ∃ done previous current rest, samples = done ++ previous :: current :: rest ∧
      Agree (done ++ [previous]) ∧ current.sample.workers ≠ previous.sample.workers ∧
      ofLoaded samples = .error (if current.sample.workers.length = previous.sample.workers.length
        then .otherWorkers current.iteration
        else .workerCount current.iteration previous.sample.workers.length current.sample.workers.length) := by
  rcases chain_or_break samples with chain | ⟨done, previous, current, rest, rfl, chain, differ⟩
  · exact absurd (chain_iff_agree.1 chain) h
  · refine ⟨done, previous, current, rest, rfl, chain_iff_agree.1 chain, differ, ?_⟩
    rw [ofLoaded_of_break chain differ, Sample.mismatch_eq]

theorem eq_nil_of_ofLoaded {samples : List Loaded} (h : ofLoaded samples = .error .nothingLoaded) : samples = [] := by
  by_contra hne
  by_cases agree : Agree samples
  · rw [ofLoaded_of_chain (chain_iff_agree.2 agree) hne] at h
    cases h
  · obtain ⟨_, _, current, _, -, -, -, hmismatch⟩ := ofLoaded_of_not_agree agree
    rw [hmismatch] at h
    split at h
    · cases h
    · cases h

/-- Bounds are missing exactly if there are no samples or the samples do not all list the same workers. In that case the
first sample that breaks with the one before it is reported by its own iteration; the numbers of workers are compared
first. Bounds that are there are exact. -/
theorem ofLoaded_exact (samples : List Loaded) :
    (ofLoaded samples = .error .nothingLoaded ↔ samples = []) ∧
    (samples ≠ [] → ((∃ b, ofLoaded samples = .ok b) ↔ Agree samples)) ∧
    (¬ Agree samples → ∃ done previous current rest, samples = done ++ previous :: current :: rest ∧
      Agree (done ++ [previous]) ∧ current.sample.workers ≠ previous.sample.workers ∧
      ofLoaded samples = .error (if current.sample.workers.length = previous.sample.workers.length
        then .otherWorkers current.iteration
        else .workerCount current.iteration previous.sample.workers.length current.sample.workers.length)) ∧
    ∀ b, ofLoaded samples = .ok b → Exact samples b := by
  refine ⟨⟨eq_nil_of_ofLoaded, ?_⟩, fun hne => ⟨?_, ?_⟩, ofLoaded_of_not_agree, fun b => exact_of_ofLoaded⟩
  · rintro rfl
    rfl
  · rintro ⟨b, hb⟩
    exact chain_iff_agree.1 (chain_of_ofLoaded hb).2
  · intro agree
    exact ⟨_, ofLoaded_of_chain (chain_iff_agree.2 agree) hne⟩

end Bounds

end WorkloadAtlas
