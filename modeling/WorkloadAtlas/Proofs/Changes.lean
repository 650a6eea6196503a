import Mathlib.Data.List.Chain
import WorkloadAtlas.Bounds
/-!
Changes between samples exist exactly if both list the same workers, and bounds over iterations exist exactly if
neighbours do. The first iteration whose workers differ from those before it is the one that is reported.
-/

namespace WorkloadAtlas

namespace Sample

/-- What is reported if `current` does not list the workers of the sample before it. -/
def mismatch (current previous : Sample) (iteration : Nat) : Failure :=
  if current.size = previous.size then .otherWorkers iteration
  else .workerCount iteration previous.size current.size

/-- What is reported depends on the workers only. -/
theorem mismatch_eq (current previous : Sample) (iteration : Nat) :
    current.mismatch previous iteration =
      if current.workers.length = previous.workers.length then .otherWorkers iteration
      else .workerCount iteration previous.workers.length current.workers.length := by
  rw [current.lengths_eq, previous.lengths_eq]
  rfl

theorem size_eq_of_workers_eq {a b : Sample} (h : a.workers = b.workers) : a.size = b.size := by
  unfold size
  rw [← a.lengths_eq, ← b.lengths_eq, h]

theorem deltasFrom_of_workers_eq {current previous : Sample} (h : current.workers = previous.workers)
    (iteration : Nat) :
    current.deltasFrom previous iteration = .ok (List.zipWith (· - ·) current.values previous.values) := by
  simp only [deltasFrom, size_eq_of_workers_eq h, h, bne_self_eq_false, Bool.false_eq_true, ↓reduceIte]

theorem deltasFrom_of_workers_ne {current previous : Sample} (h : current.workers ≠ previous.workers)
    (iteration : Nat) :
    current.deltasFrom previous iteration = .error (current.mismatch previous iteration) := by
  by_cases hsize : current.size = previous.size
  · simp only [deltasFrom, mismatch, hsize, bne_self_eq_false, Bool.false_eq_true, ↓reduceIte,
      bne_iff_ne.2 h]
  · simp only [deltasFrom, mismatch, hsize, bne_iff_ne.2 hsize, ↓reduceIte]

end Sample

namespace Bounds

/-- Neighbours that list the same workers are passed over, whatever the greatest change up to there. -/
theorem greatestDelta_cons (previous current : Loaded) (rest : List Loaded)
    (h : current.sample.workers = previous.sample.workers) (greatest : Float) :
    ∃ g, greatestDelta greatest (previous :: current :: rest) = greatestDelta g (current :: rest) := by
  simp only [greatestDelta, Sample.deltasFrom_of_workers_eq h]
  exact ⟨_, rfl⟩

theorem greatestDelta_cons_error {previous current : Loaded}
    (h : current.sample.workers ≠ previous.sample.workers) (greatest : Float) (rest : List Loaded) :
    greatestDelta greatest (previous :: current :: rest) =
      .error (current.sample.mismatch previous.sample current.iteration) := by
  simp only [greatestDelta, Sample.deltasFrom_of_workers_ne h]
  rfl

/-- The second of two samples lists the workers of the first one. -/
def Continues (previous current : Loaded) : Prop :=
  current.sample.workers = previous.sample.workers

/-- The absolute changes of all workers between neighbours in the list. -/
def changes (samples : List Loaded) : List Float :=
  (samples.zip samples.tail).flatMap fun (previous, current) =>
    List.zipWith (fun x y => (x - y).abs) current.sample.values previous.sample.values

theorem changes_cons (previous current : Loaded) (rest : List Loaded) :
    changes (previous :: current :: rest) =
      List.zipWith (fun x y => (x - y).abs) current.sample.values previous.sample.values ++ changes (current :: rest) :=
  rfl

/-- Along samples that list the same workers the greatest change is taken over all changes, one after another. -/
theorem greatestDelta_of_chain {samples : List Loaded} (chain : samples.IsChain Continues) (greatest : Float) :
    greatestDelta greatest samples = .ok ((changes samples).foldl Stats.greater greatest) := by
  induction samples generalizing greatest with
  | nil => rfl
  | cons previous rest ih =>
    cases rest with
    | nil => rfl
    | cons current rest =>
      obtain ⟨hworkers, htail⟩ := List.isChain_cons_cons.1 chain
      rw [greatestDelta, Sample.deltasFrom_of_workers_eq hworkers, changes_cons, List.foldl_append]
      have hfold : (List.zipWith (· - ·) current.sample.values previous.sample.values).foldl
          (fun greatest d => Stats.greater greatest d.abs) greatest =
            (List.zipWith (fun x y => (x - y).abs) current.sample.values previous.sample.values).foldl
              Stats.greater greatest := by
        rw [← List.map_zipWith, List.foldl_map]
      rw [← hfold]
      exact ih htail _

/-- The first sample that does not list the workers of the one before it is reported. -/
theorem greatestDelta_of_break {done rest : List Loaded} {previous current : Loaded}
    (chain : (done ++ [previous]).IsChain Continues) (differ : ¬ Continues previous current) (greatest : Float) :
    greatestDelta greatest (done ++ previous :: current :: rest) =
      .error (current.sample.mismatch previous.sample current.iteration) := by
  induction done generalizing greatest with
  | nil => exact greatestDelta_cons_error differ greatest rest
  | cons first done ih =>
    cases done with
    | nil =>
      obtain ⟨hworkers, htail⟩ := List.isChain_cons_cons.1 chain
      obtain ⟨g, hg⟩ := greatestDelta_cons first previous (current :: rest) hworkers greatest
      exact hg.trans (ih htail g)
    | cons second done =>
      obtain ⟨hworkers, htail⟩ := List.isChain_cons_cons.1 chain
      obtain ⟨g, hg⟩ := greatestDelta_cons first second (done ++ previous :: current :: rest) hworkers greatest
      exact hg.trans (ih htail g)

/-- Samples that do not all list the same workers have a first one that breaks with the one before it. -/
theorem chain_or_break (samples : List Loaded) :
    samples.IsChain Continues ∨
      ∃ done previous current rest, samples = done ++ previous :: current :: rest ∧
        (done ++ [previous]).IsChain Continues ∧ ¬ Continues previous current := by
  induction samples with
  | nil => exact .inl .nil
  | cons first rest ih =>
    cases rest with
    | nil => exact .inl (.singleton first)
    | cons second rest =>
      by_cases hworkers : Continues first second
      · rcases ih with chain | ⟨done, previous, current, after, heq, chain, differ⟩
        · exact .inl (.cons_cons hworkers chain)
        · refine .inr ⟨first :: done, previous, current, after, congrArg (first :: ·) heq, ?_, differ⟩
          cases done with
          | nil =>
            cases heq
            exact .cons_cons hworkers chain
          | cons next done =>
            cases heq
            exact .cons_cons hworkers chain
      · exact .inr ⟨[], first, second, rest, rfl, .singleton first, hworkers⟩

/-- The samples of `count` iterations from `first` on. -/
def inOrder (sample : Nat → Sample) (count first : Nat) : List Loaded :=
  (List.range' first count).map fun i => ⟨i, sample i⟩

theorem inOrder_succ (sample : Nat → Sample) (count first : Nat) :
    inOrder sample (count + 1) first = ⟨first, sample first⟩ :: inOrder sample count (first + 1) := by
  simp only [inOrder, List.range'_succ, List.map_cons]

theorem inOrder_add (sample : Nat → Sample) (count more first : Nat) :
    inOrder sample (count + more) first = inOrder sample count first ++ inOrder sample more (first + count) := by
  simp only [inOrder, ← List.map_append, List.range'_append_1]

/-- Two neighbours, with what is before and after them. -/
theorem inOrder_neighbours (sample : Nat → Sample) (k m first : Nat) :
    inOrder sample (k + 1 + m + 1) first = inOrder sample k first ++
      ⟨first + k, sample (first + k)⟩ :: ⟨first + k + 1, sample (first + k + 1)⟩ ::
        inOrder sample m (first + k + 1 + 1) := by
  have hcount : k + 1 + m + 1 = k + (m + 1 + 1) := by omega
  rw [hcount, inOrder_add, inOrder_succ, inOrder_succ]

theorem chain_inOrder {sample : Nat → Sample} {count first : Nat}
    (agree : ∀ i, first < i → i < first + count → (sample i).workers = (sample (i - 1)).workers) :
    (inOrder sample count first).IsChain Continues := by
  induction count generalizing first with
  | zero => exact .nil
  | succ count ih =>
    have htail : (inOrder sample count (first + 1)).IsChain Continues :=
      ih fun i hi hlt => agree i (by omega) (by omega)
    cases count with
    | zero => exact .singleton _
    | succ count =>
      rw [inOrder_succ, inOrder_succ]
      rw [inOrder_succ] at htail
      exact .cons_cons (agree (first + 1) (by omega) (by omega)) htail

theorem greatestDelta_eq_error {sample : Nat → Sample} {count first i : Nat} (greatest : Float) (hi : first < i)
    (hlt : i < first + count) (differ : (sample i).workers ≠ (sample (i - 1)).workers)
    (before : ∀ j, first < j → j < i → (sample j).workers = (sample (j - 1)).workers) :
    greatestDelta greatest (inOrder sample count first) = .error ((sample i).mismatch (sample (i - 1)) i) := by
  obtain ⟨k, rfl⟩ := Nat.exists_eq_add_of_lt hi
  obtain ⟨m, rfl⟩ := Nat.exists_eq_add_of_lt (show k + 1 < count by omega)
  have hchain : (inOrder sample (k + 1) first).IsChain Continues :=
    chain_inOrder fun j hj hlt => before j hj (by omega)
  have hdiffer : ¬ Continues ⟨first + k, sample (first + k)⟩ ⟨first + k + 1, sample (first + k + 1)⟩ := differ
  rw [inOrder_add] at hchain
  rw [inOrder_neighbours]
  exact greatestDelta_of_break hchain hdiffer greatest

theorem ofLoaded_eq_ok {sample : Nat → Sample} {count first : Nat} (hpos : 0 < count)
    (agree : ∀ i, first < i → i < first + count → (sample i).workers = (sample (i - 1)).workers) :
    ∃ b, ofLoaded (inOrder sample count first) = .ok b := by
  obtain ⟨count, rfl⟩ := Nat.exists_eq_succ_of_ne_zero (Nat.ne_of_gt hpos)
  have hg := greatestDelta_of_chain (chain_inOrder agree) 0.0
  rw [inOrder_succ] at hg ⊢
  simp only [ofLoaded, List.isEmpty_cons, Bool.false_eq_true, ↓reduceIte, hg]
  exact ⟨_, rfl⟩

theorem ofLoaded_eq_error {sample : Nat → Sample} {count first i : Nat} (hi : first < i)
    (hlt : i < first + count) (differ : (sample i).workers ≠ (sample (i - 1)).workers)
    (before : ∀ j, first < j → j < i → (sample j).workers = (sample (j - 1)).workers) :
    ofLoaded (inOrder sample count first) = .error ((sample i).mismatch (sample (i - 1)) i) := by
  obtain ⟨count, rfl⟩ := Nat.exists_eq_succ_of_ne_zero (show count ≠ 0 by omega)
  unfold ofLoaded
  rw [greatestDelta_eq_error 0.0 hi hlt differ before, inOrder_succ]
  rfl

end Bounds

end WorkloadAtlas
