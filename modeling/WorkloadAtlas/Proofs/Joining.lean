import Mathlib.Data.Finset.Sort
import WorkloadAtlas.Proofs.Arrangement
import WorkloadAtlas.Proofs.Cells
import WorkloadAtlas.Proofs.Changes
/-!
Changes are taken by worker. Samples are compared and subtracted position by position, and files may list their rows in
any order; as each sample lists the workers of its file in ascending order and once, this is the join of both files by
worker.
-/

namespace WorkloadAtlas

namespace Sample.Arranges

variable {s : Sample} {rows : List (Int × Float)}

/-- The workers of a sample are those of the rows as a set, in ascending order. -/
theorem workers_eq (h : s.Arranges rows) : s.workers = (rows.map (·.1)).toFinset.sort (· ≤ ·) := by
  rw [← List.toFinset_eq_of_perm _ _ h.perm_workers]
  have hnodup : s.workers.Nodup := h.ordered.imp Int.ne_of_lt
  exact ((List.toFinset_sort (· ≤ ·) hnodup).2 (h.ordered.imp Int.le_of_lt)).symm

theorem length_workers (h : s.Arranges rows) : s.workers.length = (rows.map (·.1)).toFinset.card := by
  rw [h.workers_eq, Finset.length_sort]

theorem lookup_of_mem (h : s.Arranges rows) {row : Int × Float} (hrow : row ∈ s.workers.zip s.values) :
    rows.lookup row.1 = some row.2 := by
  obtain ⟨before, after, hsplit⟩ := List.append_of_mem (h.perm.mem_iff.1 hrow)
  refine List.lookup_eq_some_iff.2 ⟨before, after, hsplit, ?_⟩
  have hnodup := h.nodup
  rw [hsplit, List.map_append, List.nodup_append] at hnodup
  intro other hother
  exact bne_iff_ne.2 (hnodup.2.2 _ (List.mem_map_of_mem hother) _ List.mem_cons_self).symm

/-- Each value is the one that the rows have for its worker. -/
theorem values_eq (h : s.Arranges rows) : s.values.map some = s.workers.map fun worker => rows.lookup worker := by
  rw [← map_snd s]
  conv => rhs; rw [← map_fst s]
  rw [List.map_map, List.map_map]
  exact List.map_congr_left fun row hrow => (h.lookup_of_mem hrow).symm

end Sample.Arranges

namespace Workloads

/-- The rows of the file of an iteration, cast, in the order in which it lists them. -/
structure Listed (w : Workspace) (sim : Simulation) (layout : Layout) (iteration : Nat) (rows : List (Int × Float)) :
    Prop where
  isFile : w.files.isFile (layout.path sim iteration) = true
  casts : ∃ content table, w.files.read (layout.path sim iteration) = .ok content ∧
    Table.ofBytes layout.separator content.toBytes = .ok table ∧
    Casts layout table (rows.map (·.1)) (rows.map (·.2))

section Listed

variable {w : Workspace} {sim : Simulation} {layout : Layout} {iteration : Nat} {rows : List (Int × Float)} {s : Sample}

theorem exists_listed (h : w.workloads sim layout iteration = .ok s) : ∃ rows, Listed w sim layout iteration rows := by
  rw [Workspace.workloads_eq] at h
  obtain ⟨hfile, content, table, hread, htable, hs⟩ := table_of_inFiles h
  obtain ⟨-, ids, values, hcasts⟩ := casts_of_ofTable hs
  have hlength := hcasts.length_eq htable
  refine ⟨ids.zip values, hfile, content, table, hread, htable, ?_⟩
  rwa [List.map_fst_zip (Nat.le_of_eq hlength), List.map_snd_zip (Nat.le_of_eq hlength.symm)]

theorem Listed.arranges (listed : Listed w sim layout iteration rows) (h : w.workloads sim layout iteration = .ok s) :
    s.Arranges rows := by
  obtain ⟨content, table, hread, htable, hcasts⟩ := listed.casts
  rw [Workspace.workloads_eq, inFiles_eq_ofTable listed.isFile hread htable] at h
  obtain ⟨hne, -⟩ := casts_of_ofTable h
  rw [hcasts.ofTable_eq hne] at h
  have hperm := perm_of_ofColumns h
  rw [← List.zip_of_prod rfl rfl] at hperm
  exact ⟨ordered_of_ofColumns h, hperm⟩

theorem Listed.exists_workloads (listed : Listed w sim layout iteration rows)
    (hne : layout.idColumn ≠ layout.valueColumn) (hfinite : ∀ v ∈ rows.map (·.2), v.isFinite = true)
    (hnodup : (rows.map (·.1)).Nodup) (hnonempty : rows.map (·.1) ≠ []) :
    ∃ s, w.workloads sim layout iteration = .ok s := by
  obtain ⟨content, table, hread, htable, hcasts⟩ := listed.casts
  rw [Workspace.workloads_eq, inFiles_eq_ofTable listed.isFile hread htable, hcasts.ofTable_eq hne]
  exact exists_ofColumns _ _ (hcasts.length_eq htable) hfinite hnodup hnonempty

theorem listed_stored {content : String}
    (hcolumns : columns? .standard (.text content) = some ((rows.map (·.1)).map some, (rows.map (·.2)).map some)) :
    Listed (stored content) only .standard 0 rows := by
  obtain ⟨table, htable, hcasts⟩ := casts_of_columns? hcolumns
  exact ⟨rfl, .text content, table, rfl, htable, hcasts⟩

end Listed

end Workloads

namespace Sample

variable {current previous : Sample} {now before : List (Int × Float)}

theorem deltas_eq_ok_iff {iteration : Nat} :
    (∃ deltas, current.deltasFrom previous iteration = .ok deltas) ↔ current.workers = previous.workers := by
  constructor
  · rintro ⟨deltas, h⟩
    by_contra hne
    rw [deltasFrom_of_workers_ne hne] at h
    cases h
  · intro h
    exact ⟨_, deltasFrom_of_workers_eq h iteration⟩

/-- Two samples list the same workers exactly if their rows do as sets. -/
theorem Arranges.workers_eq_iff (hnow : current.Arranges now) (hbefore : previous.Arranges before) :
    current.workers = previous.workers ↔ (now.map (·.1)).toFinset = (before.map (·.1)).toFinset := by
  constructor
  · intro h
    rw [← List.toFinset_eq_of_perm _ _ hnow.perm_workers, ← List.toFinset_eq_of_perm _ _ hbefore.perm_workers, h]
  · intro h
    rw [hnow.workers_eq, hbefore.workers_eq, h]

/-- Along the workers of both samples each change is the difference of what the two files have for the worker. -/
theorem Arranges.deltas_eq (hnow : current.Arranges now) (hbefore : previous.Arranges before)
    (h : current.workers = previous.workers) :
    (List.zipWith (· - ·) current.values previous.values).map some =
      current.workers.map fun worker => Option.map₂ (· - ·) (now.lookup worker) (before.lookup worker) := by
  calc (List.zipWith (· - ·) current.values previous.values).map some
      = List.zipWith (Option.map₂ (· - ·)) (current.values.map some) (previous.values.map some) := by
        rw [List.map_zipWith, List.zipWith_map]
        rfl
    _ = List.zipWith (Option.map₂ (· - ·)) (current.workers.map fun worker => now.lookup worker)
          (current.workers.map fun worker => before.lookup worker) := by
        rw [hnow.values_eq, hbefore.values_eq, h]
    _ = _ := by rw [List.zipWith_map, List.zipWith_self]

end Sample

namespace Workloads

/-- Changes between two loaded files are those of the join by worker, whatever the order of the rows. They exist exactly
if both files list the same set of workers, each of which they list once; then the `k`-th change is that of the `k`-th
worker in ascending order. Otherwise the number of workers is reported, or, if that is the same, that they differ. -/
theorem deltas_by_worker (w w' : Workspace) (sim sim' : Simulation) (layout layout' : Layout) (i i' iteration : Nat)
    (current previous : Sample) (hcurrent : w.workloads sim layout i = .ok current)
    (hprevious : w'.workloads sim' layout' i' = .ok previous) :
    (∃ now, Listed w sim layout i now) ∧ (∃ before, Listed w' sim' layout' i' before) ∧
    ∀ now before, Listed w sim layout i now → Listed w' sim' layout' i' before →
      let workers := (now.map (·.1)).toFinset
      let known := (before.map (·.1)).toFinset
      (now.map (·.1)).Nodup ∧ (before.map (·.1)).Nodup ∧
      ((∃ deltas, current.deltasFrom previous iteration = .ok deltas) ↔ workers = known) ∧
      (∀ deltas, current.deltasFrom previous iteration = .ok deltas →
        deltas.map some = (workers.sort (· ≤ ·)).map fun worker =>
          Option.map₂ (· - ·) (now.lookup worker) (before.lookup worker)) ∧
      (workers.card ≠ known.card →
        current.deltasFrom previous iteration = .error (.workerCount iteration known.card workers.card)) ∧
      (workers.card = known.card → workers ≠ known →
        current.deltasFrom previous iteration = .error (.otherWorkers iteration)) := by
  refine ⟨exists_listed hcurrent, exists_listed hprevious, ?_⟩
  intro now before hnow hbefore workers known
  have hnow := hnow.arranges hcurrent
  have hbefore := hbefore.arranges hprevious
  have hworkers : current.workers = previous.workers ↔ workers = known := hnow.workers_eq_iff hbefore
  have hmismatch (hne : workers ≠ known) : current.deltasFrom previous iteration =
      .error (if workers.card = known.card then .otherWorkers iteration
        else .workerCount iteration known.card workers.card) := by
    rw [Sample.deltasFrom_of_workers_ne (mt hworkers.1 hne), Sample.mismatch_eq, hnow.length_workers,
      hbefore.length_workers]
  refine ⟨hnow.nodup, hbefore.nodup, Sample.deltas_eq_ok_iff.trans hworkers, ?_, ?_, ?_⟩
  · intro deltas h
    have heq := Sample.deltas_eq_ok_iff.1 ⟨deltas, h⟩
    rw [Sample.deltasFrom_of_workers_eq heq] at h
    cases h
    rw [hnow.deltas_eq hbefore heq, hnow.workers_eq]
  · intro hcard
    rw [hmismatch fun heq => hcard (congrArg Finset.card heq), if_neg hcard]
  · intro hcard hne
    rw [hmismatch hne, if_pos hcard]

/-- Two files whose rows stand in opposite orders: each worker is compared with itself. -/
theorem deltas_by_worker_stored : ∃ current previous,
    (stored "edge-id new_metric\n7 6.5\n3 1.5\n").workloads only .standard 0 = .ok current ∧
    (stored "edge-id new_metric\n3 4.5\n7 2.5\n").workloads only .standard 0 = .ok previous ∧
    current.deltasFrom previous 1 = .ok [1.5 - 4.5, 6.5 - 2.5] := by
  have hnow : Listed (stored "edge-id new_metric\n7 6.5\n3 1.5\n") only .standard 0 [(7, 6.5), (3, 1.5)] :=
    listed_stored (by decide +kernel)
  have hbefore : Listed (stored "edge-id new_metric\n3 4.5\n7 2.5\n") only .standard 0 [(3, 4.5), (7, 2.5)] :=
    listed_stored (by decide +kernel)
  obtain ⟨current, hcurrent⟩ := hnow.exists_workloads (by decide) (by decide +kernel) (by decide) (by decide)
  obtain ⟨previous, hprevious⟩ := hbefore.exists_workloads (by decide) (by decide +kernel) (by decide) (by decide)
  refine ⟨current, previous, hcurrent, hprevious, ?_⟩
  obtain ⟨-, -, hjoin⟩ := deltas_by_worker _ _ only only .standard .standard 0 0 1 current previous hcurrent hprevious
  obtain ⟨-, -, hexists, hdeltas, -⟩ := hjoin _ _ hnow hbefore
  obtain ⟨deltas, hok⟩ := hexists.2 (by decide)
  have hsort : ([(7, 6.5), (3, 1.5)].map (·.1) : List Int).toFinset.sort (· ≤ ·) = [3, 7] := by
    have hset : ([(7, 6.5), (3, 1.5)].map (·.1) : List Int).toFinset = [3, 7].toFinset := by decide
    rw [hset]
    exact (List.toFinset_sort _ (by decide)).2 (by decide)
  have hsome : deltas.map some = [1.5 - 4.5, 6.5 - 2.5].map some := by
    rw [hdeltas deltas hok, hsort]
    decide +kernel
  rw [hok, List.map_injective_iff.2 (Option.some_injective Float) hsome]

end Workloads

end WorkloadAtlas
