import Mathlib
import WorkloadAtlas.Proofs.Acceptance
import WorkloadAtlas.Proofs.Outcome
/-!
The first reading of a run. It finds the samples of all iterations and bounds over them, or the run ends there; so a run
that succeeds has found both.
-/

namespace WorkloadAtlas.Run

open Number (IsWord)
open Replayable

section Replay

variable {m : Type → Type} {τ : Type} [Monad m] [Host m] [Replayable m τ] {draw : Visualiser m}
  {sim : Simulation} {layout : Workloads.Layout} {levels : Quantile.Levels}

theorem quiet_loadAll (t : τ) (sim : Simulation) (layout : Workloads.Layout) :
    Quiet (fun t' => files m t' = files m t) (Workloads.loadAll sim layout : m _)
      ((Workloads.triedAll (Workloads.inFiles (files m t) sim layout) sim).map (Workloads.announcement sim layout))
      (Workloads.gatherAll (Workloads.inFiles (files m t) sim layout) sim) := by
  have halike : ∀ t', files m t' = files m t → Workloads.Alike sim layout (files m t) (files m t') := by
    intro t' h
    rw [h]
    exact .refl sim layout (files m t)
  exact Workloads.quiet_loadAll (logStable_files t) halike

theorem gather_of_run {t t' : τ} {reports : List Report}
    (h : replay (run draw sim layout levels) t = (.ok reports, t')) :
    ∃ samples bounds, Workloads.gatherAll (Workloads.inFiles (files m t) sim layout) sim = .ok samples ∧
      Bounds.ofLoaded samples = .ok bounds := by
  obtain ⟨bounds, drawn, hoverview, -⟩ := replay_run_bind_eq_ok h
  obtain ⟨u, announced, hannounced, hoverview⟩ := replay_run_bind_eq_ok hoverview
  obtain ⟨samples, loaded, hload, hoverview⟩ := replay_run_bind_eq_ok hoverview
  obtain ⟨bounds', bounded, hbounds, -⟩ := replay_run_bind_eq_ok hoverview
  have hfiles : files m announced = files m t := by
    rw [replay_run_liftM] at hannounced
    rw [← (Prod.mk.inj hannounced).2]
    exact files_log (m := m) _ t
  have hquiet := quiet_loadAll t sim layout announced hfiles
  have hofLoaded : Bounds.ofLoaded samples = .ok bounds' := by
    have hpure : replay (ExceptT.mk (pure (f := m) (Bounds.ofLoaded samples))).run loaded =
      (Bounds.ofLoaded samples, loaded) := replay_pure (m := m) _ _
    exact congrArg Prod.fst (hpure.symm.trans hbounds)
  exact ⟨samples, bounds', congrArg Prod.fst (hquiet.symm.trans hload), hofLoaded⟩

end Replay

theorem loadAll_eq (sim : Simulation) (layout : Workloads.Layout) (w : Workspace) :
    ((Workloads.loadAll sim layout : Desk (Except Failure (List Loaded))) w).1 =
      Workloads.gatherAll (w.workloads sim layout) sim := by
  rw [Workspace.workloads_eq]
  exact congrArg Prod.fst (quiet_loadAll (m := Desk) w sim layout w rfl)

theorem loadAll_of_found {sim : Simulation} {layout : Workloads.Layout} {w : Workspace} {sample : Nat → Sample}
    (hstop : IsWord sim.stop) (found : ∀ i ∈ sim.iterations, w.workloads sim layout i = .ok (sample i)) :
    ((Workloads.loadAll sim layout : Desk (Except Failure (List Loaded))) w).1 =
      .ok (sim.iterations.map fun i => ⟨i, sample i⟩) := by
  rw [loadAll_eq, Workloads.gatherAll_eq_ok hstop found]

/-- What is loaded has an end that can be calculated. -/
theorem samples_of_loadAll {sim : Simulation} {layout : Workloads.Layout} {w : Workspace} {samples : List Loaded}
    (loads : ((Workloads.loadAll sim layout : Desk (Except Failure (List Loaded))) w).1 = .ok samples) :
    IsWord sim.stop ∧
      ∃ sample : Nat → Sample, (∀ i ∈ sim.iterations, w.workloads sim layout i = .ok (sample i)) ∧
        samples = sim.iterations.map fun i => ⟨i, sample i⟩ := by
  by_cases hstop : IsWord sim.stop
  · refine ⟨hstop, ?_⟩
    have hfound {sample : Nat → Sample}
        (found : ∀ i ∈ sim.iterations, w.workloads sim layout i = .ok (sample i)) :
        samples = sim.iterations.map fun i => ⟨i, sample i⟩ :=
      Except.ok.inj (loads.symm.trans (loadAll_of_found hstop found))
    cases prospect sim (w.workloads sim layout) with
    | unloaded i error hi he before =>
      rw [loadAll_eq, Workloads.gatherAll_eq_error hstop hi he before] at loads
      cases loads
    | differing sample i found _ _ _ _ => exact ⟨sample, found, hfound found⟩
    | fitting sample found _ => exact ⟨sample, found, hfound found⟩
  · rw [loadAll_eq, Workloads.gatherAll_of_not_isWord _ hstop] at loads
    cases loads

/-- A table that lists a single worker. -/
def solo : Files.Document :=
  .text "edge-id new_metric\n7 2\n"

/-- The files of a pair of iterations in which that worker is the only one, and an empty directory beside them. -/
def soloFiles : Files.Tree :=
  ⟨[(["plots"], .directory), (["results"], .directory), (["results", "3"], .directory), (["results", "3", "stats"], .directory),
    (["results", "3", "stats", "new_metrics.csv"], .file solo), (["results", "4"], .directory),
    (["results", "4", "stats"], .directory), (["results", "4", "stats", "new_metrics.csv"], .file solo)]⟩

theorem ofBytes_solo : Table.ofBytes 0x20 solo.toBytes =
    .ok ⟨[("edge-id", .integers [some 7]), ("new_metric", .integers [some 2])]⟩ := by
  cbv

theorem workloads_solo {i : Nat} (hi : i ∈ pair.iterations) :
    ∃ s, (Workspace.ofFiles soloFiles).workloads pair .standard i = .ok s ∧ s.workers = [7] := by
  have hstands : soloFiles.isFile (Workloads.Layout.standard.path pair i) = true ∧
      soloFiles.read (Workloads.Layout.standard.path pair i) = .ok solo := by
    have hrange := List.mem_range'_1.1 hi
    have hpair : pair.first = 3 ∧ pair.count = 2 := ⟨rfl, rfl⟩
    have hcases : i = 3 ∨ i = 4 := by omega
    rcases hcases with rfl | rfl
    · exact ⟨by decide, rfl⟩
    · exact ⟨by decide, rfl⟩
  have hcasts : Workloads.Casts .standard
      ⟨[("edge-id", .integers [some 7]), ("new_metric", .integers [some 2])]⟩ [7] [Table.Column.ofInteger 2] :=
    ⟨⟨.integers [some 7], rfl, rfl⟩, ⟨.integers [some 2], rfl, rfl⟩⟩
  have hfinite : ∀ v ∈ [Table.Column.ofInteger 2], v.isFinite = true := by
    intro v hv
    rw [List.mem_singleton.1 hv]
    decide +kernel
  have hnodup : [(7 : Int)].Nodup := List.pairwise_singleton _ 7
  obtain ⟨s, hs⟩ := Workloads.exists_ofColumns (Workloads.Layout.standard.path pair i) .standard rfl hfinite hnodup
    (List.cons_ne_nil _ _)
  rw [Workspace.workloads_eq, Workspace.ofFiles, Workloads.inFiles_eq_ofTable hstands.1 hstands.2 ofBytes_solo,
    hcasts.ofTable_eq (by decide)]
  refine ⟨s, hs, ?_⟩
  rw [(Workloads.ofColumns_eq_ok hs).1]
  exact List.perm_singleton.1 (Workloads.perm_workers rfl)

theorem solo_bounded : ∃ (sample : Nat → Sample) (bounds : Bounds),
    (∀ i ∈ pair.iterations, (Workspace.ofFiles soloFiles).workloads pair .standard i = .ok (sample i)) ∧
      Bounds.ofLoaded (pair.iterations.map fun i => ⟨i, sample i⟩) = .ok bounds := by
  cases prospect pair ((Workspace.ofFiles soloFiles).workloads pair .standard) with
  | unloaded i error hi he before =>
    obtain ⟨s, hs, -⟩ := workloads_solo hi
    rw [he] at hs
    cases hs
  | differing sample i found hi hne differ before =>
    have hworkers (j : Nat) (hj : j ∈ pair.iterations) : (sample j).workers = [7] := by
      obtain ⟨s, hs, hworkers⟩ := workloads_solo hj
      rw [found j hj] at hs
      cases hs
      exact hworkers
    have hrange := List.mem_range'_1.1 hi
    have hprevious : i - 1 ∈ pair.iterations := List.mem_range'_1.2 ⟨by omega, by omega⟩
    exact absurd ((hworkers i hi).trans (hworkers (i - 1) hprevious).symm) differ
  | fitting sample found agree =>
    obtain ⟨bounds, hbounds⟩ := ofLoaded_agreeing agree
    exact ⟨sample, bounds, found, hbounds⟩

end WorkloadAtlas.Run
