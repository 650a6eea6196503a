import WorkloadAtlas.Plot.Gallery
import WorkloadAtlas.Proofs.Axes
import WorkloadAtlas.Proofs.Finiteness
import WorkloadAtlas.Proofs.Margins
import WorkloadAtlas.Proofs.Tallies
/-!
The bars of the histogram. The axis contains the bounds over all iterations, and these contain the workloads of every
state, so each worker is counted in one of the bars. The exception is an axis without values: then there are no bars.
-/

namespace WorkloadAtlas

open Number

/-- All workloads are equal, and so great that the axis for them gets no margins. -/
def Bounds.Flat (b : Bounds) : Prop :=
  (b.minWorkload == b.maxWorkload) = true ∧ Coarse b.minWorkload

theorem Stats.Exact.isFinite {r : Float → Float → Prop} {values : List Float} {x : Float} (h : Stats.Exact r values x)
    (hvalues : ∀ v ∈ values, v.isFinite = true) : x.isFinite = true := by
  obtain ⟨v, hv, heq⟩ := h.attained
  have hfinite := hvalues v hv
  have hnumber := isNaN_of_isFinite hfinite
  rw [beq_iff_place hnumber h.isNaN] at heq
  exact isFinite_of_between hfinite hfinite ((le_iff_place hnumber h.isNaN).2 heq.le)
    ((le_iff_place h.isNaN hnumber).2 heq.ge)

/-- Bounds over samples are equal to workloads of theirs, so they are finite. -/
theorem Bounds.Exact.isFinite {samples : List Loaded} {b : Bounds} (h : Bounds.Exact samples b) :
    b.minWorkload.isFinite = true ∧ b.maxWorkload.isFinite = true := by
  have hvalues : ∀ v ∈ Bounds.workloads samples, v.isFinite = true := by
    intro v hv
    obtain ⟨loaded, -, hmem⟩ := List.mem_flatMap.1 hv
    exact loaded.sample.finite v hmem
  exact ⟨h.minWorkload.isFinite hvalues, h.maxWorkload.isFinite hvalues⟩

namespace Plot.Gallery

/-- The histogram of a state has a bar for each of its bins, and these count all workers of the sample; there is no bar
if the bounds are flat. -/
def CountsWorkers (g : Gallery) (state : Progress) : Prop :=
  ∃ (s : Sample) (bins : List Bin), state.current = .ok s ∧
    (∀ iteration, ∃ chart width, g.chart .workloadHistogram state iteration = .ok chart ∧
      chart.marks = bins.map fun bin =>
        .bar .pureBlue ⟨bin.start, 0.0⟩ ⟨bin.start + width, Float.ofNat bin.count⟩) ∧
    (¬ state.bounds.Flat → bins.length = g.bins ∧ (bins.map (·.count)).sum = s.size) ∧
    (state.bounds.Flat → bins = [])

theorem countsWorkers_of_bounded (g : Gallery) (hbins : 0 < g.bins) {state : Progress} (bounded : state.Bounded)
    (hmin : state.bounds.minWorkload.isFinite = true) (hmax : state.bounds.maxWorkload.isFinite = true) :
    g.CountsWorkers state := by
  obtain ⟨s, hcurrent, hwithin⟩ := bounded.workloads
  obtain ⟨v, hv⟩ := List.exists_mem_of_ne_nil s.values s.nonempty
  have hle : state.bounds.minWorkload ≤ state.bounds.maxWorkload :=
    le_trans (isNaN_of_isFinite hmin) (s.isNaN_of_mem hv) (isNaN_of_isFinite hmax) (hwithin v hv).1 (hwithin v hv).2
  obtain ⟨hfirst, hlast⟩ := Interval.padded_contains hmin hmax hle
  have hempty := Interval.padded_lt_iff hmin hmax hle
  have hfirstNumber := (isNaN_of_le hfirst).1
  have hlastNumber := (isNaN_of_le hlast).2
  refine ⟨s, Histogram.ofValues s.values (workloadAxis state.bounds).first (workloadAxis state.bounds).last g.bins,
    hcurrent, ?_, ?_, ?_⟩
  · intro iteration
    unfold chart
    simp only [hcurrent]
    exact ⟨_, _, rfl, rfl⟩
  · intro hflat
    have hrange : ¬ (workloadAxis state.bounds).last ≤ (workloadAxis state.bounds).first := by
      have hlt := hempty.2 hflat
      rw [lt_iff_place hfirstNumber hlastNumber] at hlt
      rw [workloadAxis, le_iff_place hlastNumber hfirstNumber]
      exact not_le.2 hlt
    have hall : ∀ v ∈ s.values,
        (decide ((workloadAxis state.bounds).first ≤ v) && decide (v ≤ (workloadAxis state.bounds).last)) = true := by
      intro v hv
      rw [Bool.and_eq_true, decide_eq_true_iff, decide_eq_true_iff]
      exact ⟨le_trans hfirstNumber (isNaN_of_isFinite hmin) (s.isNaN_of_mem hv) hfirst (hwithin v hv).1,
        le_trans (s.isNaN_of_mem hv) (isNaN_of_isFinite hmax) hlastNumber (hwithin v hv).2 hlast⟩
    rw [Histogram.ofValues_eq hbins hrange, List.length_map, List.length_range, List.map_map]
    exact ⟨rfl, (Histogram.sum_countP hbins s.values).trans (List.countP_eq_length.2 hall)⟩
  · intro hflat
    have hlt := mt hempty.1 (not_not_intro hflat)
    have hle := le_of_not_lt hfirstNumber hlastNumber hlt
    rw [Histogram.ofValues, if_pos (.inr hle)]

end Plot.Gallery

namespace Run

open Plot

section Reached

variable {σ : Type} {sim : Simulation} {layout : Workloads.Layout} {levels : Quantile.Levels} {w : Workspace}
  {samples : List Loaded} {bounds : Bounds}

theorem countsWorkers_stateAt {plan : Itinerary} (bounded : Bounds.ofLoaded plan.loaded = .ok plan.bounds) {g : Gallery}
    (hbins : 0 < g.bins) {i : Nat} (hi : i ∈ plan.sim.iterations) : g.CountsWorkers (plan.stateAt i) := by
  obtain ⟨hmin, hmax⟩ := (Bounds.exact_of_ofLoaded bounded).isFinite
  exact g.countsWorkers_of_bounded hbins (plan.bounded_stateAt bounded hi) hmin hmax

/-- Every state that is reached has one of the samples, whose workers the bars count. -/
theorem counted_in_session
    (loads : ((Workloads.loadAll sim layout : Desk (Except Failure (List Loaded))) w).1 = .ok samples)
    (bounded : Bounds.ofLoaded samples = .ok bounds) {g : Gallery} (hbins : 0 < g.bins) (n : Nat) :
    ∀ call ∈ Progress.session sim (.start bounds layout levels) w (List.replicate n .advance),
      call.after.bounds = bounds ∧ g.CountsWorkers call.after ∧
        ∃ loaded ∈ samples, call.after.current = .ok loaded.sample := by
  obtain ⟨plan, rfl, rfl, rfl, hreached, -⟩ := exists_itinerary (σ := Unit) levels loads bounded
  intro call hcall
  obtain ⟨i, hi, hafter⟩ := hreached n call hcall
  rw [hafter]
  exact ⟨rfl, countsWorkers_stateAt bounded hbins hi, _, List.mem_map_of_mem hi, Itinerary.stateAt_current⟩

/-- The interval that is padded for finite data contains it, and it has no values only for data without a width at a
coarse double. In every state that any number of advances reaches, and in every state that a run shows to its
visualiser, the bars of the histogram count as many workers as the sample has, unless the bounds are flat. -/
theorem bars_count_workers (sim : Simulation) (layout : Workloads.Layout) (levels : Quantile.Levels) (w : Workspace)
    (samples : List Loaded) (bounds : Bounds)
    (loads : ((Workloads.loadAll sim layout : Desk (Except Failure (List Loaded))) w).1 = .ok samples)
    (bounded : Bounds.ofLoaded samples = .ok bounds) (g : Gallery) (hbins : 0 < g.bins) :
    (∀ min max : Float, min.isFinite = true → max.isFinite = true → min ≤ max →
      (Interval.padded min max).first ≤ min ∧ max ≤ (Interval.padded min max).last ∧
      ((Interval.padded min max).first < (Interval.padded min max).last ↔ ¬ ((min == max) = true ∧ Coarse min))) ∧
    (∀ n, ∀ call ∈ Progress.session sim (.start bounds layout levels) w (List.replicate n .advance),
      call.after.bounds = bounds ∧ g.CountsWorkers call.after) ∧
    ∀ (draw : Visualiser (StateT σ Desk)) (s : σ), Spares draw sim layout w →
      ∀ call ∈ (run (recorded draw) sim layout levels (s, []) w).1.2.2, ∀ kind state,
        call.figure = .single kind state → state.bounds = bounds ∧ g.CountsWorkers state := by
  refine ⟨?_, ?_, ?_⟩
  · intro min max hmin hmax hle
    obtain ⟨hfirst, hlast⟩ := Interval.padded_contains hmin hmax hle
    exact ⟨hfirst, hlast, Interval.padded_lt_iff hmin hmax hle⟩
  · intro n call hcall
    obtain ⟨hbounds, hcounts, -⟩ := counted_in_session loads bounded hbins n call hcall
    exact ⟨hbounds, hcounts⟩
  · intro draw s spares call hcall kind state hfigure
    obtain ⟨plan, rfl, rfl, rfl, -, hshown⟩ := exists_itinerary (σ := σ) levels loads bounded
    obtain ⟨i, hi, rfl⟩ := hshown draw s spares call hcall kind state hfigure
    exact ⟨rfl, countsWorkers_stateAt bounded hbins hi⟩

end Reached

/-- Two workers whose workloads change are counted in forty bins, after each of two advances and in every figure of a
run. -/
theorem bars_count_workers_paired : ∃ (s t : Sample) (bounds : Bounds),
    s.values = [1.0, 2.0] ∧ t.values = [2.0, -1.0] ∧
    ((Workloads.loadAll pair .standard : Desk (Except Failure (List Loaded))) changing).1 = .ok [⟨3, s⟩, ⟨4, t⟩] ∧
    Bounds.ofLoaded [⟨3, s⟩, ⟨4, t⟩] = .ok bounds ∧ 0 < (Gallery.standard ⟨"plots"⟩).bins ∧
    (∀ call ∈ Progress.session pair (.start bounds .standard .quartiles) changing [.advance, .advance],
      call.after.bounds = bounds ∧ (Gallery.standard ⟨"plots"⟩).CountsWorkers call.after) ∧
    Spares blank pair .standard changing ∧
    ∀ call ∈ (run (recorded blank) pair .standard .quartiles ((), []) changing).1.2.2, ∀ kind state,
      call.figure = .single kind state → state.bounds = bounds ∧ (Gallery.standard ⟨"plots"⟩).CountsWorkers state := by
  obtain ⟨s, t, hpairing, hworkersS, hvaluesS, hworkersT, hvaluesT⟩ :=
    exists_pairing tabulated_rising tabulated_falling
  obtain ⟨bounds, bounded⟩ := ofLoaded_agreeing (hpairing.agree (hworkersT.trans hworkersS.symm))
  have loads : ((Workloads.loadAll pair .standard : Desk (Except Failure (List Loaded))) changing).1 =
      .ok [⟨3, s⟩, ⟨4, t⟩] := loadAll_of_found isWord_stop_pair hpairing.found
  have hbins : 0 < (Gallery.standard ⟨"plots"⟩).bins := by decide
  have hspares := blank_spares pair .standard changing
  obtain ⟨-, hsession, hrun⟩ :=
    bars_count_workers pair .standard .quartiles changing [⟨3, s⟩, ⟨4, t⟩] bounds loads bounded _ hbins
  exact ⟨s, t, bounds, hvaluesS, hvaluesT, loads, bounded, hbins, hsession 2, hspares, hrun blank () hspares⟩

/-- A single iteration. -/
def lone : Simulation :=
  ⟨⟨"results"⟩, 3, 1, Nat.one_pos, by decide⟩

/-- The files of a single iteration in which one worker has a workload of two to the 54. -/
def coarse : Workspace :=
  .ofFiles ⟨[(["results"], .directory), (["results", "3"], .directory), (["results", "3", "stats"], .directory),
    (["results", "3", "stats", "new_metrics.csv"], .file (.text "edge-id new_metric\n7 18014398509481984\n"))]⟩

theorem workloads_coarse : ∃ s, coarse.workloads lone .standard 3 = .ok s ∧
    s.values = [Float.ofBits 0x4350000000000000] := by
  have htable : Workloads.Tabulated .standard (.text "edge-id new_metric\n7 18014398509481984\n") [7]
      [Float.ofBits 0x4350000000000000] := ⟨by decide +kernel, by decide, by decide, rfl, by decide +kernel⟩
  have hfile : coarse.files.isFile (Workloads.Layout.standard.path lone 3) = true := rfl
  have hread : coarse.files.read (Workloads.Layout.standard.path lone 3) =
      .ok (.text "edge-id new_metric\n7 18014398509481984\n") := rfl
  obtain ⟨s, hs, -, hvalues⟩ := htable.exists_workloads (by decide) hfile hread
  exact ⟨s, hs, hvalues⟩

theorem flat_of_coarse {s : Sample} {bounds : Bounds} (hvalues : s.values = [Float.ofBits 0x4350000000000000])
    (bounded : Bounds.ofLoaded [⟨3, s⟩] = .ok bounds) : bounds.Flat := by
  have hexact := Bounds.exact_of_ofLoaded bounded
  obtain ⟨hmin, hmax⟩ := hexact.isFinite
  have hfinite : (Float.ofBits 0x4350000000000000).isFinite = true := by decide +kernel
  have hvalue : value (Float.ofBits 0x4350000000000000) = 4 * (2 ^ 52 : ℤ) := by decide +kernel
  have hworkloads : Bounds.workloads [⟨3, s⟩] = [Float.ofBits 0x4350000000000000] := by
    rw [Bounds.workloads, List.flatMap_singleton, hvalues]
  have hends {x : Float} (hx : x.isFinite = true) (h : ∃ v ∈ Bounds.workloads [⟨3, s⟩], (v == x) = true) :
      value x = 4 * (2 ^ 52 : ℤ) := by
    obtain ⟨v, hv, heq⟩ := h
    rw [hworkloads, List.mem_singleton] at hv
    rw [hv, beq_iff_value hfinite hx] at heq
    exact heq.symm.trans hvalue
  have hleast := hends hmin hexact.minWorkload.attained
  refine ⟨(beq_iff_value hmin hmax).2 (hleast.trans (hends hmax hexact.maxWorkload.attained).symm), ?_, _, hleast⟩
  rw [hleast]
  norm_num

/-- The histogram of that worker has no bars. -/
theorem coarse_without_bars : ∃ samples bounds call s chart,
    ((Workloads.loadAll lone .standard : Desk (Except Failure (List Loaded))) coarse).1 = .ok samples ∧
    Bounds.ofLoaded samples = .ok bounds ∧
    call ∈ Progress.session lone (.start bounds .standard .quartiles) coarse [.advance] ∧
    call.after.current = .ok s ∧ s.size = 1 ∧
    (Gallery.standard ⟨"plots"⟩).chart .workloadHistogram call.after 3 = .ok chart ∧ chart.marks = [] := by
  obtain ⟨s, hs, hvalues⟩ := workloads_coarse
  have hiterations : lone.iterations = [3] := rfl
  have found : ∀ i ∈ lone.iterations, coarse.workloads lone .standard i = .ok s := by
    intro i hi
    rw [hiterations, List.mem_singleton] at hi
    rw [hi, hs]
  have loads : ((Workloads.loadAll lone .standard : Desk (Except Failure (List Loaded))) coarse).1 =
      .ok [⟨3, s⟩] := loadAll_of_found (by decide) found
  have hagreeing : ∃ bounds, Bounds.ofLoaded (lone.iterations.map fun i => ⟨i, s⟩) = .ok bounds :=
    ofLoaded_agreeing fun _ _ _ => rfl
  rw [hiterations] at hagreeing
  obtain ⟨bounds, bounded⟩ : ∃ bounds, Bounds.ofLoaded [⟨3, s⟩] = .ok bounds := hagreeing
  obtain ⟨call, hcall⟩ : ∃ call, call ∈ Progress.session lone (.start bounds .standard .quartiles) coarse [.advance] := by
    rw [Progress.session_advance]
    exact ⟨_, List.mem_cons_self⟩
  have hbins : 0 < (Gallery.standard ⟨"plots"⟩).bins := by decide
  obtain ⟨hbounds, ⟨-, bins, -, hcharts, -, hnone⟩, loaded, hloaded, hcurrent⟩ :=
    counted_in_session loads bounded hbins 1 call hcall
  rw [List.mem_singleton] at hloaded
  rw [hloaded] at hcurrent
  obtain ⟨chart, width, hchart, hmarks⟩ := hcharts 3
  have hsize : s.size = 1 := by
    rw [Sample.size, hvalues]
    rfl
  rw [hbounds] at hnone
  rw [hnone (flat_of_coarse hvalues bounded), List.map_nil] at hmarks
  exact ⟨[⟨3, s⟩], bounds, call, s, chart, loads, bounded, hcall, hcurrent, hsize, hchart, hmarks⟩

end Run

end WorkloadAtlas
