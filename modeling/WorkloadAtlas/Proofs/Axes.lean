import WorkloadAtlas.Proofs.Survey
import WorkloadAtlas.Proofs.Tightness
import WorkloadAtlas.Proofs.Trace
/-!
The bounds over all iterations contain what is plotted from each of them. They are computed from the samples of the
first reading, neighbour by neighbour; the states of a run hold the samples of the second reading and the ones before
them. Both meet in the itinerary of the run.
-/

namespace WorkloadAtlas

open Number

/-- What is plotted from a state lies within its bounds: there are workloads, all of them between the least and the
greatest, and as soon as there is a sample before there are changes, none of them beyond the greatest. -/
structure Progress.Bounded (p : Progress) : Prop where
  workloads : ∃ s, p.current = .ok s ∧ ∀ v ∈ s.values, p.bounds.minWorkload ≤ v ∧ v ≤ p.bounds.maxWorkload
  deltas : p.hasPrevious = true →
    ∃ deltas, p.deltas = .ok deltas ∧ ∀ d ∈ deltas, d.abs ≤ p.bounds.maxAbsDelta

namespace Run

theorem Itinerary.bounded_stateAt (plan : Itinerary) (hb : Bounds.ofLoaded plan.loaded = .ok plan.bounds) {i : Nat}
    (hi : i ∈ plan.sim.iterations) : (plan.stateAt i).Bounded := by
  have hexact := Bounds.exact_of_ofLoaded hb
  have hmem : ⟨i, plan.sample i⟩ ∈ plan.loaded := List.mem_map.2 ⟨i, hi, rfl⟩
  constructor
  · refine ⟨plan.sample i, stateAt_current, ?_⟩
    intro v hv
    have hall : v ∈ Bounds.workloads plan.loaded := List.mem_flatMap.2 ⟨_, hmem, hv⟩
    exact ⟨hexact.minWorkload.bound v hall, hexact.maxWorkload.bound v hall⟩
  · intro hprevious
    unfold Progress.hasPrevious at hprevious
    rw [stateAt_previous?] at hprevious
    by_cases hfirst : i = plan.sim.first
    · rw [if_pos hfirst] at hprevious
      cases hprevious
    · have hrange := List.mem_range'_1.1 hi
      obtain ⟨deltas, hdeltas, hall⟩ := Bounds.deltas_of_inOrder hb (by omega) hrange.2
      refine ⟨deltas, ?_, hall⟩
      unfold Progress.deltas stateAt
      simp only [hfirst, ↓reduceIte, hdeltas]

theorem Itinerary.stateBefore_stop (plan : Itinerary) :
    plan.stateBefore plan.sim.stop = plan.stateAt plan.sim.last := by
  have hpos := plan.sim.count_pos
  have hne : plan.sim.stop ≠ plan.sim.first := by
    unfold Simulation.stop
    omega
  simp only [stateBefore, hne, ↓reduceIte, Simulation.last]

theorem Itinerary.advanced_stop {plan : Itinerary} (hstop : IsWord plan.sim.stop)
    (sample : Nat → Except Workloads.Error Sample) :
    (plan.stateBefore plan.sim.stop).advanced sample plan.sim =
      (.error (.exhausted plan.sim.count), plan.stateBefore plan.sim.stop) := by
  rw [stateBefore_stop]
  simp only [Progress.advanced, Progress.next_of_last hstop stateAt_iteration?]

/-- Each advance ends in the state of an iteration, however many there are; after the last iteration it stays. -/
theorem Itinerary.Fits.session_states {plan : Itinerary} {w : Workspace} (fits : plan.Fits w.files) {k : Nat}
    (hfirst : plan.sim.first ≤ k) (hk : k ≤ plan.sim.stop) (n : Nat) :
    ∀ call ∈ Progress.session plan.sim (plan.stateBefore k) w (List.replicate n .advance),
      ∃ i ∈ plan.sim.iterations, call.after = plan.stateAt i := by
  induction n generalizing k w with
  | zero => exact fun _ h => nomatch h
  | succ n ih =>
    have hfiles := (Progress.advance_eq (plan.stateBefore k) plan.sim w).2
    have hfits := fits
    rw [← hfiles] at hfits
    intro call hcall
    rw [List.replicate_succ, Progress.session_advance, List.mem_cons, plan.stateBefore_layout,
      Workspace.workloads_eq] at hcall
    rcases Nat.eq_or_lt_of_le hk with rfl | hlt
    · rw [advanced_stop fits.calculated] at hcall
      rcases hcall with rfl | hcall
      · have hpos := plan.sim.count_pos
        refine ⟨plan.sim.last, List.mem_range'_1.2 ?_, plan.stateBefore_stop⟩
        unfold Simulation.last Simulation.stop
        omega
      · exact ih hfits hfirst hk call hcall
    · have hmem : k ∈ plan.sim.iterations := List.mem_range'_1.2 ⟨hfirst, hlt⟩
      rw [advanced_stateBefore fits.calculated hmem (fits.found k hmem) (fits.agrees k hmem)] at hcall
      rcases hcall with rfl | hcall
      · exact ⟨k, hmem, rfl⟩
      · rw [← stateBefore_succ hfirst] at hcall
        exact ih hfits (Nat.le_succ_of_le hfirst) hlt call hcall

section Plotted

variable {σ : Type} {sim : Simulation} {layout : Workloads.Layout} {levels : Quantile.Levels} {w : Workspace}
  {samples : List Loaded} {bounds : Bounds}

theorem mem_figures {plan : Itinerary} {kind : Figure.Single} {state : Progress}
    (h : Figure.single kind state ∈ plan.figures) : ∃ i ∈ plan.sim.iterations, state = plan.stateAt i := by
  unfold Itinerary.figures at h
  rcases List.mem_append.1 h with hoverview | hsingle
  · have hne : Figure.single kind state ≠ .allSorted plan.loaded ∧
        Figure.single kind state ≠ .allBoxplots plan.loaded := ⟨Figure.noConfusion, Figure.noConfusion⟩
    simp only [Figure.overviews, List.mem_cons, hne.1, hne.2, List.not_mem_nil, or_false] at hoverview
  · obtain ⟨i, hi, hfigure⟩ := List.mem_flatMap.1 hsingle
    obtain ⟨kind', -, heq⟩ := List.mem_map.1 hfigure
    cases heq
    exact ⟨i, hi, rfl⟩

variable (levels) in
/-- If all samples are loaded and have bounds, there is an itinerary through them that goes through all states which any
number of advances reaches, and through all that a run shows to its visualiser. -/
theorem exists_itinerary
    (loads : ((Workloads.loadAll sim layout : Desk (Except Failure (List Loaded))) w).1 = .ok samples)
    (bounded : Bounds.ofLoaded samples = .ok bounds) :
    ∃ plan : Itinerary, plan.sim = sim ∧ plan.loaded = samples ∧ plan.bounds = bounds ∧
      (∀ n, ∀ call ∈ Progress.session sim (.start bounds layout levels) w (List.replicate n .advance),
        ∃ i ∈ sim.iterations, call.after = plan.stateAt i) ∧
      ∀ (draw : Visualiser (StateT σ Desk)) (s : σ), Spares draw sim layout w →
        ∀ call ∈ (run (recorded draw) sim layout levels (s, []) w).1.2.2, ∀ kind state,
          call.figure = .single kind state → ∃ i ∈ sim.iterations, state = plan.stateAt i := by
  obtain ⟨hstop, sample, found, rfl⟩ := samples_of_loadAll loads
  have fits : Itinerary.Fits ⟨sim, layout, levels, sample, bounds⟩ w.files := fits_of_bounds hstop found bounded
  refine ⟨⟨sim, layout, levels, sample, bounds⟩, rfl, rfl, rfl, ?_, ?_⟩
  · intro n call hcall
    rw [← Itinerary.stateBefore_first ⟨sim, layout, levels, sample, bounds⟩] at hcall
    exact fits.session_states (Nat.le_refl _) (Nat.le_add_right _ _) n call hcall
  · intro draw s spares call hcall kind state hfigure
    obtain ⟨-, ended, hfollows, -⟩ := follows_of_course s
      (run_bounded spares levels hstop found bounded) (run_bounded spares.recorded levels hstop found bounded)
    rw [Itinerary.drawn_events] at hfollows
    have hmem := hfollows.isPrefix.subset (List.mem_map_of_mem hcall)
    rw [hfigure] at hmem
    exact mem_figures hmem

/-- If all samples are loaded and have bounds, then the bounds contain what is plotted from every state that any number
of advances reaches, and from every state that a run shows to its visualiser. The bounds stay the same on the way. -/
theorem bounds_contain (sim : Simulation) (layout : Workloads.Layout) (levels : Quantile.Levels) (w : Workspace)
    (samples : List Loaded) (bounds : Bounds)
    (loads : ((Workloads.loadAll sim layout : Desk (Except Failure (List Loaded))) w).1 = .ok samples)
    (bounded : Bounds.ofLoaded samples = .ok bounds) :
    (∀ n, ∀ call ∈ Progress.session sim (.start bounds layout levels) w (List.replicate n .advance),
      call.after.bounds = bounds ∧ call.after.Bounded) ∧
    ∀ (draw : Visualiser (StateT σ Desk)) (s : σ), Spares draw sim layout w →
      ∀ call ∈ (run (recorded draw) sim layout levels (s, []) w).1.2.2, ∀ kind state,
        call.figure = .single kind state → state.bounds = bounds ∧ state.Bounded := by
  obtain ⟨plan, rfl, rfl, rfl, hreached, hshown⟩ := exists_itinerary (σ := σ) levels loads bounded
  constructor
  · intro n call hcall
    obtain ⟨i, hi, hafter⟩ := hreached n call hcall
    rw [hafter]
    exact ⟨rfl, plan.bounded_stateAt bounded hi⟩
  · intro draw s spares call hcall kind state hfigure
    obtain ⟨i, hi, rfl⟩ := hshown draw s spares call hcall kind state hfigure
    exact ⟨rfl, plan.bounded_stateAt bounded hi⟩

end Plotted

/-- Two workers whose workloads change stay within their bounds, after each of two advances and in every figure of a
run. -/
theorem bounds_contain_paired : ∃ (s t : Sample) (bounds : Bounds),
    s.values = [1.0, 2.0] ∧ t.values = [2.0, -1.0] ∧
    ((Workloads.loadAll pair .standard : Desk (Except Failure (List Loaded))) changing).1 = .ok [⟨3, s⟩, ⟨4, t⟩] ∧
    Bounds.ofLoaded [⟨3, s⟩, ⟨4, t⟩] = .ok bounds ∧
    (∀ call ∈ Progress.session pair (.start bounds .standard .quartiles) changing [.advance, .advance],
      call.after.bounds = bounds ∧ call.after.Bounded) ∧
    Spares blank pair .standard changing ∧
    ∀ call ∈ (run (recorded blank) pair .standard .quartiles ((), []) changing).1.2.2, ∀ kind state,
      call.figure = .single kind state → state.bounds = bounds ∧ state.Bounded := by
  obtain ⟨s, t, hpairing, hworkersS, hvaluesS, hworkersT, hvaluesT⟩ :=
    exists_pairing tabulated_rising tabulated_falling
  obtain ⟨bounds, bounded⟩ := ofLoaded_agreeing (hpairing.agree (hworkersT.trans hworkersS.symm))
  have loads : ((Workloads.loadAll pair .standard : Desk (Except Failure (List Loaded))) changing).1 =
      .ok [⟨3, s⟩, ⟨4, t⟩] := loadAll_of_found isWord_stop_pair hpairing.found
  have hspares := blank_spares pair .standard changing
  obtain ⟨hsession, hrun⟩ := bounds_contain pair .standard .quartiles changing [⟨3, s⟩, ⟨4, t⟩] bounds loads bounded
  exact ⟨s, t, bounds, hvaluesS, hvaluesT, loads, bounded, hsession 2, hspares, hrun blank () hspares⟩

end Run

end WorkloadAtlas
