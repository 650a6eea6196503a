import WorkloadAtlas.Proofs.Outcome
import WorkloadAtlas.Proofs.Session
/-!
The calls that a run makes to its visualiser. Whatever the visualiser does with its own state, with the log or with
other files, the calls follow the figures of the itinerary one by one, and the first call that fails is the last.
-/

namespace WorkloadAtlas.Run

open Number (IsWord)
open Replayable

/-- A call to a visualiser and its outcome. -/
structure Attempt where
  figure : Figure
  outcome : Except Failure Unit

/-- Calls that follow a list of figures, until all of them are drawn or one fails. -/
inductive Follows : List Figure → List Attempt → Except Failure Unit → Prop
  | all : Follows [] [] (.ok ())
  | drawn {figure : Figure} {rest : List Figure} {made : List Attempt} {ended : Except Failure Unit} :
      Follows rest made ended → Follows (figure :: rest) (⟨figure, .ok ()⟩ :: made) ended
  | failed {figure : Figure} {rest : List Figure} {failure : Failure} :
      Follows (figure :: rest) [⟨figure, .error failure⟩] (.error failure)

namespace Follows

variable {figures : List Figure} {made : List Attempt} {ended : Except Failure Unit}

theorem isPrefix (h : Follows figures made ended) : made.map (·.figure) <+: figures := by
  induction h with
  | all => exact List.nil_prefix
  | drawn _ ih => exact List.cons_prefix_cons.2 ⟨rfl, ih⟩
  | failed => exact List.cons_prefix_cons.2 ⟨rfl, List.nil_prefix⟩

theorem last_of_error (h : Follows figures made ended) {done rest : List Attempt} {call : Attempt}
    {failure : Failure} (hmade : made = done ++ call :: rest) (hfail : call.outcome = .error failure) :
    rest = [] ∧ ended = .error failure := by
  induction h generalizing done with
  | all => exact absurd hmade.symm (List.append_ne_nil_of_right_ne_nil _ (List.cons_ne_nil _ _))
  | drawn _ ih =>
    cases done with
    | nil =>
      obtain ⟨rfl, -⟩ := List.cons.inj hmade
      cases hfail
    | cons first done => exact ih (List.cons.inj hmade).2
  | failed =>
    cases done with
    | nil =>
      obtain ⟨rfl, hrest⟩ := List.cons.inj hmade
      cases hfail
      exact ⟨hrest.symm, rfl⟩
    | cons first done =>
      have hnil := (List.cons.inj hmade).2.symm
      exact absurd hnil (List.append_ne_nil_of_right_ne_nil _ (List.cons_ne_nil _ _))

theorem all_of_ok (h : Follows figures made ended) (hok : ∀ call ∈ made, call.outcome = .ok ()) :
    made.map (·.figure) = figures ∧ ended = .ok () := by
  induction h with
  | all => exact ⟨rfl, rfl⟩
  | drawn _ ih =>
    obtain ⟨hfigures, hended⟩ := ih fun call hcall => hok call (List.mem_cons_of_mem _ hcall)
    exact ⟨congrArg (_ :: ·) hfigures, hended⟩
  | failed => cases hok _ List.mem_cons_self

theorem of_nil (h : Follows [] made ended) : made = [] ∧ ended = .ok () := by
  cases h
  exact ⟨rfl, rfl⟩

end Follows

/-- A session of as many advances as there are iterations left passes through the states of the itinerary. -/
theorem Itinerary.Fits.session {plan : Itinerary} {n i : Nat} {w : Workspace} (fits : plan.Fits w.files)
    (hi : plan.sim.first ≤ i) (hn : i + n ≤ plan.sim.stop) :
    (Progress.session plan.sim (plan.stateBefore i) w (List.replicate n .advance)).map
        (fun call => (call.answer, call.after)) =
      (List.range' i n).map fun j => (.ok j, plan.stateAt j) := by
  induction n generalizing i w with
  | zero => rfl
  | succ n ih =>
    have hmem : i ∈ plan.sim.iterations := by
      unfold Simulation.stop at hn
      exact List.mem_range'_1.2 ⟨hi, by omega⟩
    have hadvanced : (plan.stateBefore i).advanced (w.workloads plan.sim (plan.stateBefore i).layout) plan.sim =
        (.ok i, plan.stateAt i) := by
      rw [plan.stateBefore_layout, Workspace.workloads_eq]
      exact Itinerary.advanced_stateBefore fits.calculated hmem (fits.found i hmem) (fits.agrees i hmem)
    rw [← (Progress.advance_eq (plan.stateBefore i) plan.sim w).2] at fits
    have hrest := ih fits (Nat.le_succ_of_le hi) (by omega)
    rw [Itinerary.stateBefore_succ hi] at hrest
    rw [List.replicate_succ, Progress.session_advance, hadvanced, List.map_cons, hrest, List.range'_succ,
      List.map_cons]

section Trace

variable {σ : Type} {draw : Visualiser (StateT σ Desk)} {sim : Simulation} {layout : Workloads.Layout}
  {w : Workspace}

/-- A visualiser that keeps its calls beside its own state. -/
def recorded (draw : Visualiser (StateT σ Desk)) : Visualiser (StateT (σ × List Attempt) Desk) :=
  fun sim figure (s, calls) w =>
    let ((outcome, s), w) := draw sim figure s w
    ((outcome, s, calls ++ [⟨figure, outcome⟩]), w)

theorem Spares.recorded (spares : Spares draw sim layout w) : Spares (recorded draw) sim layout w := by
  intro figure s w' halike
  exact spares figure s.1 w' halike

theorem replay_perform_recorded (draw : Visualiser (StateT σ Desk)) (sim : Simulation) (events : List Event)
    (s : σ) (calls : List Attempt) (w : Workspace) :
    ∃ made, Follows (drawn events) made (replay (perform draw sim events).run (s, w)).1 ∧
      replay (perform (recorded draw) sim events).run ((s, calls), w) =
        ((replay (perform draw sim events).run (s, w)).1,
          ((replay (perform draw sim events).run (s, w)).2.1, calls ++ made),
          (replay (perform draw sim events).run (s, w)).2.2) := by
  -- The calls so far are free, since the rest of the events meets them with one more.
  induction events generalizing s calls w with
  | nil =>
    refine ⟨[], .all, ?_⟩
    simp only [perform, replay_run_pure, List.append_nil]
  | cons event rest ih =>
    cases event with
    | log entry =>
      simp only [perform, replay_run_bind, replay_run_liftM]
      exact ih s calls { w with journal := entry :: w.journal }
    | draw figure =>
      have hplain : replay (ExceptT.mk (draw sim figure)).run (s, w) =
        ((draw sim figure s w).1.1, (draw sim figure s w).1.2, (draw sim figure s w).2) := rfl
      have hrecorded : replay (ExceptT.mk (recorded draw sim figure)).run ((s, calls), w) =
        ((draw sim figure s w).1.1,
          ((draw sim figure s w).1.2, calls ++ [⟨figure, (draw sim figure s w).1.1⟩]),
          (draw sim figure s w).2) := rfl
      simp only [perform, replay_run_bind, hplain, hrecorded]
      obtain ⟨⟨failure | u, s'⟩, w'⟩ := draw sim figure s w
      · exact ⟨[⟨figure, .error failure⟩], .failed, rfl⟩
      · obtain ⟨made, hfollows, hreplay⟩ := ih s' (calls ++ [⟨figure, .ok ()⟩]) w'
        rw [List.append_assoc] at hreplay
        exact ⟨⟨figure, .ok ()⟩ :: made, .drawn hfollows, hreplay⟩

/-- The end of a run whose calls have ended in some way. -/
def conclude {α : Type} (ended : Except Failure Unit) (outcome : Except Failure α) : Except Failure α :=
  ended.bind fun _ => outcome

theorem played_recorded {α : Type} (draw : Visualiser (StateT σ Desk)) (sim : Simulation) (events : List Event)
    (outcome : Except Failure α) (s : σ) (w : Workspace) :
    ∃ made ended, Follows (drawn events) made ended ∧
      (played draw sim events outcome (s, w)).1 = conclude ended outcome ∧
      played (recorded draw) sim events outcome ((s, []), w) =
        (conclude ended outcome, ((played draw sim events outcome (s, w)).2.1, made),
          (played draw sim events outcome (s, w)).2.2) := by
  obtain ⟨made, hfollows, hreplay⟩ := replay_perform_recorded draw sim events s [] w
  refine ⟨made, _, hfollows, ?_⟩
  unfold played
  rw [hreplay]
  obtain ⟨failure | u, s', w'⟩ := replay (perform draw sim events).run (s, w)
  · exact ⟨rfl, rfl⟩
  · exact ⟨rfl, rfl⟩

/-- A course that a run takes with its visualiser and with the one that records its calls. -/
theorem follows_of_course {levels : Quantile.Levels} {events : List Event}
    {outcome : Except Failure (List Report)} (s : σ)
    (plain : Course draw sim (Spared sim layout w) (ExceptT.mk (run draw sim layout levels)) events outcome)
    (beside : Course (recorded draw) sim (Spared sim layout w)
      (ExceptT.mk (run (recorded draw) sim layout levels)) events outcome) :
    let ran := run (recorded draw) sim layout levels (s, []) w
    run draw sim layout levels s w = ((ran.1.1, ran.1.2.1), ran.2) ∧
    ∃ ended, Follows (drawn events) ran.1.2.2 ended ∧ ran.1.1 = conclude ended outcome := by
  intro ran
  obtain ⟨made, ended, hfollows, hended, hplayed⟩ := played_recorded draw sim events outcome s w
  have hplain := plain (s, w) (Workloads.Alike.refl sim layout w.files)
  have hbeside := beside ((s, []), w) (Workloads.Alike.refl sim layout w.files)
  rw [hplayed] at hbeside
  have hresult : ran.1.1 = conclude ended outcome := congrArg (·.1) hbeside
  have hcalls : ran.1.2.2 = made := congrArg (·.2.1.2) hbeside
  constructor
  · refine Prod.ext (Prod.ext ?_ ?_) ?_
    · exact ((congrArg (·.1) hplain).trans hended).trans hresult.symm
    · exact (congrArg (·.2.1) hplain).trans (congrArg (·.2.1.1) hbeside).symm
    · exact (congrArg (·.2.2) hplain).trans (congrArg (·.2.2) hbeside).symm
  · rw [hcalls]
    exact ⟨ended, hfollows, hresult⟩

/-- The calls of a run, as a visualiser that records them sees them; the record changes nothing else. If the number
after the last iteration is no 64-bit number the run ends in an overflow before the first of them. Without samples, or
without bounds over them, there are none either. Otherwise they are the first of the figures of the itinerary, each with
its state: both overviews, and then the figures of one iteration after another, where the states are those of a
session of as many advances as there are iterations. A call that fails is the last one and its failure ends the run;
if none fails, all figures are drawn, and the run ends with one report on each iteration. -/
theorem run_trace (draw : Visualiser (StateT σ Desk)) (sim : Simulation) (layout : Workloads.Layout)
    (levels : Quantile.Levels) (s : σ) (w : Workspace) (spares : Spares draw sim layout w) :
    let ran := run (recorded draw) sim layout levels (s, []) w
    let result := ran.1.1
    let calls := ran.1.2.2
    run draw sim layout levels s w = ((result, ran.1.2.1), ran.2) ∧
    (¬ IsWord sim.stop → calls = [] ∧ result = .error .overflow) ∧
    (IsWord sim.stop → (∃ i ∈ sim.iterations, ∃ error, w.workloads sim layout i = .error error) →
      calls = [] ∧ ∃ error, result = .error (.load error)) ∧
    (IsWord sim.stop → ∀ sample : Nat → Sample, (∀ i ∈ sim.iterations, w.workloads sim layout i = .ok (sample i)) →
      let loaded := sim.iterations.map fun i => Loaded.mk i (sample i)
      (∀ failure, Bounds.ofLoaded loaded = .error failure → calls = [] ∧ result = .error failure) ∧
      ∀ bounds, Bounds.ofLoaded loaded = .ok bounds →
        let plan : Itinerary := ⟨sim, layout, levels, sample, bounds⟩
        let kinds (i : Nat) : List Figure.Single := [.workloads, .workloadQuantiles] ++
          (if sim.first < i then [.deltaWorkloads, .deltaWorkloadQuantiles] else []) ++ [.workloadHistogram]
        let figures : List Figure := [.allSorted loaded, .allBoxplots loaded] ++
          sim.iterations.flatMap fun i => (kinds i).map (.single · (plan.stateAt i))
        (∀ i ∈ sim.iterations,
          (plan.stateAt i).iteration? = some i ∧ (plan.stateAt i).current = .ok (sample i) ∧
          (plan.stateAt i).previous? = if i = sim.first then none else some (sample (i - 1))) ∧
        ((Progress.session sim (.start bounds layout levels) w (List.replicate sim.count .advance)).map
          (fun call => (call.answer, call.after)) = sim.iterations.map fun i => (.ok i, plan.stateAt i)) ∧
        calls.map (·.figure) <+: figures ∧
        (∀ done call rest failure, calls = done ++ call :: rest → call.outcome = .error failure →
          rest = [] ∧ result = .error failure) ∧
        ((∀ call ∈ calls, call.outcome = .ok ()) → calls.map (·.figure) = figures ∧
          ∃ reports, result = .ok reports ∧ reports.map (·.iteration) = sim.iterations)) := by
  intro ran result calls
  have recorded_spares := spares.recorded
  have beyond (hstop : ¬ IsWord sim.stop) :=
    follows_of_course s (run_beyond spares levels hstop) (run_beyond recorded_spares levels hstop)
  refine ⟨?_, ?_, ?_, ?_⟩
  · by_cases hstop : IsWord sim.stop
    · cases prospect sim (w.workloads sim layout) with
      | unloaded i error hi he before =>
        exact (follows_of_course s (run_unloaded spares levels hstop hi he before)
          (run_unloaded recorded_spares levels hstop hi he before)).1
      | differing sample i found hi hne differ before =>
        have hb := ofLoaded_differing hi hne differ before
        exact (follows_of_course s (run_unbounded spares levels hstop found hb)
          (run_unbounded recorded_spares levels hstop found hb)).1
      | fitting sample found agree =>
        obtain ⟨b, hb⟩ := ofLoaded_agreeing agree
        exact (follows_of_course s (run_bounded spares levels hstop found hb)
          (run_bounded recorded_spares levels hstop found hb)).1
    · exact (beyond hstop).1
  · intro hstop
    obtain ⟨-, ended, hfollows, hresult⟩ := beyond hstop
    rw [drawn_lines] at hfollows
    obtain ⟨hcalls, rfl⟩ := hfollows.of_nil
    exact ⟨hcalls, hresult⟩
  · rintro hstop ⟨i, hi, error, he⟩
    rcases all_or_first sim fun i => ∃ s, w.workloads sim layout i = .ok s with hall | ⟨j, hj, hnone, before⟩
    · obtain ⟨s, hs⟩ := hall i hi
      rw [he] at hs
      cases hs
    · cases hfirst : w.workloads sim layout j with
      | ok s => exact absurd ⟨s, hfirst⟩ hnone
      | error error =>
        obtain ⟨-, ended, hfollows, hresult⟩ := follows_of_course s
          (run_unloaded spares levels hstop hj hfirst before)
          (run_unloaded recorded_spares levels hstop hj hfirst before)
        rw [drawn_lines] at hfollows
        obtain ⟨hcalls, rfl⟩ := hfollows.of_nil
        exact ⟨hcalls, error, hresult⟩
  · intro hstop sample found loaded
    constructor
    · intro failure hb
      obtain ⟨-, ended, hfollows, hresult⟩ := follows_of_course s
        (run_unbounded spares levels hstop found hb) (run_unbounded recorded_spares levels hstop found hb)
      rw [drawn_lines] at hfollows
      obtain ⟨hcalls, rfl⟩ := hfollows.of_nil
      exact ⟨hcalls, hresult⟩
    · intro bounds hb plan kinds figures
      obtain ⟨-, ended, hfollows, hresult⟩ := follows_of_course s
        (run_bounded spares levels hstop found hb) (run_bounded recorded_spares levels hstop found hb)
      rw [Itinerary.drawn_events] at hfollows
      have fits : plan.Fits w.files := fits_of_bounds hstop found hb
      have hsession := fits.session (Nat.le_refl _) (Nat.le_refl _)
      rw [plan.stateBefore_first] at hsession
      refine ⟨?_, hsession, hfollows.isPrefix, ?_, ?_⟩
      · intro i _
        exact ⟨Itinerary.stateAt_iteration?, Itinerary.stateAt_current, Itinerary.stateAt_previous?⟩
      · intro done call rest failure hcalls hfail
        obtain ⟨hrest, rfl⟩ := hfollows.last_of_error hcalls hfail
        exact ⟨hrest, hresult⟩
      · intro hok
        obtain ⟨hfigures, rfl⟩ := hfollows.all_of_ok hok
        refine ⟨hfigures, _, hresult, ?_⟩
        rw [List.map_map]
        exact List.map_id _

/-- Over two workers whose workloads change all figures are asked for, those of the changes in the second iteration
alone. -/
theorem run_trace_paired : ∃ (s t : Sample) (bounds : Bounds),
    s.values = [1.0, 2.0] ∧ t.values = [2.0, -1.0] ∧ Spares blank pair .standard changing ∧ IsWord pair.stop ∧
    let former : Progress := ⟨bounds, .standard, .quartiles, .first ⟨3, s⟩⟩
    let latter : Progress := ⟨bounds, .standard, .quartiles, .later s ⟨4, t⟩⟩
    let ran := run (recorded blank) pair .standard .quartiles ((), []) changing
    ran.1.2.2.map (·.figure) =
      [.allSorted [⟨3, s⟩, ⟨4, t⟩], .allBoxplots [⟨3, s⟩, ⟨4, t⟩],
        .single .workloads former, .single .workloadQuantiles former, .single .workloadHistogram former,
        .single .workloads latter, .single .workloadQuantiles latter, .single .deltaWorkloads latter,
        .single .deltaWorkloadQuantiles latter, .single .workloadHistogram latter] ∧
    ∃ reports, ran.1.1 = .ok reports ∧ reports.map (·.iteration) = [3, 4] := by
  obtain ⟨s, t, hpairing, hworkersS, hvaluesS, hworkersT, hvaluesT⟩ :=
    exists_pairing tabulated_rising tabulated_falling
  have hworkers : t.workers = s.workers := hworkersT.trans hworkersS.symm
  have hspares := blank_spares pair .standard changing
  obtain ⟨bounds, hb⟩ := ofLoaded_agreeing (hpairing.agree hworkers)
  obtain ⟨hsame, -, -, htrace⟩ := run_trace blank pair .standard .quartiles () changing hspares
  obtain ⟨-, -, -, hlast, hall⟩ := (htrace isWord_stop_pair hpairing.sample hpairing.found).2 bounds hb
  -- A call that fails would be the end of the run, which succeeds.
  have hok : ∀ call ∈ (run (recorded blank) pair .standard .quartiles ((), []) changing).1.2.2,
      call.outcome = .ok () := by
    intro call hcall
    cases houtcome : call.outcome with
    | ok u => rfl
    | error failure =>
      obtain ⟨done, rest, hcalls⟩ := List.append_of_mem hcall
      have hfailed := (hlast done call rest failure hcalls houtcome).2
      have hrun : (run blank pair .standard .quartiles () changing).1.1 = .error failure := by
        rw [hsame]
        exact hfailed
      cases (hpairing.run_blank hworkers).symm.trans hrun
  obtain ⟨hfigures, reports, hresult, hiterations⟩ := hall hok
  exact ⟨s, t, bounds, hvaluesS, hvaluesT, hspares, isWord_stop_pair, hfigures, reports, hresult, hiterations⟩

/-- Over the range of the greatest index alone no figure is asked for, though its file can be loaded. -/
theorem greatest_without_calls :
    (∃ s, outermost.workloads greatest .standard greatest.last = .ok s ∧ s.values = [1.0, 2.0]) ∧
    Spares blank greatest .standard outermost ∧ (∀ figure s w', (blank greatest figure s w').1.1 = .ok ()) ∧
    (run (recorded blank) greatest .standard .quartiles ((), []) outermost).1.2.2 = [] ∧
    (run blank greatest .standard .quartiles () outermost).1.1 = .error .overflow := by
  have hspares := blank_spares greatest .standard outermost
  obtain ⟨hsame, ended, hfollows, hresult⟩ := follows_of_course ()
    (run_beyond hspares .quartiles not_isWord_stop_greatest)
    (run_beyond hspares.recorded .quartiles not_isWord_stop_greatest)
  rw [drawn_lines] at hfollows
  obtain ⟨hcalls, rfl⟩ := hfollows.of_nil
  refine ⟨workloads_outermost, hspares, fun _ _ _ => rfl, hcalls, ?_⟩
  rw [hsame]
  exact hresult

end Trace

end WorkloadAtlas.Run
