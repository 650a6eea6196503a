import WorkloadAtlas.Proofs.Advance
import WorkloadAtlas.Proofs.Changes
import WorkloadAtlas.Proofs.Course
/-!
The itinerary of a run whose samples are known: the figures it draws, with the state that each of them sees, and
the reports it ends with. A run takes this course if its samples can be loaded and list the same workers; the loop
over the iterations then makes one pass for each of them. Otherwise a run ends before its first figure.
-/

namespace WorkloadAtlas.Run

open Number (IsWord)
open Replayable

/-- The lines in the log on the iteration loaded last. -/
def loadedLines (iterations : Simulation.Span) (now : Loaded) : List Log.Entry :=
  let stats := now.sample.stats
  [⟨.info, .program, s!"Prepared iteration {now.iteration} of {iterations.first}..={iterations.last}"⟩,
   ⟨.info, .program, s!"mean={plain stats.mean}"⟩,
   ⟨.info, .program, s!" std={plain stats.std}"⟩,
   ⟨.info, .program, s!" min={plain stats.min}"⟩,
   ⟨.info, .program, s!" max={plain stats.max}"⟩]

theorem quiet_logLoaded {m : Type → Type} {τ : Type} [Monad m] [Host m] [Replayable m τ] {kind : τ → Prop}
    (stable : LogStable m kind) (iterations : Simulation.Span) (now : Loaded) :
    Quiet kind (logLoaded iterations now : m Unit) (loadedLines iterations now) () :=
  .line stable (.line stable (.line stable (.line stable (.log _))))

/-- A run with the sample of each iteration and the bounds over all of them. -/
structure Itinerary where
  sim : Simulation
  layout : Workloads.Layout
  levels : Quantile.Levels
  sample : Nat → Sample
  bounds : Bounds

namespace Itinerary

variable (plan : Itinerary)

/-- The samples of all iterations in order. -/
def loaded : List Loaded :=
  plan.sim.iterations.map fun i => ⟨i, plan.sample i⟩

/-- The state while the figures of an iteration are drawn: there is no sample before the first one. -/
def stateAt (i : Nat) : Progress where
  bounds := plan.bounds
  layout := plan.layout
  levels := plan.levels
  stage :=
    if i = plan.sim.first then .first ⟨i, plan.sample i⟩
    else .later (plan.sample (i - 1)) ⟨i, plan.sample i⟩

/-- The state before an iteration is loaded. -/
def stateBefore (i : Nat) : Progress :=
  if i = plan.sim.first then .start plan.bounds plan.layout plan.levels else plan.stateAt (i - 1)

/-- The kinds of figures of one iteration; only from the second one on there are changes to show. -/
def kindsAt (i : Nat) : List Figure.Single :=
  [.workloads, .workloadQuantiles] ++
    (if plan.sim.first < i then [.deltaWorkloads, .deltaWorkloadQuantiles] else []) ++ [.workloadHistogram]

/-- The figures of one iteration. -/
def figuresAt (i : Nat) : List Figure :=
  (plan.kindsAt i).map (.single · (plan.stateAt i))

/-- All figures in the order in which they are drawn. -/
def figures : List Figure :=
  Figure.overviews plan.loaded ++ plan.sim.iterations.flatMap plan.figuresAt

/-- One pass of the loop: an iteration is loaded and its figures are drawn. -/
def eventsAt (i : Nat) : List Event :=
  lines [Workloads.announcement plan.sim plan.layout i] ++
    (lines (loadedLines plan.sim.span ⟨i, plan.sample i⟩) ++ draws (plan.figuresAt i))

/-- The report on one iteration. -/
def reportAt (i : Nat) : Report where
  iteration := i
  workers := (plan.sample i).size
  workloads := (plan.sample i).stats
  quantiles := Quantile.ofValues (plan.sample i).values plan.levels
  deltaQuantiles :=
    if i = plan.sim.first then none
    else some (Quantile.ofValues
      (List.zipWith (· - ·) (plan.sample i).values (plan.sample (i - 1)).values) plan.levels)

/-- The workers of an iteration are those of the iteration before, if there is one. -/
def Agrees (i : Nat) : Prop :=
  i ≠ plan.sim.first → (plan.sample i).workers = (plan.sample (i - 1)).workers

theorem stateBefore_first : plan.stateBefore plan.sim.first = .start plan.bounds plan.layout plan.levels := by
  simp only [stateBefore, ↓reduceIte]

theorem stateBefore_layout (i : Nat) : (plan.stateBefore i).layout = plan.layout := by
  unfold stateBefore
  split
  · rfl
  · rfl

variable {plan} {i : Nat}

theorem stateAt_now? : (plan.stateAt i).now? = some ⟨i, plan.sample i⟩ := by
  unfold stateAt Progress.now?
  by_cases h : i = plan.sim.first
  · simp only [h, ↓reduceIte]
  · simp only [h, ↓reduceIte]

theorem stateAt_iteration? : (plan.stateAt i).iteration? = some i := by
  simp only [Progress.iteration?, stateAt_now?, Option.map_some]

theorem stateAt_now : (plan.stateAt i).now = .ok ⟨i, plan.sample i⟩ := by
  simp only [Progress.now, stateAt_now?]

theorem stateAt_current : (plan.stateAt i).current = .ok (plan.sample i) := by
  simp only [Progress.current, stateAt_now, Except.map]

theorem stateAt_previous? :
    (plan.stateAt i).previous? = if i = plan.sim.first then none else some (plan.sample (i - 1)) := by
  unfold stateAt Progress.previous?
  by_cases h : i = plan.sim.first
  · simp only [h, ↓reduceIte]
  · simp only [h, ↓reduceIte]

theorem ofState_stateAt (hi : plan.sim.first ≤ i) : Figure.ofState (plan.stateAt i) = plan.figuresAt i := by
  unfold Figure.ofState Figure.kinds figuresAt kindsAt Progress.hasPrevious
  rw [stateAt_previous?]
  by_cases h : i = plan.sim.first
  · simp only [h, ↓reduceIte, Option.isSome_none, Nat.lt_irrefl, Bool.false_eq_true]
  · have hlt : plan.sim.first < i := by omega
    simp only [h, hlt, ↓reduceIte, Option.isSome_some]

theorem report_stateAt (agrees : plan.Agrees i) : (plan.stateAt i).report = .ok (plan.reportAt i) := by
  unfold Progress.report Progress.deltaQuantiles Progress.deltas Progress.hasPrevious
  rw [stateAt_now, stateAt_previous?]
  by_cases h : i = plan.sim.first
  · simp only [h, stateAt, reportAt, ↓reduceIte]
    rfl
  · simp only [h, stateAt, reportAt, ↓reduceIte, Option.isSome_some,
      Sample.deltasFrom_of_workers_eq (agrees h)]
    rfl

theorem next_stateBefore (hstop : IsWord plan.sim.stop) (hi : i ∈ plan.sim.iterations) :
    (plan.stateBefore i).next plan.sim = .ok i := by
  obtain ⟨hfirst, hlast⟩ := Simulation.mem_iterations.1 hi
  unfold stateBefore
  by_cases h : i = plan.sim.first
  · rw [if_pos h, h]
    exact Progress.next_of_none rfl
  · have hlt : i - 1 < plan.sim.last := by omega
    have hindex : i - 1 + 1 = i := by omega
    rw [if_neg h, Progress.next_of_lt hstop stateAt_iteration? hlt, hindex]

theorem taken_stateBefore (hi : i ∈ plan.sim.iterations) :
    (plan.stateBefore i).taken ⟨i, plan.sample i⟩ = plan.stateAt i := by
  have hrange := List.mem_range'_1.1 hi
  unfold stateBefore Progress.taken
  by_cases h : i = plan.sim.first
  · simp only [h, ↓reduceIte, stateAt]
    rfl
  · simp only [h, ↓reduceIte, stateAt_now?]
    simp only [stateAt, h, ↓reduceIte]

theorem advanced_stateBefore {sample : Nat → Except Workloads.Error Sample} (hstop : IsWord plan.sim.stop)
    (hi : i ∈ plan.sim.iterations) (hs : sample i = .ok (plan.sample i)) (agrees : plan.Agrees i) :
    (plan.stateBefore i).advanced sample plan.sim = (.ok i, plan.stateAt i) := by
  rw [Progress.advanced_eq_ok (next_stateBefore hstop hi) hs, taken_stateBefore hi]
  intro now hnow
  unfold stateBefore at hnow
  by_cases h : i = plan.sim.first
  · simp only [h, ↓reduceIte] at hnow
    cases hnow
  · simp only [h, ↓reduceIte, stateAt_now?] at hnow
    cases hnow
    exact (Sample.size_eq_of_workers_eq (agrees h)).symm

theorem stateBefore_succ (hi : plan.sim.first ≤ i) : plan.stateBefore (i + 1) = plan.stateAt i := by
  have hne : i + 1 ≠ plan.sim.first := by omega
  simp only [stateBefore, hne, ↓reduceIte, Nat.add_sub_cancel]

end Itinerary

section Loop

variable {m : Type → Type} {τ : Type} [Monad m] [Host m] [Replayable m τ] {draw : Visualiser m}
  {kind : τ → Prop} {plan : Itinerary} {files : Files.Tree}

/-- What an itinerary asks: its end can be calculated, every iteration is found in the files with its sample, and
its workers are those of the iteration before. -/
structure Itinerary.Fits (plan : Itinerary) (files : Files.Tree) : Prop where
  calculated : IsWord plan.sim.stop
  found : ∀ i ∈ plan.sim.iterations, Workloads.inFiles files plan.sim plan.layout i = .ok (plan.sample i)
  agrees : ∀ i ∈ plan.sim.iterations, plan.Agrees i

/-- One pass of the loop draws the figures of one iteration and reports on it. -/
theorem course_pass (steady : Steady draw plan.sim kind)
    (alike : ∀ t, kind t → Workloads.Alike plan.sim plan.layout files (Replayable.files m t))
    (fits : plan.Fits files) {i : Nat} (hi : i ∈ plan.sim.iterations) (reports : List Report) :
    Course draw plan.sim kind (pass draw plan.sim (plan.stateBefore i) reports) (plan.eventsAt i)
      (.ok (if plan.sim.isLast i then .inr (reports ++ [plan.reportAt i])
        else .inl (plan.stateAt i, reports ++ [plan.reportAt i]))) := by
  have hfirst := (List.mem_range'_1.1 hi).1
  have hlayout := plan.stateBefore_layout i
  have hlines : (plan.stateBefore i).advanceLines plan.sim =
      [Workloads.announcement plan.sim plan.layout i] := by
    simp only [Progress.advanceLines, Itinerary.next_stateBefore fits.calculated hi, hlayout]
  have hadvance : Quiet kind ((plan.stateBefore i).advance plan.sim : m (Except Failure Nat × Progress))
      [Workloads.announcement plan.sim plan.layout i] (.ok i, plan.stateAt i) := by
    rw [← Itinerary.advanced_stateBefore fits.calculated hi (fits.found i hi) (fits.agrees i hi), ← hlines, ← hlayout]
    refine Progress.quiet_advance steady.log _ _ fun j hj => ?_
    cases (Itinerary.next_stateBefore fits.calculated hi).symm.trans hj
    rw [hlayout]
    exact Workloads.quiet_load steady.log (fun t ht => (alike t ht i hi).1) (fun t ht => (alike t ht i hi).2)
  unfold pass
  refine .quietly steady hadvance ?_
  refine .settledly steady rfl ?_
  refine .settledly steady (Failure.checked_eq_ok_iff.2 (Simulation.iterations?_of_isWord fits.calculated)) ?_
  refine .settledly steady Itinerary.stateAt_now ?_
  refine .quietly steady (quiet_logLoaded steady.log _ _) ?_
  rw [Itinerary.ofState_stateAt hfirst]
  refine .bind_nil steady (.drawAll steady _) ?_
  refine .settledly steady (Itinerary.report_stateAt (fits.agrees i hi)) ?_
  refine .settledly steady (Failure.checked_eq_ok_iff.2 (Simulation.isLast?_of_isWord fits.calculated i)) ?_
  exact .pure _

/-- The loop makes one pass for each iteration that is left, and the last one ends it. -/
theorem course_passes (steady : Steady draw plan.sim kind)
    (alike : ∀ t, kind t → Workloads.Alike plan.sim plan.layout files (Replayable.files m t))
    (fits : plan.Fits files) {n i : Nat} (hi : plan.sim.first ≤ i) (hn : i + n + 1 = plan.sim.stop)
    (reports : List Report) :
    Course draw plan.sim kind
      (repeatM (fun (state, reports) => pass draw plan.sim state reports) (plan.stateBefore i, reports))
      ((List.range' i (n + 1)).flatMap plan.eventsAt)
      (.ok (reports ++ (List.range' i (n + 1)).map plan.reportAt)) := by
  unfold Simulation.stop at hn
  have hpass (j : Nat) (hj : j ∈ plan.sim.iterations) (reports : List Report) :=
    course_pass steady alike fits hj reports
  -- The induction is on the passes after this one; the state before each of them is known in closed form.
  induction n generalizing i reports with
  | zero =>
    have hmem : i ∈ plan.sim.iterations := List.mem_range'_1.2 ⟨hi, by omega⟩
    have hlast : plan.sim.isLast i = true := by
      simp only [Simulation.isLast, Simulation.last, Simulation.stop, beq_iff_eq]
      omega
    have hfirst := hpass i hmem reports
    simp only [hlast, ↓reduceIte] at hfirst
    refine .ofRepeat (.bind steady hfirst ?_)
    exact .pure _
  | succ n ih =>
    have hmem : i ∈ plan.sim.iterations := List.mem_range'_1.2 ⟨hi, by omega⟩
    have hlast : plan.sim.isLast i = false := by
      simp only [Simulation.isLast, Simulation.last, Simulation.stop, beq_eq_false_iff_ne]
      omega
    have hfirst := hpass i hmem reports
    simp only [hlast, Bool.false_eq_true, ↓reduceIte] at hfirst
    have hrest := ih (Nat.le_succ_of_le hi) (by omega) (reports ++ [plan.reportAt i])
    rw [Itinerary.stateBefore_succ hi, List.append_assoc] at hrest
    exact .ofRepeat (.bind steady hfirst hrest)

end Loop

end WorkloadAtlas.Run
