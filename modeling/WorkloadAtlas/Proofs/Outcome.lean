import Mathlib.Data.Nat.Find
import WorkloadAtlas.Proofs.Itinerary
import WorkloadAtlas.Proofs.Pairs
/-!
How a run ends. It reads the workloads twice: all of them for the overviews, and then each one again for the figures
of its iteration. The first reading settles whether the second one can fail: a run that draws a figure has found
samples that list the same workers, and nothing but a figure stops it from there on.
-/

namespace WorkloadAtlas.Run

open Number (IsWord)
open Replayable

/-- What the workloads that are found make of a run: an iteration cannot be loaded, or lists other workers than the
one before, or neither. -/
inductive Prospect (sim : Simulation) (found : Nat → Except Workloads.Error Sample) : Prop
  | unloaded (i : Nat) (error : Workloads.Error) : i ∈ sim.iterations → found i = .error error →
      (∀ j ∈ sim.iterations, j < i → ∃ s, found j = .ok s) → Prospect sim found
  | differing (sample : Nat → Sample) (i : Nat) : (∀ j ∈ sim.iterations, found j = .ok (sample j)) →
      i ∈ sim.iterations → i ≠ sim.first → (sample i).workers ≠ (sample (i - 1)).workers →
      (∀ j ∈ sim.iterations, j ≠ sim.first → j < i → (sample j).workers = (sample (j - 1)).workers) →
      Prospect sim found
  | fitting (sample : Nat → Sample) : (∀ j ∈ sim.iterations, found j = .ok (sample j)) →
      (∀ j ∈ sim.iterations, j ≠ sim.first → (sample j).workers = (sample (j - 1)).workers) →
      Prospect sim found

theorem all_or_first (sim : Simulation) (p : Nat → Prop) :
    (∀ i ∈ sim.iterations, p i) ∨
      ∃ i ∈ sim.iterations, ¬ p i ∧ ∀ j ∈ sim.iterations, j < i → p j := by
  classical
  by_cases h : ∃ i, i ∈ sim.iterations ∧ ¬ p i
  · right
    obtain ⟨hmem, hp⟩ := Nat.find_spec h
    refine ⟨Nat.find h, hmem, hp, ?_⟩
    intro j hj hlt
    by_contra hpj
    exact Nat.find_min h hlt ⟨hj, hpj⟩
  · left
    intro i hi
    by_contra hp
    exact h ⟨i, hi, hp⟩

/-- Samples that are known list the same workers, or there is a first one that does not. -/
theorem agree_or_differ (sim : Simulation) (sample : Nat → Sample) :
    (∀ j ∈ sim.iterations, j ≠ sim.first → (sample j).workers = (sample (j - 1)).workers) ∨
      ∃ i ∈ sim.iterations, i ≠ sim.first ∧ (sample i).workers ≠ (sample (i - 1)).workers ∧
        ∀ j ∈ sim.iterations, j ≠ sim.first → j < i → (sample j).workers = (sample (j - 1)).workers := by
  rcases all_or_first sim fun i => i ≠ sim.first → (sample i).workers = (sample (i - 1)).workers with
    hagree | ⟨i, hi, hdiffer, before⟩
  · exact .inl hagree
  · obtain ⟨hne, hworkers⟩ := Classical.not_imp.1 hdiffer
    exact .inr ⟨i, hi, hne, hworkers, fun j hj hne hlt => before j hj hlt hne⟩

theorem prospect (sim : Simulation) (found : Nat → Except Workloads.Error Sample) : Prospect sim found := by
  rcases all_or_first sim fun i => ∃ s, found i = .ok s with hall | ⟨i, hi, hnone, before⟩
  · have hfirst : sim.first ∈ sim.iterations :=
      List.mem_range'_1.2 ⟨Nat.le_refl _, Nat.lt_add_of_pos_right sim.count_pos⟩
    have hsample : ∀ i, ∃ s : Sample, i ∈ sim.iterations → found i = .ok s := by
      intro i
      by_cases hi : i ∈ sim.iterations
      · obtain ⟨s, hs⟩ := hall i hi
        exact ⟨s, fun _ => hs⟩
      · obtain ⟨s, -⟩ := hall sim.first hfirst
        exact ⟨s, fun h => absurd h hi⟩
    obtain ⟨sample, hsample⟩ := Classical.axiomOfChoice hsample
    rcases agree_or_differ sim sample with hagree | ⟨i, hi, hne, hworkers, before⟩
    · exact .fitting sample hsample hagree
    · exact .differing sample i hsample hi hne hworkers before
  · cases he : found i with
    | error error => exact .unloaded i error hi he before
    | ok s => exact absurd ⟨s, he⟩ hnone

/-- What the first reading writes to the log before it is settled. -/
def surveyLines (files : Files.Tree) (sim : Simulation) (layout : Workloads.Layout) : List Log.Entry :=
  ⟨.info, .program, "Get global data, e.g. maximum workload"⟩ ::
    (Workloads.triedAll (Workloads.inFiles files sim layout) sim).map (Workloads.announcement sim layout)

/-- All that a run does if the samples and bounds of its itinerary are those in the files. -/
def Itinerary.events (plan : Itinerary) (files : Files.Tree) : List Event :=
  (lines (surveyLines files plan.sim plan.layout) ++
    .log ⟨.debug, .program, describe plan.bounds⟩ :: draws (Figure.overviews plan.loaded)) ++
  (plan.sim.iterations.flatMap plan.eventsAt ++
    [.log ⟨.info, .program, s!"Finished {(plan.sim.iterations.map plan.reportAt).length} iterations"⟩])

theorem Itinerary.reports_getElem? {plan : Itinerary} {k : Nat} (hk : k < plan.sim.count) :
    (plan.sim.iterations.map plan.reportAt)[k]? = some
      { iteration := plan.sim.first + k
        workers := (plan.sample (plan.sim.first + k)).size
        workloads := (plan.sample (plan.sim.first + k)).stats
        quantiles := Quantile.ofValues (plan.sample (plan.sim.first + k)).values plan.levels
        deltaQuantiles :=
          if k = 0 then none
          else some (Quantile.ofValues (List.zipWith (· - ·) (plan.sample (plan.sim.first + k)).values
            (plan.sample (plan.sim.first + k - 1)).values) plan.levels) } := by
  have hfirst : plan.sim.first + k = plan.sim.first ↔ k = 0 := by omega
  rw [List.getElem?_map, Simulation.iterations, List.getElem?_range' hk, Nat.one_mul, Option.map_some]
  simp only [reportAt, hfirst]

theorem drawn_flatMap (f : Nat → List Event) (indices : List Nat) :
    drawn (indices.flatMap f) = indices.flatMap fun i => drawn (f i) := by
  induction indices with
  | nil => rfl
  | cons i rest ih => rw [List.flatMap_cons, drawn_append, ih, List.flatMap_cons]

theorem Itinerary.drawn_events (plan : Itinerary) (files : Files.Tree) :
    drawn (plan.events files) = plan.figures := by
  have hpass : (fun i => drawn (plan.eventsAt i)) = plan.figuresAt := by
    funext i
    simp only [eventsAt, drawn_append, drawn_lines, drawn_draws, List.nil_append]
  simp only [events, drawn_append, drawn_lines, drawn, drawn_draws, drawn_flatMap, hpass, List.nil_append,
    List.append_nil, figures]

section Courses

variable {m : Type → Type} {τ : Type} [Monad m] [Host m] [Replayable m τ] {draw : Visualiser m}
  {kind : τ → Prop} {sim : Simulation} {layout : Workloads.Layout} {files : Files.Tree}

theorem course_loadAll (steady : Steady draw sim kind)
    (alike : ∀ t, kind t → Workloads.Alike sim layout files (Replayable.files m t)) :
    Course draw sim kind
      (ExceptT.mk (Workloads.loadAll sim layout) : ExceptT Failure m _)
      (lines ((Workloads.triedAll (Workloads.inFiles files sim layout) sim).map (Workloads.announcement sim layout)))
      (Workloads.gatherAll (Workloads.inFiles files sim layout) sim) :=
  .ofQuiet (Workloads.quiet_loadAll steady.log alike)

/-- Without a last iteration a run loads nothing and ends there. -/
theorem course_beyond (steady : Steady draw sim kind)
    (alike : ∀ t, kind t → Workloads.Alike sim layout files (Replayable.files m t)) (levels : Quantile.Levels)
    (hstop : ¬ IsWord sim.stop) :
    Course draw sim kind (ExceptT.mk (run draw sim layout levels)) (lines (surveyLines files sim layout))
      (.error .overflow) := by
  have hload := course_loadAll steady alike
  rw [Workloads.gatherAll_of_not_isWord _ hstop] at hload
  exact .bind_error _ (.line steady (.bind_error _ hload))

theorem course_unloaded (steady : Steady draw sim kind)
    (alike : ∀ t, kind t → Workloads.Alike sim layout files (Replayable.files m t)) (levels : Quantile.Levels)
    {i : Nat} {error : Workloads.Error} (hstop : IsWord sim.stop) (hi : i ∈ sim.iterations)
    (he : Workloads.inFiles files sim layout i = .error error)
    (before : ∀ j ∈ sim.iterations, j < i → ∃ s, Workloads.inFiles files sim layout j = .ok s) :
    Course draw sim kind (ExceptT.mk (run draw sim layout levels)) (lines (surveyLines files sim layout))
      (.error (.load error)) := by
  have hload := course_loadAll steady alike
  rw [Workloads.gatherAll_eq_error hstop hi he before] at hload
  exact .bind_error _ (.line steady (.bind_error _ hload))

theorem course_unbounded (steady : Steady draw sim kind)
    (alike : ∀ t, kind t → Workloads.Alike sim layout files (Replayable.files m t)) (levels : Quantile.Levels)
    {sample : Nat → Sample} {failure : Failure} (hstop : IsWord sim.stop)
    (found : ∀ j ∈ sim.iterations, Workloads.inFiles files sim layout j = .ok (sample j))
    (hb : Bounds.ofLoaded (sim.iterations.map fun i => ⟨i, sample i⟩) = .error failure) :
    Course draw sim kind (ExceptT.mk (run draw sim layout levels)) (lines (surveyLines files sim layout))
      (.error failure) := by
  have hload := course_loadAll steady alike
  rw [Workloads.gatherAll_eq_ok hstop found] at hload
  have hbounds : Course draw sim kind
      (ExceptT.mk (Pure.pure (Bounds.ofLoaded (sim.iterations.map fun i => ⟨i, sample i⟩)))) []
      (.error failure) := by
    rw [hb]
    exact .ofQuiet (.pure _)
  exact .bind_error _ (.line steady (.bind_nil steady hload (.bind_error _ hbounds)))

theorem Itinerary.Fits.course {plan : Itinerary} (fits : plan.Fits files)
    (steady : Steady draw plan.sim kind)
    (alike : ∀ t, kind t → Workloads.Alike plan.sim plan.layout files (Replayable.files m t))
    (hb : Bounds.ofLoaded plan.loaded = .ok plan.bounds) :
    Course draw plan.sim kind (ExceptT.mk (run draw plan.sim plan.layout plan.levels)) (plan.events files)
      (.ok (plan.sim.iterations.map plan.reportAt)) := by
  have hpos := plan.sim.count_pos
  have hload := course_loadAll steady alike
  rw [Workloads.gatherAll_eq_ok fits.calculated fits.found] at hload
  have hoverview : Course draw plan.sim kind (overview draw plan.sim plan.layout) _ (.ok plan.bounds) :=
    .line steady (.bind steady hload (.settledly steady hb
      (.line steady (.bind_nil steady (.drawAll steady _) (.pure _)))))
  obtain ⟨n, hn⟩ : ∃ n, plan.sim.count = n + 1 := ⟨plan.sim.count - 1, by omega⟩
  have hpasses := course_passes steady alike fits (Nat.le_refl _)
    (show plan.sim.first + n + 1 = plan.sim.stop by simp only [Simulation.stop]; omega) []
  rw [plan.stateBefore_first, ← hn, List.nil_append] at hpasses
  exact .bind steady hoverview (.bind steady hpasses (.line steady (.pure _)))

end Courses

section Outcome

variable {σ : Type} {draw : Visualiser (StateT σ Desk)} {sim : Simulation} {layout : Workloads.Layout}
  {w : Workspace}

/-- A visualiser that leaves the workloads of a simulation as they are, whatever else it does. -/
def Spares (draw : Visualiser (StateT σ Desk)) (sim : Simulation) (layout : Workloads.Layout)
    (w : Workspace) : Prop :=
  ∀ figure s w', Workloads.Alike sim layout w.files w'.files →
    Workloads.Alike sim layout w.files (draw sim figure s w').2.files

/-- The states in which the workloads are those of a workspace. -/
def Spared (sim : Simulation) (layout : Workloads.Layout) (w : Workspace) (t : σ × Workspace) : Prop :=
  Workloads.Alike sim layout w.files t.2.files

theorem Spares.steady (spares : Spares draw sim layout w) : Steady draw sim (Spared sim layout w) := by
  constructor
  · intro t entry ht
    exact ht
  · intro t figure ht
    exact spares figure t.1 t.2 ht

theorem run_beyond (spares : Spares draw sim layout w) (levels : Quantile.Levels) (hstop : ¬ IsWord sim.stop) :
    Course draw sim (Spared sim layout w) (ExceptT.mk (run draw sim layout levels))
      (lines (surveyLines w.files sim layout)) (.error .overflow) :=
  course_beyond spares.steady (fun _ ht => ht) levels hstop

theorem run_unloaded (spares : Spares draw sim layout w) (levels : Quantile.Levels) {i : Nat}
    {error : Workloads.Error} (hstop : IsWord sim.stop) (hi : i ∈ sim.iterations)
    (he : w.workloads sim layout i = .error error)
    (before : ∀ j ∈ sim.iterations, j < i → ∃ s, w.workloads sim layout j = .ok s) :
    Course draw sim (Spared sim layout w) (ExceptT.mk (run draw sim layout levels))
      (lines (surveyLines w.files sim layout)) (.error (.load error)) := by
  rw [Workspace.workloads_eq] at he before
  exact course_unloaded spares.steady (fun _ ht => ht) levels hstop hi he before

theorem run_unbounded (spares : Spares draw sim layout w) (levels : Quantile.Levels) {sample : Nat → Sample}
    {failure : Failure} (hstop : IsWord sim.stop)
    (found : ∀ j ∈ sim.iterations, w.workloads sim layout j = .ok (sample j))
    (hb : Bounds.ofLoaded (sim.iterations.map fun i => ⟨i, sample i⟩) = .error failure) :
    Course draw sim (Spared sim layout w) (ExceptT.mk (run draw sim layout levels))
      (lines (surveyLines w.files sim layout)) (.error failure) := by
  rw [Workspace.workloads_eq] at found
  exact course_unbounded spares.steady (fun _ ht => ht) levels hstop found hb

theorem ofLoaded_differing {sample : Nat → Sample} {i : Nat} (hi : i ∈ sim.iterations) (hne : i ≠ sim.first)
    (differ : (sample i).workers ≠ (sample (i - 1)).workers)
    (before : ∀ j ∈ sim.iterations, j ≠ sim.first → j < i → (sample j).workers = (sample (j - 1)).workers) :
    Bounds.ofLoaded (sim.iterations.map fun i => ⟨i, sample i⟩) =
      .error ((sample i).mismatch (sample (i - 1)) i) := by
  have hrange := List.mem_range'_1.1 hi
  apply Bounds.ofLoaded_eq_error (by omega) hrange.2 differ
  intro j hj hlt
  exact before j (List.mem_range'_1.2 ⟨by omega, by omega⟩) (by omega) hlt

theorem ofLoaded_agreeing {sample : Nat → Sample}
    (agree : ∀ j ∈ sim.iterations, j ≠ sim.first → (sample j).workers = (sample (j - 1)).workers) :
    ∃ b, Bounds.ofLoaded (sim.iterations.map fun i => ⟨i, sample i⟩) = .ok b := by
  apply Bounds.ofLoaded_eq_ok sim.count_pos
  intro i hi hlt
  exact agree i (List.mem_range'_1.2 ⟨by omega, hlt⟩) (by omega)

/-- Bounds over samples show that the samples list the same workers. -/
theorem fits_of_bounds {levels : Quantile.Levels} {sample : Nat → Sample} {b : Bounds} (hstop : IsWord sim.stop)
    (found : ∀ j ∈ sim.iterations, w.workloads sim layout j = .ok (sample j))
    (hb : Bounds.ofLoaded (sim.iterations.map fun i => ⟨i, sample i⟩) = .ok b) :
    Itinerary.Fits ⟨sim, layout, levels, sample, b⟩ w.files := by
  rw [Workspace.workloads_eq] at found
  rcases agree_or_differ sim sample with agree | ⟨i, hi, hne, differ, before⟩
  · exact ⟨hstop, found, agree⟩
  · rw [ofLoaded_differing hi hne differ before] at hb
    cases hb

theorem run_bounded (spares : Spares draw sim layout w) (levels : Quantile.Levels) {sample : Nat → Sample}
    {b : Bounds} (hstop : IsWord sim.stop)
    (found : ∀ j ∈ sim.iterations, w.workloads sim layout j = .ok (sample j))
    (hb : Bounds.ofLoaded (sim.iterations.map fun i => ⟨i, sample i⟩) = .ok b) :
    Course draw sim (Spared sim layout w) (ExceptT.mk (run draw sim layout levels))
      (Itinerary.events ⟨sim, layout, levels, sample, b⟩ w.files)
      (.ok (sim.iterations.map (Itinerary.reportAt ⟨sim, layout, levels, sample, b⟩))) := by
  have fits : Itinerary.Fits ⟨sim, layout, levels, sample, b⟩ w.files := fits_of_bounds hstop found hb
  exact fits.course spares.steady (fun _ ht => ht) hb

/-- A visualiser that draws nothing. -/
def blank : Visualiser (StateT Unit Desk) :=
  fun _ _ => pure (.ok ())

theorem blank_spares (sim : Simulation) (layout : Workloads.Layout) (w : Workspace) : Spares blank sim layout w := by
  intro figure s w' halike
  exact halike

/-- A run over a pair of tables that list the same workers reports on both of them. -/
theorem Pairing.run_blank {first second : String} {s t : Sample} (h : Pairing first second s t)
    (hworkers : t.workers = s.workers) :
    (run blank pair .standard .quartiles () (paired first second)).1.1 =
      .ok [⟨3, s.size, s.stats, Quantile.ofValues s.values .quartiles, none⟩,
        ⟨4, t.size, t.stats, Quantile.ofValues t.values .quartiles,
          some (Quantile.ofValues (List.zipWith (· - ·) t.values s.values) .quartiles)⟩] := by
  obtain ⟨bounds, hb⟩ := ofLoaded_agreeing (h.agree hworkers)
  have hcourse := run_bounded (blank_spares pair .standard (paired first second)) .quartiles isWord_stop_pair h.found hb
  have hrun := congrArg Prod.fst (hcourse ((), paired first second) (Workloads.Alike.refl pair .standard _))
  rw [played_of_drawn fun _ _ => rfl] at hrun
  exact hrun

/-- A run whose iterations end below the greatest 64-bit number, with a visualiser that neither fails nor touches the
workloads, succeeds exactly if every iteration can be loaded and lists the workers of the one before. Otherwise it ends
with the first iteration that cannot be loaded, and only if there is none with the first one that lists other workers.
No other failure ever ends it. -/
theorem run_outcome (draw : Visualiser (StateT σ Desk)) (sim : Simulation) (layout : Workloads.Layout)
    (levels : Quantile.Levels) (s : σ) (w : Workspace) (calculated : IsWord sim.stop)
    (draws : ∀ figure s' w', (draw sim figure s' w').1.1 = .ok ()) (spares : Spares draw sim layout w) :
    let result := (run draw sim layout levels s w).1.1
    ((∃ reports, result = .ok reports) ↔
      ∃ sample : Nat → Sample, (∀ i ∈ sim.iterations, w.workloads sim layout i = .ok (sample i)) ∧
        ∀ i ∈ sim.iterations, i ≠ sim.first → (sample i).workers = (sample (i - 1)).workers) ∧
    (∀ reports, result = .ok reports →
      ∀ sample : Nat → Sample, (∀ i ∈ sim.iterations, w.workloads sim layout i = .ok (sample i)) →
        reports.length = sim.count ∧
        ∀ k < sim.count, reports[k]? = some
          { iteration := sim.first + k
            workers := (sample (sim.first + k)).size
            workloads := (sample (sim.first + k)).stats
            quantiles := Quantile.ofValues (sample (sim.first + k)).values levels
            deltaQuantiles :=
              if k = 0 then none
              else some (Quantile.ofValues (List.zipWith (· - ·) (sample (sim.first + k)).values
                (sample (sim.first + k - 1)).values) levels) }) ∧
    (∀ i ∈ sim.iterations, ∀ error, w.workloads sim layout i = .error error →
      (∀ j ∈ sim.iterations, j < i → ∃ s, w.workloads sim layout j = .ok s) →
      result = .error (.load error)) ∧
    (∀ sample : Nat → Sample, (∀ i ∈ sim.iterations, w.workloads sim layout i = .ok (sample i)) →
      ∀ i ∈ sim.iterations, i ≠ sim.first → (sample i).workers ≠ (sample (i - 1)).workers →
      (∀ j ∈ sim.iterations, j ≠ sim.first → j < i → (sample j).workers = (sample (j - 1)).workers) →
      result = .error (if (sample i).size = (sample (i - 1)).size then .otherWorkers i
        else .workerCount i (sample (i - 1)).size (sample i).size)) ∧
    ∀ failure, result = .error failure →
      (∃ error, failure = .load error) ∨ (∃ i expected actual, failure = .workerCount i expected actual) ∨
        ∃ i, failure = .otherWorkers i := by
  intro result
  have settled {events : List Event} {outcome : Except Failure (List Report)}
      (h : Course draw sim (Spared sim layout w) (ExceptT.mk (run draw sim layout levels)) events outcome) :
      result = outcome := by
    have hrun := congrArg Prod.fst (h (s, w) (Workloads.Alike.refl sim layout w.files))
    rw [played_of_drawn fun t figure => draws figure t.1 t.2] at hrun
    exact hrun
  have hunloaded : ∀ i ∈ sim.iterations, ∀ error, w.workloads sim layout i = .error error →
      (∀ j ∈ sim.iterations, j < i → ∃ s, w.workloads sim layout j = .ok s) →
      result = .error (.load error) := by
    intro i hi error he before
    exact settled (run_unloaded spares levels calculated hi he before)
  have hdiffering : ∀ sample : Nat → Sample,
      (∀ i ∈ sim.iterations, w.workloads sim layout i = .ok (sample i)) →
      ∀ i ∈ sim.iterations, i ≠ sim.first → (sample i).workers ≠ (sample (i - 1)).workers →
      (∀ j ∈ sim.iterations, j ≠ sim.first → j < i → (sample j).workers = (sample (j - 1)).workers) →
      result = .error ((sample i).mismatch (sample (i - 1)) i) := by
    intro sample found i hi hne differ before
    have hb := ofLoaded_differing hi hne differ before
    exact settled (run_unbounded spares levels calculated found hb)
  have hfitting : ∀ sample : Nat → Sample,
      (∀ i ∈ sim.iterations, w.workloads sim layout i = .ok (sample i)) →
      (∀ i ∈ sim.iterations, i ≠ sim.first → (sample i).workers = (sample (i - 1)).workers) →
      ∃ b, result = .ok (sim.iterations.map (Itinerary.reportAt ⟨sim, layout, levels, sample, b⟩)) := by
    intro sample found agree
    obtain ⟨b, hb⟩ := ofLoaded_agreeing agree
    exact ⟨b, settled (run_bounded spares levels calculated found hb)⟩
  refine ⟨⟨?_, ?_⟩, ?_, hunloaded, hdiffering, ?_⟩
  · rintro ⟨reports, hok⟩
    cases prospect sim (w.workloads sim layout) with
    | unloaded i error hi he before =>
      rw [hunloaded i hi error he before] at hok
      cases hok
    | differing sample i found hi hne differ before =>
      rw [hdiffering sample found i hi hne differ before] at hok
      cases hok
    | fitting sample found agree => exact ⟨sample, found, agree⟩
  · rintro ⟨sample, found, agree⟩
    obtain ⟨b, hok⟩ := hfitting sample found agree
    exact ⟨_, hok⟩
  · intro reports hok sample found
    rcases agree_or_differ sim sample with agree | ⟨i, hi, hne, differ, before⟩
    · obtain ⟨b, hreports⟩ := hfitting sample found agree
      cases hok.symm.trans hreports
      exact ⟨by rw [List.length_map, Simulation.iterations, List.length_range'],
        fun k hk => Itinerary.reports_getElem? hk⟩
    · rw [hdiffering sample found i hi hne differ before] at hok
      cases hok
  · intro failure hfailure
    cases prospect sim (w.workloads sim layout) with
    | unloaded i error hi he before =>
      cases hfailure.symm.trans (hunloaded i hi error he before)
      exact .inl ⟨error, rfl⟩
    | differing sample i found hi hne differ before =>
      cases hfailure.symm.trans (hdiffering sample found i hi hne differ before)
      unfold Sample.mismatch
      split
      · exact .inr (.inr ⟨i, rfl⟩)
      · exact .inr (.inl ⟨i, _, _, rfl⟩)
    | fitting sample found agree =>
      obtain ⟨b, hok⟩ := hfitting sample found agree
      rw [hok] at hfailure
      cases hfailure

/-- Two workers whose workloads change are reported on twice. If one of them is replaced, the second iteration is the
one that a run ends with. -/
theorem run_outcome_paired :
    IsWord pair.stop ∧ (∀ figure s w', (blank pair figure s w').1.1 = .ok ()) ∧
    Spares blank pair .standard changing ∧ Spares blank pair .standard replaced ∧
    (∃ s t : Sample, ∃ reports, s.values = [1.0, 2.0] ∧ t.values = [2.0, -1.0] ∧
      (run blank pair .standard .quartiles () changing).1.1 = .ok reports ∧ reports.length = 2 ∧
      reports[0]? = some ⟨3, s.size, s.stats, Quantile.ofValues s.values .quartiles, none⟩ ∧
      reports[1]? = some ⟨4, t.size, t.stats, Quantile.ofValues t.values .quartiles,
        some (Quantile.ofValues (List.zipWith (· - ·) t.values s.values) .quartiles)⟩) ∧
    (run blank pair .standard .quartiles () replaced).1.1 = .error (.otherWorkers 4) := by
  have hdraws : ∀ figure s w', (blank pair figure s w').1.1 = .ok () := fun _ _ _ => rfl
  have hchanging := blank_spares pair .standard changing
  have hreplaced := blank_spares pair .standard replaced
  refine ⟨isWord_stop_pair, hdraws, hchanging, hreplaced, ?_, ?_⟩
  · obtain ⟨s, t, hpairing, hworkersS, hvaluesS, hworkersT, hvaluesT⟩ :=
      exists_pairing tabulated_rising tabulated_falling
    obtain ⟨hok, hreports, -⟩ :=
      run_outcome blank pair .standard .quartiles () changing isWord_stop_pair hdraws hchanging
    obtain ⟨reports, hrun⟩ := hok.2 ⟨hpairing.sample, hpairing.found, hpairing.agree (hworkersT.trans hworkersS.symm)⟩
    obtain ⟨hlength, hentries⟩ := hreports reports hrun hpairing.sample hpairing.found
    exact ⟨s, t, reports, hvaluesS, hvaluesT, hrun, hlength, hentries 0 (by decide), hentries 1 (by decide)⟩
  · obtain ⟨s, t, hpairing, hworkersS, hvaluesS, hworkersT, hvaluesT⟩ :=
      exists_pairing tabulated_rising tabulated_other
    obtain ⟨-, -, -, hdiffering, -⟩ :=
      run_outcome blank pair .standard .quartiles () replaced isWord_stop_pair hdraws hreplaced
    have hdiffer : t.workers ≠ s.workers := by
      rw [hworkersS, hworkersT]
      decide
    have hsize : t.size = s.size := by
      simp only [Sample.size, hvaluesS, hvaluesT, List.length_cons]
    have hbefore : ∀ j ∈ pair.iterations, j ≠ pair.first → j < 4 →
        (hpairing.sample j).workers = (hpairing.sample (j - 1)).workers := by
      intro j hj hne hlt
      rw [iterations_pair] at hj
      simp only [List.mem_cons, List.not_mem_nil, or_false] at hj
      rcases hj with rfl | rfl
      · exact absurd rfl hne
      · exact absurd hlt (Nat.lt_irrefl 4)
    have hfailure := hdiffering hpairing.sample hpairing.found 4 (by decide) (by decide) hdiffer hbefore
    have hlisted : (hpairing.sample 4).size = (hpairing.sample (4 - 1)).size := hsize
    rwa [if_pos hlisted] at hfailure

end Outcome

end WorkloadAtlas.Run
