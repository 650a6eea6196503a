import Mathlib.Data.List.Nodup
import Mathlib.Data.List.Range
import WorkloadAtlas.Proofs.Sheets
import WorkloadAtlas.Proofs.Survey
/-!
The files that a run with a gallery leaves behind. A run that succeeds has drawn all figures of its itinerary; their
names are pairwise different, so that each of them stands in a file of its own and there are no others.
-/

namespace WorkloadAtlas.Plot.Gallery

open Files (Tree)
open Run Replayable

section Perform

variable {g : Gallery} {sim : Simulation} {place : Files.Key}

/-- What the events of a run have done to the files once all of its figures are drawn. -/
structure Drawn (figures : List Figure) (place : Files.Key) (before after : Tree) : Prop where
  below : after.below place = (figures.map label).reverse ++ before.below place
  files : ∀ figure ∈ figures, ∃ drawing, after.get? (place ++ [label figure]) = some (.file (.drawing drawing))
  others : ∀ key, (∀ figure ∈ figures, key ≠ place ++ [label figure]) → after.get? key = before.get? key

theorem Drawn.nil (place : Files.Key) (tree : Tree) : Drawn [] place tree tree :=
  ⟨rfl, fun _ h => (nomatch h), fun _ _ => rfl⟩

theorem Drawn.cons {figure : Figure} {figures : List Figure} {before after : Tree} {drawing : Drawing}
    (hlabel : label figure ∉ figures.map label) (hfresh : label figure ∉ before.below place)
    (h : Drawn figures place (before.insert (place ++ [label figure]) (.file (.drawing drawing))) after) :
    Drawn (figure :: figures) place before after := by
  have hother : ∀ other ∈ figures, place ++ [label figure] ≠ place ++ [label other] := by
    intro other hmem heq
    apply hlabel
    rw [List.singleton_inj.1 (List.append_cancel_left heq)]
    exact List.mem_map_of_mem hmem
  constructor
  · have hkept : (before.below place).filter (· != label figure) = before.below place := by
      rw [List.filter_eq_self]
      intro name hname
      rw [bne_iff_ne]
      rintro rfl
      exact hfresh hname
    rw [h.below, Tree.below_insert, hkept, List.map_cons, List.reverse_cons, List.append_assoc,
      List.singleton_append]
  · intro other hmem
    rcases List.mem_cons.1 hmem with rfl | hmem
    · refine ⟨drawing, ?_⟩
      rw [h.others _ hother]
      exact Tree.get?_insert_self _ _ _ (Tree.isGround_append (isName_label other) place)
    · exact h.files other hmem
  · intro key hkey
    have hfirst := hkey figure List.mem_cons_self
    rw [h.others key fun other hmem => hkey other (List.mem_cons_of_mem _ hmem)]
    exact Tree.get?_insert_of_ne _ _ _ hfirst

theorem drawn_of_perform {events : List Event} {w w' : Workspace}
    (hplace : w.files.walk (Tree.start g.directory) (Tree.names g.directory) = .ok place)
    (hdone : replay (perform (m := Desk) g.draw sim events).run w = (.ok (), w'))
    (hnodup : ((drawn events).map label).Nodup)
    (hfresh : ∀ figure ∈ drawn events, label figure ∉ w.files.below place) :
    Drawn (drawn events) place w.files w'.files := by
  -- Each figure takes a name that is free, and leaves the names of the figures after it free.
  induction events generalizing w with
  | nil =>
    rw [perform, replay_run_pure] at hdone
    cases hdone
    exact .nil place _
  | cons event rest ih =>
    cases event with
    | log entry =>
      rw [perform, replay_run_bind, replay_run_liftM] at hdone
      exact ih (w := { w with journal := entry :: w.journal }) hplace hdone hnodup hfresh
    | draw figure =>
      have hhung := hung_draw g sim figure w
      have hdraw : replay (ExceptT.mk (g.draw sim figure : Desk (Except Failure Unit))).run w =
        ((g.draw sim figure : Desk (Except Failure Unit)) w) := rfl
      rw [perform, replay_run_bind, hdraw] at hdone
      generalize (g.draw sim figure : Desk (Except Failure Unit)) w = r at hdone hhung
      obtain ⟨outcome, middle⟩ := r
      generalize hfiles : middle.files = files at hhung
      cases hhung with
      | failed failure => cases hdone
      | written place' drawing hwalk hfree =>
        cases hwalk.symm.trans hplace
        obtain ⟨hlabel, hnodup⟩ := List.nodup_cons.1 hnodup
        have hfirst := hfresh figure List.mem_cons_self
        have hkeeps := Tree.keeps_insert (.drawing drawing) hfree
        rw [← hfiles] at hkeeps
        have hrest := ih (hkeeps.walk hplace) hdone hnodup fun other hmem => by
          rw [hfiles, Tree.below_insert, List.mem_cons, not_or]
          constructor
          · intro heq
            apply hlabel
            rw [← heq]
            exact List.mem_map_of_mem hmem
          · intro hname
            exact hfresh other (List.mem_cons_of_mem _ hmem) (List.mem_filter.1 hname |>.1)
        rw [hfiles] at hrest
        exact hrest.cons hlabel hfirst

theorem perform_of_drawable {events : List Event} {w : Workspace}
    (hwalk : w.files.walk (Tree.start g.directory) (Tree.names g.directory) = .ok place)
    (hplace : w.files.get? place = some .directory)
    (hdrawable : ∀ figure ∈ drawn events, Drawable g sim figure)
    (hfree : ∀ figure ∈ drawn events, w.files.get? (place ++ [label figure]) ≠ some .directory) :
    ∃ w', replay (perform (m := Desk) g.draw sim events).run w = (.ok (), w') := by
  induction events generalizing w with
  | nil =>
    rw [perform, replay_run_pure]
    exact ⟨w, rfl⟩
  | cons event rest ih =>
    cases event with
    | log entry =>
      rw [perform, replay_run_bind, replay_run_liftM]
      exact ih (w := { w with journal := entry :: w.journal }) hwalk hplace hdrawable hfree
    | draw figure =>
      have hfirst := hfree figure List.mem_cons_self
      obtain ⟨w', content, hdraw, hfiles⟩ :=
        (hdrawable figure List.mem_cons_self).draw hwalk hplace hfirst
      have hreplay : replay (ExceptT.mk (g.draw sim figure : Desk (Except Failure Unit))).run w = (.ok (), w') := hdraw
      have hkeeps := Tree.keeps_insert content hfirst
      rw [← hfiles] at hkeeps
      rw [perform, replay_run_bind, hreplay]
      apply ih (hkeeps.walk hwalk) (hkeeps place hplace)
      · intro other hmem
        exact hdrawable other (List.mem_cons_of_mem _ hmem)
      · intro other hmem
        rw [hfiles, Tree.get?_insert, Tree.isGround_append (isName_label other) place]
        split
        · next heq => cases heq
        · split
          · exact fun heq => by cases heq
          · exact hfree other (List.mem_cons_of_mem _ hmem)

end Perform

section Labels

variable (plan : Itinerary)

theorem labels_figures : plan.figures.map label =
    ["all_sorted_workloads.svg", "all_boxplot_workloads.svg"] ++
      plan.sim.iterations.flatMap fun i => (plan.kindsAt i).map (iterationLabel i) := by
  have hsingle (i : Nat) : (plan.figuresAt i).map label = (plan.kindsAt i).map (iterationLabel i) := by
    unfold Itinerary.figuresAt
    rw [List.map_map]
    apply List.map_congr_left
    intro kind _
    simp only [Function.comp_apply, label, Itinerary.stateAt_iteration?, Option.getD_some]
  unfold Itinerary.figures
  rw [List.map_append, List.map_flatMap]
  simp only [hsingle]
  rfl

theorem labels_spelled : plan.figures.map label =
    ["all_sorted_workloads.svg", "all_boxplot_workloads.svg"] ++ plan.sim.iterations.flatMap fun i =>
      [s!"{i}_workloads.svg", s!"{i}_workload_quantiles.svg"] ++
        (if plan.sim.first < i then [s!"{i}_delta_workloads.svg", s!"{i}_delta_workload_quantiles.svg"] else []) ++
        [s!"{i}_workload_histogram.svg"] := by
  rw [labels_figures]
  congr 2
  funext i
  rw [funext (iterationLabel_eq i)]
  unfold Itinerary.kindsAt
  by_cases h : plan.sim.first < i
  · simp only [h, ↓reduceIte]
    rfl
  · simp only [h, ↓reduceIte]
    rfl

theorem nodup_kindsAt (i : Nat) : (plan.kindsAt i).Nodup := by
  unfold Itinerary.kindsAt
  by_cases h : plan.sim.first < i
  · simp only [h, ↓reduceIte]
    decide
  · simp only [h, ↓reduceIte]
    decide

theorem overview_ne_iterationLabel {name : String} (h : name.toList.head? = some 'a') (i : Nat)
    (kind : Figure.Single) : name ≠ iterationLabel i kind := by
  rintro rfl
  rw [toList_iterationLabel, List.head?_append, List.head?_eq_some_head Nat.toDigits_ne_nil, Option.some_or,
    Option.some.injEq] at h
  have hmem := List.head_mem (Nat.toDigits_ne_nil (n := i) (b := 10))
  rw [h] at hmem
  exact not_mem_toDigits rfl i hmem

theorem nodup_labels : (plan.figures.map label).Nodup := by
  have hsingles : (plan.sim.iterations.flatMap fun i => (plan.kindsAt i).map (iterationLabel i)).Nodup := by
    rw [List.nodup_flatMap]
    constructor
    · intro i _
      apply (nodup_kindsAt plan i).map_on
      intro kind _ other _ heq
      exact (iterationLabel_inj heq).2
    · have hnodup : plan.sim.iterations.Nodup := List.nodup_range'
      apply List.Pairwise.imp _ hnodup
      intro i j hne name hi hj
      obtain ⟨kind, -, rfl⟩ := List.mem_map.1 hi
      obtain ⟨other, -, heq⟩ := List.mem_map.1 hj
      exact hne (iterationLabel_inj heq).1.symm
  rw [labels_figures, List.nodup_append]
  refine ⟨by decide, hsingles, ?_⟩
  intro name hname other hother
  obtain ⟨i, -, hi⟩ := List.mem_flatMap.1 hother
  obtain ⟨kind, -, rfl⟩ := List.mem_map.1 hi
  rcases List.mem_cons.1 hname with rfl | hname
  · exact overview_ne_iterationLabel rfl i kind
  · rw [List.mem_singleton.1 hname]
    exact overview_ne_iterationLabel rfl i kind

theorem length_labels : (plan.figures.map label).length = 5 * plan.sim.count := by
  have hlater (first n : Nat) (h : plan.sim.first < first) :
      ((List.range' first n).flatMap plan.figuresAt).length = 5 * n := by
    induction n generalizing first with
    | zero => rfl
    | succ n ih =>
      rw [List.range'_succ, List.flatMap_cons, List.length_append, ih (first + 1) (by omega)]
      simp only [Itinerary.figuresAt, Itinerary.kindsAt, h, ↓reduceIte, List.length_map, List.length_append,
        List.length_cons, List.length_nil]
      omega
  obtain ⟨n, hn⟩ : ∃ n, plan.sim.count = n + 1 :=
    ⟨plan.sim.count - 1, (Nat.sub_add_cancel plan.sim.count_pos).symm⟩
  unfold Itinerary.figures Figure.overviews Simulation.iterations
  rw [List.length_map, List.length_append, hn, List.range'_succ, List.flatMap_cons, List.length_append,
    hlater (plan.sim.first + 1) n (Nat.lt_succ_self _)]
  simp only [Itinerary.figuresAt, Itinerary.kindsAt, Nat.lt_irrefl, ↓reduceIte, List.length_map, List.length_append,
    List.length_cons, List.length_nil]
  omega

theorem chart_stateAt (g : Gallery) {i : Nat} {kind : Figure.Single} (agrees : plan.Agrees i)
    (hkind : kind ∈ plan.kindsAt i) : ∃ chart, g.chart kind (plan.stateAt i) i = .ok chart := by
  have hdeltas : kind = .deltaWorkloads ∨ kind = .deltaWorkloadQuantiles →
      ∃ deltas, (plan.stateAt i).deltas = .ok deltas := by
    intro hdelta
    have hne : i ≠ plan.sim.first := by
      rintro rfl
      unfold Itinerary.kindsAt at hkind
      rw [if_neg (Nat.lt_irrefl _)] at hkind
      rcases hdelta with rfl | rfl <;> simp at hkind
    unfold Progress.deltas Itinerary.stateAt
    simp only [hne, ↓reduceIte, Sample.deltasFrom_of_workers_eq (agrees hne)]
    exact ⟨_, rfl⟩
  unfold chart
  cases kind with
  | workloads =>
    simp only [Itinerary.stateAt_current]
    exact ⟨_, rfl⟩
  | workloadQuantiles =>
    simp only [Progress.workloadQuantiles, Itinerary.stateAt_current]
    exact ⟨_, rfl⟩
  | deltaWorkloads =>
    obtain ⟨deltas, hdeltas⟩ := hdeltas (.inl rfl)
    simp only [Progress.sortedDeltas, hdeltas]
    exact ⟨_, rfl⟩
  | deltaWorkloadQuantiles =>
    obtain ⟨deltas, hdeltas⟩ := hdeltas (.inr rfl)
    simp only [Progress.deltaQuantiles, hdeltas]
    exact ⟨_, rfl⟩
  | workloadHistogram =>
    simp only [Itinerary.stateAt_current]
    exact ⟨_, rfl⟩

theorem sheet_figures (g : Gallery) (calculated : Number.IsWord plan.sim.stop)
    (agrees : ∀ i ∈ plan.sim.iterations, plan.Agrees i) (hfit : misfit? plan.sim plan.loaded = .ok none) :
    ∀ figure ∈ plan.figures, ∃ sheet, g.sheet plan.sim figure = .ok sheet := by
  intro figure hfigure
  rcases List.mem_append.1 hfigure with hoverview | hsingle
  · rcases List.mem_cons.1 hoverview with rfl | hoverview
    · exact ⟨_, rfl⟩
    · rw [List.mem_singleton.1 hoverview]
      simp only [sheet, boxplotSheet, hfit, Simulation.iterations?_of_isWord calculated]
      exact ⟨_, rfl⟩
  · obtain ⟨i, hi, hmem⟩ := List.mem_flatMap.1 hsingle
    obtain ⟨kind, hkind, rfl⟩ := List.mem_map.1 hmem
    obtain ⟨chart, hchart⟩ := chart_stateAt plan g (agrees i hi) hkind
    simp only [sheet, Itinerary.stateAt_now, bind, Except.bind, hchart]
    exact ⟨_, rfl⟩

end Labels

section Run

variable {g : Gallery} {sim : Simulation} {layout : Workloads.Layout} {levels : Quantile.Levels}
  {place : Files.Key} {w : Workspace}

/-- Below an empty place a gallery writes nothing over, so everything stays as it is found. -/
theorem steady_extends (hplace : w.files.walk (Tree.start g.directory) (Tree.names g.directory) = .ok place)
    (hempty : w.files.below place = []) :
    Steady (m := Desk) g.draw sim fun w' => Tree.Extends w.files w'.files := by
  constructor
  · intro w' entry h
    exact h
  · intro w' figure h
    have hhung := hung_draw g sim figure w'
    have hdraw : replay (g.draw sim figure : Desk (Except Failure Unit)) w' =
      ((g.draw sim figure : Desk (Except Failure Unit)) w') := rfl
    rw [hdraw]
    generalize (g.draw sim figure : Desk (Except Failure Unit)) w' = r at hhung ⊢
    obtain ⟨outcome, after⟩ := r
    generalize after.files = files at hhung ⊢
    cases hhung with
    | failed failure => exact h
    | written place' drawing hwalk hfree =>
      cases hwalk.symm.trans (h.keeps.walk hplace)
      intro key entry hkey
      have hne : key ≠ place ++ [label figure] := by
        rintro rfl
        have hmem := Tree.mem_below_of_get? (isName_label figure) hkey
        rw [hempty] at hmem
        cases hmem
      rw [Tree.get?_insert_of_ne _ _ _ hne]
      exact h key entry hkey

theorem alike_of_extends {w w' : Workspace} {sample : Nat → Sample}
    (found : ∀ i ∈ sim.iterations, w.workloads sim layout i = .ok (sample i))
    (h : Tree.Extends w.files w'.files) : Workloads.Alike sim layout w.files w'.files := by
  intro i hi
  have hfound := found i hi
  rw [Workspace.workloads_eq] at hfound
  obtain ⟨hfile, content, -, hread, -⟩ := Workloads.table_of_inFiles hfound
  rw [h.isFile hfile, hfile, h.read hread, hread]
  exact ⟨rfl, rfl⟩

/-- A run that succeeds has performed all events of an itinerary. -/
theorem perform_of_run {reports : List Report} {w' : Workspace}
    (hrun : (run g.draw sim layout levels : Desk (Except Failure (List Report))) w = (.ok reports, w'))
    (hplace : w.files.walk (Tree.start g.directory) (Tree.names g.directory) = .ok place)
    (hempty : w.files.below place = []) :
    ∃ plan : Itinerary, plan.sim = sim ∧
      replay (perform (m := Desk) g.draw sim (plan.events w.files)).run w = (.ok (), w') := by
  obtain ⟨samples, bounds, hgather, bounded⟩ := gather_of_run (m := Desk) hrun
  have hload : ((Workloads.loadAll sim layout : Desk (Except Failure (List Loaded))) w).1 = .ok samples := by
    rw [loadAll_eq, Workspace.workloads_eq]
    exact hgather
  obtain ⟨hstop, sample, found, rfl⟩ := samples_of_loadAll hload
  have fits : Itinerary.Fits ⟨sim, layout, levels, sample, bounds⟩ w.files := fits_of_bounds hstop found bounded
  have hcourse := fits.course (steady_extends hplace hempty) (fun _ h => alike_of_extends found h) bounded w
    fun _ _ h => h
  have hplayed := hcourse.symm.trans hrun
  refine ⟨⟨sim, layout, levels, sample, bounds⟩, rfl, ?_⟩
  unfold played at hplayed
  generalize replay (perform (m := Desk) g.draw sim _).run w = r at hplayed ⊢
  obtain ⟨failure | u, after⟩ := r
  · cases hplayed
  · cases hplayed
    rfl

/-- A run whose samples are found succeeds if all of its figures can be drawn. -/
theorem run_of_drawable {plan : Itinerary} (fits : plan.Fits w.files)
    (bounded : Bounds.ofLoaded plan.loaded = .ok plan.bounds)
    (hplace : w.files.walk (Tree.start g.directory) (Tree.names g.directory) = .ok place)
    (hdirectory : w.files.get? place = some .directory) (hempty : w.files.below place = [])
    (hdrawable : ∀ figure ∈ plan.figures, Drawable g plan.sim figure) :
    ∃ reports w', (run g.draw plan.sim plan.layout plan.levels : Desk (Except Failure (List Report))) w =
      (.ok reports, w') := by
  have found : ∀ i ∈ plan.sim.iterations, w.workloads plan.sim plan.layout i = .ok (plan.sample i) := by
    rw [Workspace.workloads_eq]
    exact fits.found
  have hcourse := fits.course (steady_extends hplace hempty) (fun _ h => alike_of_extends found h) bounded w
    fun _ _ h => h
  have hfree : ∀ figure ∈ drawn (plan.events w.files),
      w.files.get? (place ++ [label figure]) ≠ some .directory := by
    intro figure _ hget
    have hmem := Tree.mem_below_of_get? (isName_label figure) hget
    rw [hempty] at hmem
    cases hmem
  obtain ⟨w', hperform⟩ := perform_of_drawable hplace hdirectory (by rw [plan.drawn_events]; exact hdrawable) hfree
  unfold played at hcourse
  rw [hperform] at hcourse
  exact ⟨_, w', hcourse⟩

/-- A run that succeeds with a gallery whose directory is empty at first leaves exactly one file for each of its figures
there. Their names are pairwise different whatever the iterations are: two overviews, three figures of each iteration,
and two more of each iteration but the first. -/
theorem run_exhibits {reports : List Report} {w' : Workspace}
    (hrun : (run g.draw sim layout levels : Desk (Except Failure (List Report))) w = (.ok reports, w'))
    (hplace : w.files.walk (Tree.start g.directory) (Tree.names g.directory) = .ok place)
    (hempty : w.files.below place = []) :
    let names := ["all_sorted_workloads.svg", "all_boxplot_workloads.svg"] ++ sim.iterations.flatMap fun i =>
      [s!"{i}_workloads.svg", s!"{i}_workload_quantiles.svg"] ++
        (if sim.first < i then [s!"{i}_delta_workloads.svg", s!"{i}_delta_workload_quantiles.svg"] else []) ++
        [s!"{i}_workload_histogram.svg"]
    (w'.files.below place).Perm names ∧ names.Nodup ∧ names.length = 5 * sim.count ∧
      w'.files.walk (Tree.start g.directory) (Tree.names g.directory) = .ok place ∧
      ∀ name ∈ names, ∃ drawing, w'.files.get? (place ++ [name]) = some (.file (.drawing drawing)) := by
  intro names
  obtain ⟨plan, rfl, hperform⟩ := perform_of_run hrun hplace hempty
  have hlabels : plan.figures.map label = names := labels_spelled plan
  have hnodup := nodup_labels plan
  have hdrawn := drawn_of_perform hplace hperform (by rw [plan.drawn_events]; exact hnodup) fun figure _ => by
    rw [hempty]
    exact List.not_mem_nil
  rw [plan.drawn_events] at hdrawn
  have hsteady : Steady (m := Desk) g.draw plan.sim _ := steady_extends hplace hempty
  have hkept := hsteady.perform (plan.events w.files) (t := w) fun _ _ h => h
  rw [hperform] at hkept
  rw [← hlabels]
  refine ⟨?_, hnodup, length_labels plan, hkept.keeps.walk hplace, ?_⟩
  · rw [hdrawn.below, hempty, List.append_nil]
    exact List.reverse_perm _
  · intro name hname
    obtain ⟨figure, hfigure, rfl⟩ := List.mem_map.1 hname
    exact hdrawn.files figure hfigure

end Run

/-- The files of a run through a pair of iterations. -/
def soloNames : List String :=
  ["all_sorted_workloads.svg", "all_boxplot_workloads.svg", "3_workloads.svg", "3_workload_quantiles.svg",
    "3_workload_histogram.svg", "4_workloads.svg", "4_workload_quantiles.svg", "4_delta_workloads.svg",
    "4_delta_workload_quantiles.svg", "4_workload_histogram.svg"]

theorem names_solo : (["all_sorted_workloads.svg", "all_boxplot_workloads.svg"] ++ pair.iterations.flatMap fun i =>
    [s!"{i}_workloads.svg", s!"{i}_workload_quantiles.svg"] ++
      (if pair.first < i then [s!"{i}_delta_workloads.svg", s!"{i}_delta_workload_quantiles.svg"] else []) ++
      [s!"{i}_workload_histogram.svg"]) = soloNames := by
  decide

theorem check_solo : ∀ name ∈ soloNames,
    Tree.check (Path.join ⟨"plots"⟩ ⟨name⟩) = .ok () ∧ name.utf8ByteSize ≤ Tree.nameLimit := by
  decide

/-- A run through those files does not fail. -/
theorem exists_run_solo {w : Workspace} (hfiles : w.files = soloFiles) (levels : Quantile.Levels) : ∃ reports w',
    (run (standard ⟨"plots"⟩).draw pair .standard levels : Desk (Except Failure (List Report))) w =
      (.ok reports, w') := by
  have hwalk : w.files.walk (Tree.start ⟨"plots"⟩) (Tree.names ⟨"plots"⟩) = .ok ["plots"] := by
    rw [hfiles]
    rfl
  have hdirectory : w.files.get? ["plots"] = some .directory := by
    rw [hfiles]
    rfl
  have hempty : w.files.below ["plots"] = [] := by
    rw [hfiles]
    rfl
  obtain ⟨sample, bounds, found, bounded⟩ := solo_bounded
  have fits : Itinerary.Fits ⟨pair, .standard, levels, sample, bounds⟩ w.files := by
    rw [hfiles]
    exact fits_of_bounds isWord_stop_pair found bounded
  have hlabels : (Itinerary.figures ⟨pair, .standard, levels, sample, bounds⟩).map label = soloNames :=
    (labels_spelled _).trans names_solo
  have hdrawable : ∀ figure ∈ Itinerary.figures ⟨pair, .standard, levels, sample, bounds⟩,
      Drawable (standard ⟨"plots"⟩) pair figure := by
    intro figure hfigure
    obtain ⟨hcheck, hlength⟩ := check_solo (label figure) (hlabels ▸ List.mem_map_of_mem hfigure)
    refine ⟨?_, hcheck, hlength⟩
    exact sheet_figures ⟨pair, .standard, levels, sample, bounds⟩ _ fits.calculated fits.agrees rfl figure hfigure
  obtain ⟨reports, w', hrun⟩ := run_of_drawable fits bounded hwalk hdirectory hempty hdrawable
  exact ⟨reports, w', hrun⟩

/-- A pair of iterations leaves ten drawings. -/
theorem run_exhibits_solo : ∃ reports w',
    (run (standard ⟨"plots"⟩).draw pair .standard .quartiles : Desk (Except Failure (List Report)))
      (.ofFiles soloFiles) = (.ok reports, w') ∧
    soloFiles.walk (Tree.start ⟨"plots"⟩) (Tree.names ⟨"plots"⟩) = .ok ["plots"] ∧ soloFiles.below ["plots"] = [] ∧
    (w'.files.below ["plots"]).Perm soloNames := by
  have hwalk : soloFiles.walk (Tree.start ⟨"plots"⟩) (Tree.names ⟨"plots"⟩) = .ok ["plots"] := by rfl
  have hempty : soloFiles.below ["plots"] = [] := by rfl
  obtain ⟨reports, w', hrun⟩ := exists_run_solo (w := .ofFiles soloFiles) rfl .quartiles
  refine ⟨reports, w', hrun, hwalk, hempty, ?_⟩
  rw [← names_solo]
  exact (run_exhibits hrun hwalk hempty).1

end WorkloadAtlas.Plot.Gallery
