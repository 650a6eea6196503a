import WorkloadAtlas.Proofs.Calculations
import WorkloadAtlas.Proofs.Session
import WorkloadAtlas.Proofs.Sheets
import WorkloadAtlas.Proofs.Survey
/-!
What a run can do to files of any kind. It may fail at any point, and its drawings may even take the place of files that
it reads later on; still it puts drawings into the directory of its gallery and does nothing else, and the reports that
it gives back are those on all of its iterations in order. If the end of its simulation can be calculated, it does not
end by an overflow.
-/

namespace WorkloadAtlas

namespace Replayable

variable {m : Type → Type} {τ : Type} [Monad m] [Host m] [Replayable m τ] {kind : τ → Prop} {α β ε : Type}
  {cause : ε → Prop}

/-- From a state of the kind, `x` ends in one; what it gives back is as it should be, or else the cause of its failure
is. -/
def Ends (kind : τ → Prop) (cause : ε → Prop) (x : ExceptT ε m α) (good : α → Prop) : Prop :=
  ∀ t, kind t → kind (replay x.run t).2 ∧ (∀ a, (replay x.run t).1 = .ok a → good a) ∧
    ∀ e, (replay x.run t).1 = .error e → cause e

namespace Ends

variable {good : α → Prop} {good' : β → Prop}

theorem lift {x : m α} (h : ∀ t, kind t → kind (replay x t).2 ∧ good (replay x t).1) :
    Ends kind cause (liftM x : ExceptT ε m α) good := by
  intro t ht
  rw [replay_run_liftM]
  obtain ⟨hkind, hgood⟩ := h t ht
  refine ⟨hkind, ?_, nofun⟩
  intro a ha
  cases ha
  exact hgood

theorem settled {r : Except ε α} (h : ∀ a, r = .ok a → good a) (hcause : ∀ e, r = .error e → cause e) :
    Ends kind cause (ExceptT.mk (pure r : m _)) good := by
  intro t ht
  have hreplay : replay (ExceptT.mk (pure r : m _)).run t = (r, t) := replay_pure (m := m) r t
  rw [hreplay]
  exact ⟨ht, h, hcause⟩

/-- A settled step of which nothing is asked, however it ends. -/
theorem unasked {r : Except ε α} : Ends kind (fun _ => True) (ExceptT.mk (pure r : m _)) fun _ => True :=
  settled (fun _ _ => trivial) fun _ _ => trivial

theorem pure {a : α} (h : good a) : Ends kind cause (pure a : ExceptT ε m α) good := by
  refine settled (r := .ok a) ?_ nofun
  intro b hb
  cases hb
  exact h

theorem bind {x : ExceptT ε m α} {f : α → ExceptT ε m β} (hx : Ends kind cause x good)
    (hf : ∀ a, good a → Ends kind cause (f a) good') : Ends kind cause (x >>= f) good' := by
  intro t ht
  have hfirst := hx t ht
  rw [replay_run_bind]
  generalize replay x.run t = r at hfirst ⊢
  obtain ⟨a | a, t'⟩ := r
  · refine ⟨hfirst.1, nofun, ?_⟩
    intro e he
    cases he
    exact hfirst.2.2 a rfl
  · exact hf a (hfirst.2.1 a rfl) t' hfirst.1

/-- A step of which nothing is asked before the rest. -/
theorem skip {x : ExceptT ε m α} {f : α → ExceptT ε m β} (hx : Ends kind cause x fun _ => True)
    (hf : ∀ a, Ends kind cause (f a) good') : Ends kind cause (x >>= f) good' :=
  bind hx fun a _ => hf a

theorem log (stable : LogStable m kind) (entry : Log.Entry) :
    Ends kind cause (liftM (Host.log entry : m Unit) : ExceptT ε m Unit) fun _ => True :=
  lift fun t ht => ⟨stable t entry ht, trivial⟩

theorem ofRepeat [Nonempty β] {f : α → ExceptT ε m (α ⊕ β)} {a : α}
    (h : Ends kind cause (repeatM.body f (repeatM f) a) good') : Ends kind cause (repeatM f a) good' := by
  intro t ht
  rw [replay_repeatM]
  exact h t ht

end Ends

end Replayable

namespace Run

open Failure (InRange)
open Files (Tree)
open Number (IsWord)
open Plot Replayable

/-- A failure that is no overflow, unless the end of the simulation cannot be calculated. -/
def Proper (sim : Simulation) (failure : Failure) : Prop :=
  IsWord sim.stop → failure ≠ .overflow

theorem proper_of_inRange {sim : Simulation} {α : Type} {answer : Except Failure α}
    (h : IsWord sim.stop → InRange answer) : ∀ failure, answer = .error failure → Proper sim failure :=
  fun failure hfailure calculated => h calculated failure hfailure

/-- What drawings in the directory of a gallery do to the files. -/
structure Painted (g : Gallery) (sim : Simulation) (before after : Tree) : Prop where
  keeps : Tree.Keeps before after
  kept : Tree.Keeps after before
  drawings : ∀ key, after.get? key ≠ before.get? key →
    ∃ place name drawing, before.walk (Tree.start g.directory) (Tree.names g.directory) = .ok place ∧
      name ∈ Gallery.fileNames sim ∧ key = place ++ [name] ∧ after.get? key = some (.file (.drawing drawing))

theorem Painted.refl (g : Gallery) (sim : Simulation) (tree : Tree) : Painted g sim tree tree :=
  ⟨fun _ h => h, fun _ h => h, fun _ h => absurd rfl h⟩

section Passage

variable {g : Gallery} {sim : Simulation} {before : Tree} {layout : Workloads.Layout} {levels : Quantile.Levels}
  {bounds : Bounds}

theorem Painted.draw {figure : Figure} {w : Workspace} (h : Painted g sim before w.files)
    (hlabel : Gallery.label figure ∈ Gallery.fileNames sim) :
    Painted g sim before ((g.draw sim figure : Desk (Except Failure Unit)) w).2.files := by
  have hhung := Gallery.hung_draw g sim figure w
  generalize (g.draw sim figure : Desk (Except Failure Unit)) w = r at hhung ⊢
  obtain ⟨outcome, after⟩ := r
  generalize after.files = files at hhung ⊢
  cases hhung with
  | failed failure => exact h
  | written place drawing hwalk hfree =>
    refine ⟨h.keeps.trans (Tree.keeps_insert _ hfree), (Tree.keeps_of_insert _ _ _).trans h.kept, ?_⟩
    intro key hkey
    by_cases heq : key = place ++ [Gallery.label figure]
    · subst heq
      refine ⟨place, _, drawing, h.kept.walk hwalk, hlabel, rfl, ?_⟩
      exact Tree.get?_insert_self _ _ _ (Tree.isGround_append (Gallery.isName_label figure) place)
    · rw [Tree.get?_insert_of_ne _ _ _ heq] at hkey ⊢
      exact h.drawings key hkey

/-- The workspaces whose files differ from others by drawings alone. -/
def Paints (g : Gallery) (sim : Simulation) (before : Tree) (w : Workspace) : Prop :=
  Painted g sim before w.files

theorem Paints.of_files {w w' : Workspace} (h : Paints g sim before w) (hfiles : w'.files = w.files) :
    Paints g sim before w' := by
  unfold Paints
  rw [hfiles]
  exact h

theorem ends_drawAll {figures : List Figure}
    (hlabels : ∀ figure ∈ figures, Gallery.label figure ∈ Gallery.fileNames sim) :
    Ends (Paints g sim before) (Proper sim) (drawAll (m := Desk) g.draw sim figures) fun _ => True := by
  induction figures with
  | nil => exact .pure trivial
  | cons figure rest ih =>
    have hstable : LogStable Desk (Paints g sim before) := fun _ _ h => h
    refine .skip (.log hstable _) fun _ => .skip ?_ fun _ => ?_
    · intro w hw
      refine ⟨Painted.draw hw (hlabels figure List.mem_cons_self), fun _ _ => trivial, ?_⟩
      exact proper_of_inRange fun calculated => g.inRange_draw calculated figure w
    · exact ih fun other hmem => hlabels other (List.mem_cons_of_mem _ hmem)

/-- Between two passes of the loop: as many iterations are loaded and reported on as passes are made. -/
structure Underway (sim : Simulation) (bounds : Bounds) (layout : Workloads.Layout) (levels : Quantile.Levels) (k : Nat)
    (p : Progress) (reports : List Report) : Prop where
  reached : Progress.Reached sim bounds layout levels k p
  previous : p.hasPrevious = decide (2 ≤ k)
  iterations : reports.map (·.iteration) = List.range' sim.first k
  deltas : ∀ report ∈ reports, report.deltaQuantiles = none ↔ report.iteration = sim.first

theorem underway_start (sim : Simulation) (bounds : Bounds) (layout : Workloads.Layout) (levels : Quantile.Levels) :
    Underway sim bounds layout levels 0 (.start bounds layout levels) [] :=
  ⟨Progress.reached_start sim bounds layout levels, rfl, rfl, fun _ h => nomatch h⟩

/-- The state in which the figures of an iteration are drawn. -/
structure Arrived (sim : Simulation) (bounds : Bounds) (layout : Workloads.Layout) (levels : Quantile.Levels) (k : Nat)
    (p : Progress) : Prop where
  lt_count : k < sim.count
  reached : Progress.Reached sim bounds layout levels (k + 1) p
  previous : p.hasPrevious = decide (2 ≤ k + 1)

variable {k : Nat} {p : Progress} {reports : List Report}

theorem Underway.advance (h : Underway sim bounds layout levels k p reports) (w : Workspace) {i : Nat}
    (hi : ((p.advance sim : Desk (Except Failure Nat × Progress)) w).1.1 = .ok i) :
    i = sim.first + k ∧
      Arrived sim bounds layout levels k ((p.advance sim : Desk (Except Failure Nat × Progress)) w).1.2 := by
  rw [(Progress.advance_eq p sim w).1] at hi ⊢
  have hstep := Progress.advance_advanced (w.workloads sim p.layout) p sim
  generalize p.advanced (w.workloads sim p.layout) sim = r at hi hstep
  obtain ⟨answer, after⟩ := r
  subst hi
  rcases h.reached.advance hstep with ⟨hok, hreached⟩ | ⟨failure, hfailure, -⟩
  · cases hok
    have hcount := hreached.le_count
    refine ⟨rfl, hcount, hreached, ?_⟩
    cases hstep with
    | @taken i s hnext hs hsize =>
      have hprevious := Progress.taken_hasPrevious p ⟨sim.first + k, s⟩
      rw [h.reached.iteration?] at hprevious
      refine hprevious.trans ?_
      by_cases hk : k = 0
      · subst hk
        rfl
      · have hlater : 2 ≤ k + 1 := by omega
        simp only [hk, hlater, ↓reduceIte, Option.isSome_some, decide_true]
  · cases hfailure

/-- No advance of a run overflows but for the end of its simulation. -/
theorem proper_advance (h : Progress.Reached sim bounds layout levels k p)
    {sample : Nat → Except Workloads.Error Sample} {answer : Except Failure Nat} {after : Progress}
    (step : Progress.Advance sample sim p answer after) : ∀ failure, answer = .error failure → Proper sim failure := by
  refine proper_of_inRange fun calculated => ?_
  cases step with
  | exhausted hstop hlast => exact Failure.inRange_error nofun
  | overflowed hi hbeyond =>
    have hnext := h.next (.inl calculated)
    rw [Progress.next_of_beyond hi hbeyond] at hnext
    split at hnext
    · cases hnext
    · cases hnext
  | unloaded hn hs => exact Failure.inRange_error nofun
  | miscounted hn hs hnow hne => exact Failure.inRange_error nofun
  | taken hn hs hsize => exact Failure.inRange_ok _

theorem Arrived.now (h : Arrived sim bounds layout levels k p) {now : Loaded} (hnow : p.now = .ok now) :
    now.iteration = sim.first + k := by
  have hiteration := h.reached.iteration?
  unfold Progress.now at hnow
  unfold Progress.iteration? at hiteration
  cases hnow? : p.now? with
  | none =>
    rw [hnow?] at hnow
    cases hnow
  | some loaded =>
    rw [hnow?] at hnow hiteration
    cases hnow
    simpa using hiteration

theorem Arrived.report (h : Arrived sim bounds layout levels k p) {report : Report} (hreport : p.report = .ok report) :
    report.iteration = sim.first + k ∧ (report.deltaQuantiles = none ↔ report.iteration = sim.first) := by
  obtain ⟨now, hnow, hreport⟩ := Table.bind_eq_ok hreport
  have hiteration := h.now hnow
  rw [h.previous] at hreport
  by_cases hk : 2 ≤ k + 1
  · have hlater : now.iteration ≠ sim.first := by omega
    simp only [hk, decide_true, ↓reduceIte] at hreport
    obtain ⟨deltas, hdeltas, hreport⟩ := Table.bind_eq_ok hreport
    cases hreport
    cases hquantiles : p.deltaQuantiles with
    | error failure =>
      rw [hquantiles] at hdeltas
      cases hdeltas
    | ok quantiles =>
      rw [hquantiles] at hdeltas
      cases hdeltas
      exact ⟨hiteration, iff_of_false (Option.some_ne_none quantiles) hlater⟩
  · have hfirst : now.iteration = sim.first := by omega
    simp only [hk, decide_false, Bool.false_eq_true, ↓reduceIte] at hreport
    cases hreport
    exact ⟨hiteration, iff_of_true rfl hfirst⟩

theorem Underway.report (h : Underway sim bounds layout levels k p reports) {after : Progress}
    (arrived : Arrived sim bounds layout levels k after) {report : Report} (hreport : after.report = .ok report) :
    Underway sim bounds layout levels (k + 1) after (reports ++ [report]) := by
  obtain ⟨hiteration, hdeltas⟩ := arrived.report hreport
  refine ⟨arrived.reached, arrived.previous, ?_, ?_⟩
  · rw [List.map_append, List.map_singleton, h.iterations, hiteration, List.range'_1_concat]
  · intro other hother
    rcases List.mem_append.1 hother with hother | hother
    · exact h.deltas other hother
    · rw [List.mem_singleton.1 hother]
      exact hdeltas

theorem Arrived.labels (h : Arrived sim bounds layout levels k p) :
    ∀ figure ∈ Figure.ofState p, Gallery.label figure ∈ Gallery.fileNames sim := by
  have hlt := h.lt_count
  have hiteration := h.reached.iteration?
  have hprevious := h.previous
  simp only [Nat.add_eq_zero_iff, Nat.one_ne_zero, and_false, ↓reduceIte] at hiteration
  have hlater : decide (2 ≤ k + 1) = decide (sim.first < sim.first + (k + 1) - 1) := by
    apply decide_eq_decide.2
    omega
  rw [hlater] at hprevious
  intro figure hfigure
  exact Gallery.label_ofState (List.mem_range'_1.2 ⟨by omega, by omega⟩) hiteration hprevious hfigure

theorem ends_pass (h : Underway sim bounds layout levels k p reports) :
    Ends (Paints g sim before) (Proper sim) (pass (m := Desk) g.draw sim p reports) fun next =>
      ∃ after reports', Underway sim bounds layout levels (k + 1) after reports' ∧
        next = if k + 1 = sim.count then .inr reports' else .inl (after, reports') := by
  unfold pass
  have hadvance : Ends (Paints g sim before) (Proper sim)
      (liftM (p.advance sim : Desk (Except Failure Nat × Progress)) : ExceptT Failure Desk _)
      fun r => (∀ i, r.1 = .ok i → i = sim.first + k ∧ Arrived sim bounds layout levels k r.2) ∧
        ∀ failure, r.1 = .error failure → Proper sim failure := by
    apply Ends.lift
    intro w hw
    refine ⟨hw.of_files (Progress.advance_eq p sim w).2, fun i hi => h.advance w hi, ?_⟩
    have hanswer : (replay (p.advance sim : Desk (Except Failure Nat × Progress)) w).1.1 =
      (p.advanced (w.workloads sim p.layout) sim).1 := congrArg Prod.fst (Progress.advance_eq p sim w).1
    rw [hanswer]
    exact proper_advance h.reached (Progress.advance_advanced (w.workloads sim p.layout) p sim)
  refine .bind hadvance ?_
  rintro ⟨answer, after⟩ ⟨hanswer, hproper⟩
  refine .bind (.settled hanswer hproper) ?_
  rintro i ⟨rfl, arrived⟩
  refine .skip (.settled (fun _ _ => trivial) (proper_of_inRange Simulation.inRange_iterations?)) fun iterations => ?_
  refine .bind (.settled (fun now hnow => arrived.now hnow) (proper_of_inRange fun _ => after.inRange_now)) ?_
  intro now hnow
  refine .skip (.lift fun w hw => ⟨hw, trivial⟩) fun _ => ?_
  refine .skip (ends_drawAll arrived.labels) fun _ => ?_
  refine .bind (.settled (fun report hreport => h.report arrived hreport)
    (proper_of_inRange fun _ => after.inRange_report)) ?_
  intro report hreport
  refine .bind (.settled (fun last hlast => Simulation.isLast_of_checked hlast)
    (proper_of_inRange fun calculated => Simulation.inRange_isLast? calculated (sim.first + k))) ?_
  rintro last rfl
  refine .pure ⟨after, _, hreport, ?_⟩
  simp only [sim.isLast_add_iff]

/-- Reports on all iterations of a simulation in order, of which the first one alone has no changes to report. -/
def Complete (sim : Simulation) (reports : List Report) : Prop :=
  reports.map (·.iteration) = sim.iterations ∧
    ∀ report ∈ reports, report.deltaQuantiles = none ↔ report.iteration = sim.first

theorem ends_passes {n : Nat} (hn : k + n + 1 = sim.count) (h : Underway sim bounds layout levels k p reports) :
    Ends (Paints g sim before) (Proper sim)
      (repeatM (fun (p, reports) => pass (m := Desk) g.draw sim p reports) (p, reports)) (Complete sim) := by
  induction n generalizing k p reports with
  | zero =>
    refine .ofRepeat (.bind (ends_pass h) ?_)
    rintro next ⟨after, reports', hunderway, rfl⟩
    rw [if_pos hn]
    refine .pure ⟨?_, hunderway.deltas⟩
    rw [hunderway.iterations, hn]
    rfl
  | succ n ih =>
    refine .ofRepeat (.bind (ends_pass h) ?_)
    rintro next ⟨after, reports', hunderway, rfl⟩
    have hlast : k + 1 ≠ sim.count := by omega
    rw [if_neg hlast]
    exact ih (by omega) hunderway

/-- However a run ends, it leaves drawings and nothing else. -/
theorem ends_run (g : Gallery) (sim : Simulation) (before : Tree) (layout : Workloads.Layout)
    (levels : Quantile.Levels) :
    Ends (Paints g sim before) (Proper sim) (ExceptT.mk (run (m := Desk) g.draw sim layout levels)) (Complete sim) := by
  have hpos := sim.count_pos
  have hstable : LogStable Desk (Paints g sim before) := fun _ _ h => h
  have hload : Ends (Paints g sim before) (Proper sim) (ExceptT.mk (Workloads.loadAll (m := Desk) sim layout))
      fun _ => True := by
    intro w hw
    have hquiet := quiet_loadAll (m := Desk) w sim layout
    refine ⟨hw.of_files hquiet.files_replay, fun _ _ => trivial, ?_⟩
    have hreplay : replay (ExceptT.mk (Workloads.loadAll (m := Desk) sim layout)).run w = _ := hquiet w rfl
    rw [hreplay]
    exact proper_of_inRange fun calculated => Workloads.inRange_gatherAll _ calculated
  have hoverview : Ends (Paints g sim before) (Proper sim) (overview (m := Desk) g.draw sim layout) fun _ => True := by
    refine .skip (.log hstable _) fun _ => .skip hload fun samples => ?_
    refine .skip (.settled (fun _ _ => trivial) (proper_of_inRange fun _ => Bounds.inRange_ofLoaded samples))
      fun bounds => .skip (.log hstable _) fun _ => ?_
    exact .skip (ends_drawAll fun _ => Gallery.label_overviews) fun _ => .pure trivial
  refine .skip hoverview fun bounds => ?_
  refine .bind (ends_passes (n := sim.count - 1) (by omega) (underway_start sim bounds layout levels)) ?_
  intro reports hreports
  exact .skip (.log hstable _) fun _ => .pure hreports

end Passage

end Run

end WorkloadAtlas
