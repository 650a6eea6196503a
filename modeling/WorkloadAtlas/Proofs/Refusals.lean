import WorkloadAtlas.Proofs.Journey
import WorkloadAtlas.Proofs.Sheets
/-!
Figures that are refused for lack of data. The data of a figure are read before its file is opened, so a refusal leaves
everything as it was. Once the data are there the figure is rendered, and all that can still fail is to write its file.
-/

namespace WorkloadAtlas

open Progress (Settled Telling journey settled_journey)

/-- The figure shows changes from one iteration to the next. -/
def Figure.Single.ofChanges : Figure.Single → Bool
  | .deltaWorkloads | .deltaWorkloadQuantiles => true
  | .workloads | .workloadQuantiles | .workloadHistogram => false

namespace Plot.Gallery

/-- What rendering a sheet comes to: a line in the log, and then either its file with the drawing in it or, with no file
changed, a failure that names the plot and the file. -/
structure Rendered (sheet : Sheet) (w : Workspace) (result : Except Failure Unit × Workspace) : Prop where
  journal : result.2.journal = ⟨.debug, .rendering, s!"Rendering {sheet.plot} to {sheet.path.text}"⟩ :: w.journal
  ok : result.1 = .ok () → w.files.write sheet.path (.drawing sheet.drawing) = .ok result.2.files
  error (failure : Failure) : result.1 = .error failure →
    ∃ cause, w.files.write sheet.path (.drawing sheet.drawing) = .error cause ∧ result.2.files = w.files ∧
      failure = .render sheet.plot sheet.path s!"backend error: Drawing backend error: {cause.message}"

theorem rendered_hang (sheet : Sheet) (w : Workspace) :
    Rendered sheet w ((hang sheet : Desk (Except Failure Unit)) w) := by
  cases hwrite : w.files.write sheet.path (.drawing sheet.drawing) with
  | ok files =>
    have hhang : (hang sheet : Desk (Except Failure Unit)) w =
        (.ok (), ⟨files, ⟨.debug, .rendering, s!"Rendering {sheet.plot} to {sheet.path.text}"⟩ :: w.journal⟩) := by
      simp only [hang, bind, StateT.bind, Host.debug, Host.log, Host.write, hwrite]
      rfl
    rw [hhang]
    refine ⟨rfl, fun _ => hwrite, ?_⟩
    rintro failure ⟨⟩
  | error cause =>
    have hhang : (hang sheet : Desk (Except Failure Unit)) w =
        (.error (.render sheet.plot sheet.path s!"backend error: Drawing backend error: {cause.message}"),
          ⟨w.files, ⟨.debug, .rendering, s!"Rendering {sheet.plot} to {sheet.path.text}"⟩ :: w.journal⟩) := by
      simp only [hang, bind, StateT.bind, Host.debug, Host.log, Host.write, hwrite]
      rfl
    rw [hhang]
    refine ⟨rfl, ?_, ?_⟩
    · rintro ⟨⟩
    · rintro failure ⟨⟩
      exact ⟨cause, hwrite, rfl, rfl⟩

section Draw

variable {g : Gallery} {sim : Simulation} {figure : Figure} {w : Workspace}

theorem draw_of_error {failure : Failure} (h : g.sheet sim figure = .error failure) :
    (g.draw sim figure : Desk (Except Failure Unit)) w = (.error failure, w) := by
  rw [draw, h]
  rfl

theorem draw_of_ok {sheet : Sheet} (h : g.sheet sim figure = .ok sheet) :
    (g.draw sim figure : Desk (Except Failure Unit)) w = (hang sheet : Desk (Except Failure Unit)) w := by
  rw [draw, h]

theorem rendered_draw {sheet : Sheet} (h : g.sheet sim figure = .ok sheet) :
    Rendered sheet w ((g.draw sim figure : Desk (Except Failure Unit)) w) := by
  rw [draw_of_ok h]
  exact rendered_hang sheet w

end Draw

section Single

variable {g : Gallery} {sim : Simulation} {kind : Figure.Single} {p : Progress} {indices : List Nat}

theorem map_bind_pure {α β γ : Type} (f : α → β) (f' : β → γ) (answer : Except Failure α) :
    (answer.map f >>= fun b => pure (f' b)) = answer.map (f' ∘ f) := by
  cases answer <;> rfl

/-- A figure that shows no changes needs the current sample alone. -/
theorem chart_of_current (hkind : kind.ofChanges = false) (i : Nat) :
    ∃ f : Sample → Chart, g.chart kind p i = p.current.map f := by
  cases kind with
  | workloads => exact ⟨_, bind_pure_comp _ p.current⟩
  | workloadQuantiles => exact ⟨_, map_bind_pure _ _ p.current⟩
  | deltaWorkloads => cases hkind
  | deltaWorkloadQuantiles => cases hkind
  | workloadHistogram => exact ⟨_, bind_pure_comp _ p.current⟩

/-- A figure that shows changes needs nothing else. -/
theorem chart_of_deltas (hkind : kind.ofChanges = true) (i : Nat) :
    ∃ f : List Float → Chart, g.chart kind p i = p.deltas.map f := by
  cases kind with
  | workloads => cases hkind
  | workloadQuantiles => cases hkind
  | deltaWorkloads => exact ⟨_, map_bind_pure _ _ p.deltas⟩
  | deltaWorkloadQuantiles => exact ⟨_, map_bind_pure _ _ p.deltas⟩
  | workloadHistogram => cases hkind

theorem telling_chart (h : Settled indices p.stage) (hkind : kind.ofChanges = true) (i : Nat) :
    Telling indices p (g.chart kind p i) := by
  obtain ⟨f, hf⟩ := chart_of_deltas (g := g) (p := p) hkind i
  rw [hf]
  exact h.telling_deltas.map f

theorem sheet_of_nothing (h : p.now? = none) : g.sheet sim (.single kind p) = .error .nothingLoaded := by
  have hnow : p.now = .error .nothingLoaded := by
    rw [Progress.now, h]
  rw [sheet, hnow]
  rfl

theorem sheet_of_iteration {i : Nat} (h : p.iteration? = some i) :
    g.sheet sim (.single kind p) = (g.chart kind p i).map fun chart =>
      ⟨plotName kind, g.iterationFile i (fileName kind), chart.drawing g.canvas⟩ := by
  obtain ⟨now, hnow?, rfl⟩ := Option.map_eq_some_iff.1 h
  have hnow : p.now = .ok now := by
    rw [Progress.now, hnow?]
  rw [sheet, hnow]
  change (g.chart kind p now.iteration >>= _) = _
  cases g.chart kind p now.iteration <;> rfl

/-- Of a loaded iteration there is every figure, as long as those of its changes can be told. -/
theorem exists_chart {i : Nat} (h : Settled indices p.stage) (hi : p.iteration? = some i)
    (hchanges : kind.ofChanges = true → p.hasPrevious = true ∧ ¬ p.Differing) :
    ∃ chart, g.chart kind p i = .ok chart := by
  cases hkind : kind.ofChanges with
  | true => exact (telling_chart h hkind i).ok.2 (hchanges hkind)
  | false =>
    obtain ⟨f, hf⟩ := chart_of_current (g := g) (p := p) hkind i
    obtain ⟨now, hnow?, -⟩ := Option.map_eq_some_iff.1 hi
    have hcurrent : p.current = .ok now.sample := by
      rw [Progress.current, Progress.now, hnow?]
      rfl
    rw [hf, hcurrent]
    exact ⟨f now.sample, rfl⟩

end Single

/-- Wherever a journey leads, a figure of one iteration is refused, and nothing written or logged, if no iteration is
loaded; and one of changes also if only one is loaded, or if the last two list different workers. Otherwise it is
rendered, and if that fails the failure names the plot and its own file for the iteration loaded last. -/
theorem draw_single (bounds : Bounds) (layout : Workloads.Layout) (levels : Quantile.Levels)
    (calls : List (Simulation × Workspace)) (g : Gallery) (sim : Simulation) (kind : Figure.Single) (w : Workspace) :
    let indices := (journey bounds layout levels calls).indices
    let p := (journey bounds layout levels calls).state
    let result := (g.draw sim (.single kind p) : Desk (Except Failure Unit)) w
    (indices = [] → result = (.error .nothingLoaded, w)) ∧
    (kind.ofChanges = true →
      (∀ i, indices = [i] → result = (.error (.noPrevious i), w)) ∧
      (∀ i, indices.getLast? = some i → p.Differing → result = (.error (.otherWorkers i), w))) ∧
    ∀ i, indices.getLast? = some i → (kind.ofChanges = true → 2 ≤ indices.length ∧ ¬ p.Differing) →
      ∃ drawing, Rendered ⟨plotName kind, g.iterationFile i (fileName kind), drawing⟩ w result := by
  intro indices p result
  have h : Settled indices p.stage := settled_journey bounds layout levels calls
  have hiteration : p.iteration? = indices.getLast? := h.iteration?
  -- a chart that is refused is all that is looked at before the drawing
  have refused {i : Nat} {failure : Failure} (hi : indices.getLast? = some i)
      (hchart : g.chart kind p i = .error failure) : result = (.error failure, w) := by
    apply draw_of_error
    rw [sheet_of_iteration (hiteration.trans hi), hchart]
    rfl
  refine ⟨?_, ?_, ?_⟩
  · intro hnil
    exact draw_of_error (sheet_of_nothing (h.eq_nil_iff.1 hnil))
  · intro hkind
    constructor
    · intro i hsingle
      have hi : indices.getLast? = some i := by
        rw [hsingle]
        rfl
      exact refused hi (((telling_chart h hkind i).single i).2 hsingle)
    · intro i hi hdiffering
      exact refused hi (((telling_chart h hkind i).others i).2 ⟨hiteration.trans hi, hdiffering⟩)
  · intro i hi hchanges
    have hprevious (hkind : kind.ofChanges = true) : p.hasPrevious = true ∧ ¬ p.Differing := by
      obtain ⟨hlength, hsame⟩ := hchanges hkind
      exact ⟨h.hasPrevious_iff.2 hlength, hsame⟩
    obtain ⟨chart, hchart⟩ := exists_chart (g := g) h (hiteration.trans hi) hprevious
    refine ⟨chart.drawing g.canvas, rendered_draw ?_⟩
    rw [sheet_of_iteration (hiteration.trans hi), hchart]
    rfl

end Plot.Gallery

end WorkloadAtlas
