import WorkloadAtlas.Plot.Gallery
import WorkloadAtlas.Proofs.Loading
/-!
Where the program can overflow. Nothing that is read off the data does; the boxplots of all iterations do only over a
simulation whose end cannot be calculated.
-/

namespace WorkloadAtlas

open Number (IsWord)

namespace Failure

/-- The answer is not that a calculation has left the 64-bit numbers. -/
def InRange {α : Type} (answer : Except Failure α) : Prop :=
  ∀ failure, answer = .error failure → failure ≠ .overflow

section InRange

variable {α β : Type} {answer : Except Failure α}

theorem inRange_ok (a : α) : InRange (.ok a : Except Failure α) :=
  fun _ h => nomatch h

theorem inRange_error {failure : Failure} (h : failure ≠ .overflow) : InRange (.error failure : Except Failure α) := by
  rintro other ⟨⟩
  exact h

theorem inRange_checked {x : Option α} {a : α} (h : x = some a) : InRange (checked x) := by
  rw [h]
  exact inRange_ok a

theorem InRange.bind (h : InRange answer) {f : α → Except Failure β} (hf : ∀ a, InRange (f a)) :
    InRange (answer >>= f) := by
  cases answer with
  | error failure => exact inRange_error (h failure rfl)
  | ok a => exact hf a

theorem InRange.map (h : InRange answer) (f : α → β) : InRange (answer.map f) := by
  cases answer with
  | error failure => exact inRange_error (h failure rfl)
  | ok a => exact inRange_ok (f a)

end InRange

end Failure

open Failure (InRange inRange_ok inRange_error inRange_checked)

section Endpoints

variable {sim : Simulation}

theorem Simulation.inRange_last? (calculated : IsWord sim.stop) : InRange (Failure.checked sim.last?) :=
  inRange_checked (last?_of_isWord calculated)

theorem Simulation.inRange_iterations? (calculated : IsWord sim.stop) : InRange (Failure.checked sim.iterations?) :=
  inRange_checked (iterations?_of_isWord calculated)

theorem Simulation.inRange_isLast? (calculated : IsWord sim.stop) (i : Nat) :
    InRange (Failure.checked (sim.isLast? i)) :=
  inRange_checked (isLast?_of_isWord calculated i)

end Endpoints

theorem Sample.inRange_deltasFrom (current previous : Sample) (iteration : Nat) :
    InRange (current.deltasFrom previous iteration) := by
  unfold deltasFrom
  split
  · exact inRange_error nofun
  · split
    · exact inRange_error nofun
    · exact inRange_ok _

theorem Bounds.inRange_greatestDelta (greatest : Float) (samples : List Loaded) :
    InRange (greatestDelta greatest samples) := by
  induction samples generalizing greatest with
  | nil => exact inRange_ok _
  | cons previous rest ih =>
    cases rest with
    | nil => exact inRange_ok _
    | cons current rest => exact (Sample.inRange_deltasFrom _ _ _).bind fun deltas => ih _

theorem Bounds.inRange_ofLoaded (samples : List Loaded) : InRange (ofLoaded samples) := by
  unfold ofLoaded
  split
  · exact inRange_error nofun
  · exact (inRange_greatestDelta _ _).bind fun _ => inRange_ok _

theorem Workloads.inRange_gatherAll {sim : Simulation} (sample : Nat → Except Workloads.Error Sample)
    (calculated : IsWord sim.stop) : InRange (gatherAll sample sim) := by
  rw [gatherAll_of_isWord sample calculated]
  cases gather sample sim.count sim.first with
  | error error => exact inRange_error nofun
  | ok samples => exact inRange_ok _

namespace Progress

variable (p : Progress)

theorem inRange_now : InRange p.now := by
  unfold now
  split
  · exact inRange_ok _
  · exact inRange_error nofun

theorem inRange_current : InRange p.current :=
  p.inRange_now.map _

theorem inRange_deltas : InRange p.deltas := by
  unfold deltas
  split
  · exact inRange_error nofun
  · exact inRange_error nofun
  · exact Sample.inRange_deltasFrom _ _ _

theorem inRange_report : InRange p.report := by
  refine p.inRange_now.bind fun now => ?_
  split
  · exact ((p.inRange_deltas.map _).map some).bind fun _ => inRange_ok _
  · exact inRange_ok _

end Progress

namespace Plot.Gallery

variable (g : Gallery) {sim : Simulation}

theorem inRange_chart (kind : Figure.Single) (p : Progress) (iteration : Nat) : InRange (g.chart kind p iteration) := by
  cases kind with
  | workloads => exact p.inRange_current.bind fun _ => inRange_ok _
  | workloadQuantiles => exact (p.inRange_current.map _).bind fun _ => inRange_ok _
  | deltaWorkloads => exact (p.inRange_deltas.map _).bind fun _ => inRange_ok _
  | deltaWorkloadQuantiles => exact (p.inRange_deltas.map _).bind fun _ => inRange_ok _
  | workloadHistogram => exact p.inRange_current.bind fun _ => inRange_ok _

theorem inRange_misfit? (calculated : IsWord sim.stop) (samples : List Loaded) : InRange (misfit? sim samples) := by
  unfold misfit?
  split
  · exact inRange_ok _
  · refine (Simulation.inRange_last? calculated).bind fun last => ?_
    split
    · exact inRange_ok _
    · exact inRange_ok _

theorem inRange_sheet (calculated : IsWord sim.stop) (figure : Figure) : InRange (g.sheet sim figure) := by
  cases figure with
  | allSorted samples => exact inRange_ok _
  | allBoxplots samples =>
    refine (inRange_misfit? calculated samples).bind fun misfit => ?_
    cases misfit with
    | none => exact (Simulation.inRange_iterations? calculated).bind fun _ => inRange_ok _
    | some iteration => exact inRange_error nofun
  | single kind p => exact p.inRange_now.bind fun now => (g.inRange_chart kind p _).bind fun _ => inRange_ok _

theorem inRange_draw (calculated : IsWord sim.stop) (figure : Figure) (w : Workspace) :
    InRange ((g.draw sim figure : Desk (Except Failure Unit)) w).1 := by
  unfold draw
  cases hsheet : g.sheet sim figure with
  | error failure => exact inRange_error (g.inRange_sheet calculated figure failure hsheet)
  | ok sheet =>
    simp only [hang, bind, StateT.bind, Host.debug, Host.log, Host.write]
    cases w.files.write sheet.path (.drawing sheet.drawing) with
    | error error => exact inRange_error nofun
    | ok files => exact inRange_ok _

end Plot.Gallery

end WorkloadAtlas
