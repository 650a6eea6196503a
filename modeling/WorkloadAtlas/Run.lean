import WorkloadAtlas.Figure
/-!
A run: all figures of a simulation are drawn, first those of all iterations together and then iteration by
iteration, and each iteration is reported on. The first failure ends the run.
-/

namespace WorkloadAtlas

abbrev Visualiser (m : Type → Type) := Simulation → Figure → m (Except Failure Unit)

namespace Run

def plain (x : Float) : String :=
  Number.Layout.plain.text x

def describe (b : Bounds) : String :=
  let text := Number.Layout.dump.text
  "Global data: GlobalData \x7b min_workload: " ++ text b.minWorkload ++ ", max_workload: "
    ++ text b.maxWorkload ++ ", max_abs_delta: " ++ text b.maxAbsDelta ++ " \x7d"

variable {m : Type → Type} [Monad m] [Host m]

def drawAll (draw : Visualiser m) (sim : Simulation) : List Figure → ExceptT Failure m Unit
  | [] => pure ()
  | figure :: rest => do
    Host.info (m := m) figure.announcement
    ExceptT.mk (draw sim figure)
    drawAll draw sim rest

/-- Logs the iteration loaded last. -/
def logLoaded (iterations : Simulation.Span) (now : Loaded) : m Unit := do
  let stats := now.sample.stats
  Host.info s!"Prepared iteration {now.iteration} of {iterations.first}..={iterations.last}"
  Host.info s!"mean={plain stats.mean}"
  Host.info s!" std={plain stats.std}"
  Host.info s!" min={plain stats.min}"
  Host.info s!" max={plain stats.max}"

/-- One pass of the loop over the iterations: the next one is loaded, its figures are drawn, and its report is
put behind the others. The last iteration of the simulation ends the loop. -/
def pass (draw : Visualiser m) (sim : Simulation) (state : Progress) (reports : List Report) :
    ExceptT Failure m (Progress × List Report ⊕ List Report) := do
  let (outcome, state) ← state.advance (m := m) sim
  let iteration ← ExceptT.mk (pure (f := m) outcome)
  let iterations ← ExceptT.mk (pure (f := m) (Failure.checked sim.iterations?))
  let now ← ExceptT.mk (pure (f := m) state.now)
  logLoaded (m := m) iterations now
  drawAll draw sim (Figure.ofState state)
  let report ← ExceptT.mk (pure (f := m) state.report)
  let reports := reports ++ [report]
  let last ← ExceptT.mk (pure (f := m) (Failure.checked (sim.isLast? iteration)))
  return if last then .inr reports else .inl (state, reports)

/-- Passes until the last iteration is reported on; a failure ends the loop before. -/
def iterate (draw : Visualiser m) (sim : Simulation) (start : Progress) : ExceptT Failure m (List Report) :=
  repeatM (fun (state, reports) => pass draw sim state reports) (start, [])

/-- Loads all iterations and draws the figures that show them together. -/
def overview (draw : Visualiser m) (sim : Simulation) (layout : Workloads.Layout) :
    ExceptT Failure m Bounds := do
  Host.info (m := m) "Get global data, e.g. maximum workload"
  let samples ← ExceptT.mk (Workloads.loadAll (m := m) sim layout)
  let bounds ← ExceptT.mk (pure (f := m) (Bounds.ofLoaded samples))
  Host.debug (m := m) .program (describe bounds)
  drawAll draw sim (Figure.overviews samples)
  return bounds

end Run

/-- Draws all figures of a simulation and reports on each of its iterations. -/
def run {m : Type → Type} [Monad m] [Host m] (draw : Visualiser m) (sim : Simulation)
    (layout : Workloads.Layout) (levels : Quantile.Levels) : m (Except Failure (List Report)) :=
  ExceptT.run do
    let bounds ← Run.overview draw sim layout
    let reports ← Run.iterate draw sim (.start bounds layout levels)
    Host.info (m := m) s!"Finished {reports.length} iterations"
    return reports

end WorkloadAtlas
