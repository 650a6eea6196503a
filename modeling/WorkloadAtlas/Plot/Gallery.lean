import WorkloadAtlas.Plot.Boxplot
import WorkloadAtlas.Plot.Chart
import WorkloadAtlas.Plot.Svg
import WorkloadAtlas.Run
/-!
A directory of drawings, one file for each figure of a run. What a figure needs of the data is read before
anything is written.
-/

namespace WorkloadAtlas.Plot

/-- Where drawings are put, how large they are, and how many bins a histogram has. -/
structure Gallery where
  directory : Path
  canvas : Canvas
  bins : Nat

structure Sheet where
  plot : String
  path : Path
  drawing : Drawing

namespace Gallery

/-- The size of a drawing and the number of bins unless others are asked for. -/
def standard (directory : Path) : Gallery :=
  ⟨directory, ⟨1200, 700⟩, 40⟩

def overviewFile (g : Gallery) (name : String) : Path :=
  g.directory.join ⟨name ++ ".svg"⟩

def iterationFile (g : Gallery) (iteration : Nat) (name : String) : Path :=
  g.directory.join ⟨s!"{iteration}_{name}.svg"⟩

def overviewAxis (samples : List Loaded) : Interval :=
  .padded (Bounds.leastWorkload samples) (Bounds.greatestWorkload samples)

def workloadAxis (b : Bounds) : Interval :=
  .padded b.minWorkload b.maxWorkload

/-- The axis of changes that all iterations share, with zero in its middle. -/
def deltaAxis (b : Bounds) : Interval :=
  .padded (-b.maxAbsDelta) b.maxAbsDelta

def sortedSheet (g : Gallery) (samples : List Loaded) : Sheet :=
  let series := samples.map fun s => (s!"iteration {s.iteration}", s.sample.sorted)
  { plot := "all sorted workloads"
    path := g.overviewFile "all_sorted_workloads"
    drawing := (Chart.series "Sorted workloads of all iterations" "workload" series
      (overviewAxis samples)).drawing g.canvas }

/-- The iteration that an axis of boxplots cannot show, since its keys have 32 bits, if there is one: of the
simulation the first or the last, after which there must be room for one more, or else of the samples. -/
def misfit? (sim : Simulation) (samples : List Loaded) : Except Failure (Option Nat) := do
  if ¬ Number.IsHalfWord sim.first then return some sim.first
  let last ← Failure.checked sim.last?
  if ¬ Number.IsHalfWord (last + 1) then return some last
  return (samples.map (·.iteration)).find? fun iteration => ¬ Number.IsHalfWord iteration

/-- The boxplots of samples, each over its iteration. -/
def boxplots (iterations : Simulation.Span) (samples : List Loaded) : Boxplot where
  caption := "Workloads per iteration"
  yLabel := "workload"
  xLabel := "iteration"
  x := ⟨iterations.first, iterations.last⟩
  y := overviewAxis samples
  boxes := samples.map fun s => (s.iteration, Box.ofValues s.sample.values)

def boxplotSheet (g : Gallery) (sim : Simulation) (samples : List Loaded) : Except Failure Sheet := do
  let plot := "all boxplot workloads"
  let path := g.overviewFile "all_boxplot_workloads"
  match ← misfit? sim samples with
  | some iteration => .error (.render plot path s!"iteration {iteration} does not fit on the boxplot axis")
  | none =>
    let iterations ← Failure.checked sim.iterations?
    return ⟨plot, path, (boxplots iterations samples).drawing g.canvas⟩

def plotName : Figure.Single → String
  | .workloads => "workloads"
  | .workloadQuantiles => "workload quantiles"
  | .deltaWorkloads => "delta workloads"
  | .deltaWorkloadQuantiles => "delta workload quantiles"
  | .workloadHistogram => "workload histogram"

/-- The name of each plot of one iteration within the name of its file. -/
def fileName : Figure.Single → String
  | .workloads => "workloads"
  | .workloadQuantiles => "workload_quantiles"
  | .deltaWorkloads => "delta_workloads"
  | .deltaWorkloadQuantiles => "delta_workload_quantiles"
  | .workloadHistogram => "workload_histogram"

/-- The chart of the iteration loaded last. -/
def chart (g : Gallery) (kind : Figure.Single) (state : Progress) (iteration : Nat) :
    Except Failure Chart := do
  match kind with
  | .workloads =>
    let sample ← state.current
    return .sorted s!"Iteration {iteration}: sorted workloads" "workload" sample.sorted
      (workloadAxis state.bounds) (some sample.stats.mean)
  | .workloadQuantiles =>
    return .quantiles s!"Iteration {iteration}: workload quantiles" "workload" (← state.workloadQuantiles)
      (workloadAxis state.bounds)
  | .deltaWorkloads =>
    return .sorted s!"Iteration {iteration}: sorted workload deltas" "workload delta" (← state.sortedDeltas)
      (deltaAxis state.bounds) none
  | .deltaWorkloadQuantiles =>
    return .quantiles s!"Iteration {iteration}: workload delta quantiles" "workload delta"
      (← state.deltaQuantiles) (deltaAxis state.bounds)
  | .workloadHistogram =>
    return .histogram s!"Iteration {iteration}: workload histogram" (← state.current).values
      (workloadAxis state.bounds) g.bins

def sheet (g : Gallery) (sim : Simulation) : Figure → Except Failure Sheet
  | .allSorted samples => .ok (g.sortedSheet samples)
  | .allBoxplots samples => g.boxplotSheet sim samples
  | .single kind state => do
    let now ← state.now
    let chart ← g.chart kind state now.iteration
    return { plot := plotName kind
             path := g.iterationFile now.iteration (fileName kind)
             drawing := chart.drawing g.canvas }

variable {m : Type → Type} [Monad m] [Host m]

def hang (sheet : Sheet) : m (Except Failure Unit) := do
  Host.debug .rendering s!"Rendering {sheet.plot} to {sheet.path.text}"
  match ← Host.write sheet.path (.drawing sheet.drawing) with
  | .ok () => return .ok ()
  | .error error =>
    return .error (.render sheet.plot sheet.path s!"backend error: Drawing backend error: {error.message}")

def draw (g : Gallery) : Visualiser m := fun sim figure =>
  match g.sheet sim figure with
  | .error failure => pure (.error failure)
  | .ok sheet => hang sheet

def make (g : Gallery) : m (Except Files.Error Unit) :=
  Host.makeDirectories g.directory

end Gallery

end WorkloadAtlas.Plot
