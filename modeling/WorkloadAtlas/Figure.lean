import WorkloadAtlas.Progress
/-!
The figures of a run: what each one shows, and which ones an iteration has.
-/

namespace WorkloadAtlas

inductive Figure.Single
  | workloads
  | workloadQuantiles
  | deltaWorkloads
  | deltaWorkloadQuantiles
  | workloadHistogram
deriving DecidableEq, Repr

/-- A figure with the data that it may show. -/
inductive Figure
  | allSorted (samples : List Loaded)
  | allBoxplots (samples : List Loaded)
  | single (kind : Figure.Single) (state : Progress)

namespace Figure

def announcement : Figure → String
  | .allSorted _ => "Plot all sorted workloads"
  | .allBoxplots _ => "Plot all boxplots"
  | .single .workloads _ => "Plot workloads"
  | .single .workloadQuantiles _ => "Plot workload-quantiles"
  | .single .deltaWorkloads _ => "Plot delta-workloads"
  | .single .deltaWorkloadQuantiles _ => "Plot delta-workload-quantiles"
  | .single .workloadHistogram _ => "Plot workloads as histogram"

def overviews (samples : List Loaded) : List Figure :=
  [.allSorted samples, .allBoxplots samples]

/-- The kinds of figures of one iteration; changes are shown only if there is an iteration before. -/
def kinds (hasPrevious : Bool) : List Single :=
  [.workloads, .workloadQuantiles] ++ (if hasPrevious then [.deltaWorkloads, .deltaWorkloadQuantiles] else [])
    ++ [.workloadHistogram]

/-- The figures of the iteration loaded last. -/
def ofState (state : Progress) : List Figure :=
  (kinds state.hasPrevious).map (.single · state)

end Figure

end WorkloadAtlas
