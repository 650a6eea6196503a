import WorkloadAtlas.Simulation
/-!
Where the workloads of an iteration lie and how the table that holds them is laid out.
-/

namespace WorkloadAtlas.Workloads

structure Layout where
  /-- The table's path, seen from the directory of the iteration. -/
  file : Path
  idColumn : String
  valueColumn : String
  separator : UInt8
deriving DecidableEq

/-- The layout that the balancer writes: fields are separated by a blank. -/
def Layout.standard : Layout :=
  ⟨⟨"stats/new_metrics.csv"⟩, "edge-id", "new_metric", 0x20⟩

def Layout.path (layout : Layout) (sim : Simulation) (iteration : Nat) : Path :=
  (sim.iterationDir iteration).join layout.file

end WorkloadAtlas.Workloads
