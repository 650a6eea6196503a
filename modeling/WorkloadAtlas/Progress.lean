import WorkloadAtlas.Report
import WorkloadAtlas.Workloads.Load
/-!
The way through the iterations of a simulation, one at a time. The workloads of the iteration loaded last are
kept, and those of the one loaded before it.
-/

namespace WorkloadAtlas

inductive Stage
  | start
  | first (now : Loaded)
  | later (before : Sample) (now : Loaded)

/-- A stage together with what stays the same on the way. -/
structure Progress where
  bounds : Bounds
  layout : Workloads.Layout
  levels : Quantile.Levels
  stage : Stage

namespace Progress

def start (bounds : Bounds) (layout : Workloads.Layout) (levels : Quantile.Levels) : Progress :=
  ⟨bounds, layout, levels, .start⟩

/-- The iteration loaded last and its workloads. -/
def now? (p : Progress) : Option Loaded :=
  match p.stage with
  | .start => none
  | .first now | .later _ now => some now

/-- The workloads of the iteration loaded before the last one. -/
def previous? (p : Progress) : Option Sample :=
  match p.stage with
  | .later before _ => some before
  | _ => none

def iteration? (p : Progress) : Option Nat :=
  p.now?.map (·.iteration)

def hasPrevious (p : Progress) : Bool :=
  p.previous?.isSome

/-- The iteration to load next: the first one of the simulation, or else the one after the last loaded. -/
def next (p : Progress) (sim : Simulation) : Except Failure Nat :=
  match p.iteration? with
  | none => .ok sim.first
  | some iteration => do
    if ← Failure.checked (sim.isLast? iteration) then throw (.exhausted sim.count)
    Failure.checked (Number.sum? iteration 1)

/-- Takes up the workloads of an iteration, which must be as many as those loaded last. -/
def receive (p : Progress) (loaded : Loaded) : Except Failure Progress :=
  match p.now? with
  | none => .ok { p with stage := .first loaded }
  | some now =>
    if now.sample.size = loaded.sample.size then .ok { p with stage := .later now.sample loaded }
    else .error (.workerCount loaded.iteration now.sample.size loaded.sample.size)

/-- Loads the next iteration and answers with it. After a failure the state is the one before. -/
def advance {m : Type → Type} [Monad m] [Host m] (p : Progress) (sim : Simulation) :
    m (Except Failure Nat × Progress) := do
  match p.next sim with
  | .error failure => return (.error failure, p)
  | .ok iteration =>
    match ← Workloads.load sim p.layout iteration with
    | .error error => return (.error (.load error), p)
    | .ok sample => match p.receive ⟨iteration, sample⟩ with
      | .error failure => return (.error failure, p)
      | .ok p => return (.ok iteration, p)

/-- The iteration loaded last, which must be there. -/
def now (p : Progress) : Except Failure Loaded :=
  match p.now? with
  | some now => .ok now
  | none => .error .nothingLoaded

/-- The workloads of the iteration loaded last. -/
def current (p : Progress) : Except Failure Sample :=
  p.now.map (·.sample)

def deltas (p : Progress) : Except Failure (List Float) :=
  match p.stage with
  | .start => .error .nothingLoaded
  | .first now => .error (.noPrevious now.iteration)
  | .later before now => now.sample.deltasFrom before now.iteration

def sortedWorkloads (p : Progress) : Except Failure (List Float) :=
  p.current.map Sample.sorted

def sortedDeltas (p : Progress) : Except Failure (List Float) :=
  p.deltas.map Number.ascending

def workloadQuantiles (p : Progress) : Except Failure (List Quantile) :=
  p.current.map fun sample => Quantile.ofValues sample.values p.levels

def deltaQuantiles (p : Progress) : Except Failure (List Quantile) :=
  p.deltas.map fun deltas => Quantile.ofValues deltas p.levels

/-- The report on the iteration loaded last. -/
def report (p : Progress) : Except Failure Report := do
  let now ← p.now
  let deltaQuantiles ← if p.hasPrevious then p.deltaQuantiles.map some else pure none
  return { iteration := now.iteration
           workers := now.sample.size
           workloads := now.sample.stats
           quantiles := Quantile.ofValues now.sample.values p.levels
           deltaQuantiles }

end Progress

end WorkloadAtlas
