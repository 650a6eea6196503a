import WorkloadAtlas.Workloads.Error
/-!
Everything that stops a run.
-/

namespace WorkloadAtlas

/-- Why a run, or one of its steps, could not be finished. -/
inductive Failure
  | load (error : Workloads.Error)
  | noPrevious (iteration : Nat)
  | nothingLoaded
  | render (plot : String) (path : Path) (cause : String)
  | workerCount (iteration expected actual : Nat)
  | otherWorkers (iteration : Nat)
  | exhausted (count : Nat)
  | levelOutOfRange (level : Float)
  /-- A calculation left the 64-bit numbers. It is not handed up as an error but ends the program on the spot. -/
  | overflow

namespace Failure

def message : Failure → String
  | .load error => error.message
  | .noPrevious iteration =>
    s!"Deltas need a previous iteration, but iteration {iteration} is the first one loaded"
  | .nothingLoaded => "No iteration has been loaded yet"
  | .render plot path cause => s!"Failed to render plot {plot} to {path.text}: {cause}"
  | .workerCount iteration expected actual =>
    s!"Iteration {iteration} has {actual} workers, but the iteration before has {expected}"
  | .otherWorkers iteration => s!"Iteration {iteration} lists other workers than the iteration before"
  | .exhausted count => s!"All {count} configured iterations have been loaded already"
  | .levelOutOfRange level => s!"Quantile level {Number.Layout.plain.text level} is not within [0, 100]"
  | .overflow => "attempt to add with overflow"

/-- The message followed by what lies behind it. -/
def chain (failure : Failure) : List String :=
  failure.message :: match failure with
    | .load error => error.causes
    | .render _ _ cause => [cause]
    | _ => []

/-- What a checked calculation comes to. -/
def checked {α : Type} : Option α → Except Failure α
  | some x => .ok x
  | none => .error .overflow

end Failure

end WorkloadAtlas
