import WorkloadAtlas.Delta
/-!
Bounds over all iterations of a simulation. Plots of single iterations share them, so that their axes can be
compared.
-/

namespace WorkloadAtlas

structure Loaded where
  iteration : Nat
  sample : Sample

/-- The least and the greatest workload, and the greatest change of one worker between two iterations. -/
structure Bounds where
  minWorkload : Float
  maxWorkload : Float
  maxAbsDelta : Float

namespace Bounds

/-- The least workload of all samples; infinite if there are none. -/
def leastWorkload (samples : List Loaded) : Float :=
  samples.foldl (fun least s => Stats.lesser least s.sample.stats.min) (Float.ofBits 0x7FF0000000000000)

/-- The greatest workload of all samples; infinite below zero if there are none. -/
def greatestWorkload (samples : List Loaded) : Float :=
  samples.foldl (fun greatest s => Stats.greater greatest s.sample.stats.max)
    (Float.ofBits 0xFFF0000000000000)

/-- The greatest absolute change along the list, starting from `greatest`. The first pair of neighbours that
lists different workers is reported. -/
def greatestDelta (greatest : Float) : List Loaded → Except Failure Float
  | previous :: current :: rest => do
    let deltas ← current.sample.deltasFrom previous.sample current.iteration
    greatestDelta (deltas.foldl (fun greatest d => Stats.greater greatest d.abs) greatest) (current :: rest)
  | _ => .ok greatest

/-- At least one sample is needed. -/
def ofLoaded (samples : List Loaded) : Except Failure Bounds :=
  if samples.isEmpty then .error .nothingLoaded
  else do
    let maxAbsDelta ← greatestDelta 0.0 samples
    return ⟨leastWorkload samples, greatestWorkload samples, maxAbsDelta⟩

end Bounds

end WorkloadAtlas
