import WorkloadAtlas.Failure
/-!
Changes of the workloads from one iteration to the next, worker by worker.
-/

namespace WorkloadAtlas.Sample

/-- The workloads less those of `previous`. Both samples must list the same workers; counts are compared
first. `iteration` is the iteration of the sample itself and is only reported. -/
def deltasFrom (current previous : Sample) (iteration : Nat) : Except Failure (List Float) :=
  if current.size != previous.size then
    .error (.workerCount iteration previous.size current.size)
  else if current.workers != previous.workers then .error (.otherWorkers iteration)
  else .ok (List.zipWith (· - ·) current.values previous.values)

end WorkloadAtlas.Sample
