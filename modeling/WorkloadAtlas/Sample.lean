import WorkloadAtlas.Number.Decimal
import WorkloadAtlas.Number.Order
import WorkloadAtlas.Stats
/-!
The workloads of one iteration, one finite value for each worker. A value of the type is never empty, and its
workers and workloads line up one by one.
-/

namespace WorkloadAtlas

/-- Workloads by worker: the `k`-th value belongs to the `k`-th id. -/
structure Sample where
  workers : List Int
  values : List Float
  lengths_eq : workers.length = values.length
  finite : ∀ v ∈ values, v.isFinite = true
  nonempty : values ≠ []

namespace Sample

/-- Why ids and values make no sample. -/
inductive Error
  | empty
  | nonFinite (value : Float)
  | lengthMismatch (workers values : Nat)

def Error.message : Error → String
  | .empty => "Sample holds no workloads"
  | .nonFinite value => s!"Workload {Number.Layout.plain.text value} is not a finite number"
  | .lengthMismatch workers values => s!"Got {workers} worker ids for {values} workloads"

/-- Lengths are compared first, then the first value that is not finite is reported, then emptiness. -/
def ofColumns (workers : List Int) (values : List Float) : Except Error Sample :=
  if hl : workers.length = values.length then
    match hf : values.find? (fun v => !v.isFinite) with
    | some v => .error (.nonFinite v)
    | none =>
      if hn : values = [] then .error .empty
      else .ok ⟨workers, values, hl, by simpa using hf, hn⟩
  else .error (.lengthMismatch workers.length values.length)

def ofValues (values : List Float) : Except Error Sample :=
  ofColumns ((List.range values.length).map Int.ofNat) values

def size (s : Sample) : Nat :=
  s.values.length

def isEmpty (s : Sample) : Bool :=
  s.values.isEmpty

/-- The statistics are those of the values, in their order. -/
def stats (s : Sample) : Stats :=
  Stats.ofValues (s.values.head s.nonempty) s.values.tail

def sorted (s : Sample) : List Float :=
  Number.ascending s.values

end Sample

end WorkloadAtlas
