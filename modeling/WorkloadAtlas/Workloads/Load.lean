import WorkloadAtlas.Bounds
import WorkloadAtlas.Host
import WorkloadAtlas.Table
import WorkloadAtlas.Workloads.Layout
/-!
Loading the workloads of iterations. Samples list their workers in ascending order, so that samples of one
simulation can be compared worker by worker.
-/

namespace WorkloadAtlas.Workloads

/-- The first id that stands twice in a row. -/
def repeated? : List Int → Option Int
  | a :: b :: rest => if a = b then some a else repeated? (b :: rest)
  | _ => none

def ofColumns (path : Path) (layout : Layout) (workers : List Int) (values : List Float) :
    Except Error Sample :=
  let rows := (workers.zip values).mergeSort fun a b => a.1 ≤ b.1
  let workers := rows.map (·.1)
  let values := rows.map (·.2)
  if values.any fun v => !v.isFinite then .error (.badColumn path layout.valueColumn)
  else match repeated? workers with
    | some worker => .error (.repeatedWorker path worker)
    | none => (Sample.ofColumns workers values).mapError (.noSample path)

/-- One column of a table under a view; a column that has none is refused. -/
def viewColumn {α : Type} (path : Path) (table : Table) (name : String)
    (view : Table.Column → Option α) : Except Error α :=
  match table.column? name with
  | none => .error (.noColumn path name)
  | some column => match view column with
    | none => .error (.badColumn path name)
    | some cells => .ok cells

/-- The sample of a table. The id column is looked at first, and one column cannot serve as both. -/
def ofTable (path : Path) (layout : Layout) (table : Table) : Except Error Sample := do
  let workers ← viewColumn path table layout.idColumn Table.Column.toIntegers?
  let values ← viewColumn path table layout.valueColumn Table.Column.toReals?
  if layout.idColumn = layout.valueColumn then
    .error (.malformed path s!"column {Text.quoted layout.idColumn} is named twice")
  else ofColumns path layout workers values

def ofBytes (path : Path) (layout : Layout) (bytes : List UInt8) : Except Error Sample :=
  match Table.ofBytes layout.separator bytes with
  | .error error => .error (.malformed path error.message)
  | .ok table => ofTable path layout table

variable {m : Type → Type} [Monad m] [Host m]

def load (sim : Simulation) (layout : Layout) (iteration : Nat) : m (Except Error Sample) := do
  let path := layout.path sim iteration
  Host.debug .loading s!"Loading workloads from {path.text}"
  if ← Host.isFile path then
    match ← Host.read path with
    | .error error => return .error (.malformed path error.message)
    | .ok bytes => return ofBytes path layout bytes
  else return .error (.missing path)

/-- Loads `count` iterations from `first` on; the first one that cannot be loaded ends it. -/
def loadFrom (sim : Simulation) (layout : Layout) : Nat → Nat → m (Except Error (List Loaded))
  | 0, _ => return .ok []
  | count + 1, first => do
    match ← load sim layout first with
    | .error error => return .error error
    | .ok sample => return (← loadFrom sim layout count (first + 1)).map (⟨first, sample⟩ :: ·)

def loadAll (sim : Simulation) (layout : Layout) : m (Except Failure (List Loaded)) := do
  match sim.iterations? with
  | none => return .error .overflow
  | some iterations => return (← loadFrom sim layout iterations.size iterations.first).mapError .load

end WorkloadAtlas.Workloads
