import WorkloadAtlas.Quantile
/-!
Reports on single iterations, and how a list of them is written as JSON.
-/

namespace WorkloadAtlas

/-- The statistics of one iteration. The first iteration of a run has no quantiles of changes. -/
structure Report where
  iteration : Nat
  workers : Nat
  workloads : Stats
  quantiles : List Quantile
  deltaQuantiles : Option (List Quantile)

inductive Json
  | null
  | count (n : Nat)
  | real (x : Float)
  | list (items : List Json)
  | object (fields : List (String × Json))

namespace Json

def newLine (depth : Nat) : String :=
  "\n" ++ String.ofList (List.replicate (2 * depth) ' ')

/-- Items between brackets, each on a line of its own; no items take no line. -/
def enclose (opening closing : String) (depth : Nat) (items : List String) : String :=
  if items.isEmpty then opening ++ closing
  else opening ++ newLine (depth + 1) ++ ("," ++ newLine (depth + 1)).intercalate items ++ newLine depth ++ closing

mutual

/-- The text of a value that stands at a depth. JSON has no numbers for what is not finite. -/
def text (depth : Nat) : Json → String
  | .null => "null"
  | .count n => toString n
  | .real x => if x.isFinite then Number.Layout.report.text x else "null"
  | .list items => enclose "[" "]" depth (texts (depth + 1) items)
  | .object fields => enclose "\x7b" "\x7d" depth (fieldTexts (depth + 1) fields)

def texts (depth : Nat) : List Json → List String
  | [] => []
  | item :: rest => text depth item :: texts depth rest

def fieldTexts (depth : Nat) : List (String × Json) → List String
  | [] => []
  | (key, value) :: rest => ("\"" ++ key ++ "\": " ++ text depth value) :: fieldTexts depth rest

end

end Json

namespace Report

def statsJson (s : Stats) : Json :=
  .object [("mean", .real s.mean), ("std", .real s.std), ("min", .real s.min), ("max", .real s.max)]

def quantilesJson (quantiles : List Quantile) : Json :=
  .list (quantiles.map fun q => .object [("level", .real q.level), ("value", .real q.value)])

def toJson (r : Report) : Json :=
  .object [("iteration", .count r.iteration), ("workers", .count r.workers), ("workloads", statsJson r.workloads),
    ("quantiles", quantilesJson r.quantiles),
    ("delta_quantiles", match r.deltaQuantiles with | some quantiles => quantilesJson quantiles | none => .null)]

def document (reports : List Report) : String :=
  (Json.list (reports.map toJson)).text 0

end Report

end WorkloadAtlas
