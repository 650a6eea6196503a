/-!
Lines of the log.
-/

namespace WorkloadAtlas.Log

/-- How much a line matters, from most to least. -/
inductive Level
  | error
  | warn
  | info
  | debug
  | trace
deriving DecidableEq, Repr

namespace Level

def severity : Level → Nat
  | .error => 0
  | .warn => 1
  | .info => 2
  | .debug => 3
  | .trace => 4

/-- The name that a level goes by in any case. -/
def ofName? (name : String) : Option Level :=
  match String.ofList (name.toList.map Char.toLower) with
  | "error" => some .error
  | "warn" => some .warn
  | "info" => some .info
  | "debug" => some .debug
  | "trace" => some .trace
  | _ => none

/-- The name in five columns. -/
def label : Level → String
  | .error => "ERROR"
  | .warn => "WARN "
  | .info => "INFO "
  | .debug => "DEBUG"
  | .trace => "TRACE"

/-- Whether lines of a level are shown when only lines down to `threshold` are. -/
def shownAt (level threshold : Level) : Bool :=
  level.severity ≤ threshold.severity

end Level

inductive Source
  | program
  | loading
  | rendering
  | description
deriving DecidableEq, Repr

def Source.label : Source → String
  | .program => "balancer_visualiser"
  | .loading => "balancer_visualiser::frame"
  | .rendering => "balancer_visualiser::plotting::machine"
  | .description => "balancer_simulation_model"

structure Entry where
  level : Level
  source : Source
  message : String
deriving DecidableEq, Repr

def Entry.line (e : Entry) : String :=
  s!"{e.level.label} {e.source.label}] {e.message}"

def Entry.shownAt (e : Entry) (threshold : Level) : Bool :=
  e.level.shownAt threshold

end WorkloadAtlas.Log
