import WorkloadAtlas.Path
import WorkloadAtlas.Sample
import WorkloadAtlas.Text.Quoted
/-!
Why the workloads of an iteration could not be loaded.
-/

namespace WorkloadAtlas.Workloads

/-- Each cause names the file. -/
inductive Error
  | missing (path : Path)
  | malformed (path : Path) (detail : String)
  | noColumn (path : Path) (column : String)
  | badColumn (path : Path) (column : String)
  | repeatedWorker (path : Path) (worker : Int)
  | noSample (path : Path) (cause : Sample.Error)

namespace Error

def message : Error → String
  | .missing path => s!"Workload file {path.text} does not exist"
  | .malformed path detail => s!"Could not parse workload file {path.text}: {detail}"
  | .noColumn path column => s!"Workload file {path.text} has no column {Text.quoted column}"
  | .badColumn path column =>
    s!"Column {Text.quoted column} in {path.text} holds empty or non-numeric values"
  | .repeatedWorker path worker => s!"Worker {worker} is listed more than once in {path.text}"
  | .noSample path cause => s!"Invalid workloads in {path.text}: {cause.message}"

/-- What lies behind the error, told on its own. -/
def causes : Error → List String
  | .malformed _ detail => [detail]
  | .noSample _ cause => [cause.message]
  | _ => []

end Error

end WorkloadAtlas.Workloads
