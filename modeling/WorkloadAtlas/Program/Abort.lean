import WorkloadAtlas.Failure
import WorkloadAtlas.Simulation
/-!
Why the program as a whole comes to an early end, and how that is told with all that lies behind it.
-/

namespace WorkloadAtlas.Program

inductive Abort
  | config (path : Path) (cause : Simulation.Error)
  | noResultsDir
  | noCount
  | range (cause : Simulation.Error)
  | levels (cause : Failure)
  | plotDirectory (path : Path) (cause : Files.Error)
  | visualisation (cause : Failure)
  | reportFile (path : Path) (cause : Files.Error)
  | overflow

namespace Abort

/-- How a failed run ends the program. -/
def ofFailure : Failure → Abort
  | .overflow => .overflow
  | cause => .visualisation cause

/-- The message, and behind it one cause after another. -/
def chain : Abort → List String
  | .config path cause => s!"Loading balancing config {path.text}" :: cause.message :: cause.causes
  | .noResultsDir => ["Either `--results-dir` or `--balancing-config` is required"]
  | .noCount => ["Either `--num-iter` or `--balancing-config` is required"]
  | .range cause => cause.message :: cause.causes
  | .levels cause => cause.chain
  | .plotDirectory path cause => [s!"Creating plot directory {path.text}", cause.message]
  | .visualisation cause => "Visualising simulation" :: cause.chain
  | .reportFile path cause => [s!"Creating report file {path.text}", cause.message]
  | .overflow => [Failure.overflow.message]

/-- A cause below the message: all its lines are indented, the first one with `head`. -/
def indented (head cause : String) : String :=
  let blank := String.ofList (List.replicate head.length ' ')
  "\n" ++ head ++ ("\n" ++ blank).intercalate (cause.splitOn "\n")

/-- The causes; a single one has no number. -/
def causeTexts : List String → String
  | [] => ""
  | [cause] => "\n\nCaused by:" ++ indented "    " cause
  | causes => "\n\nCaused by:" ++ String.join (causes.mapIdx fun i cause =>
      indented ((String.ofList (List.replicate (5 - (toString i).length) ' ')) ++ s!"{i}: ") cause)

/-- The text for the error stream; an overflow is not handed up as an error. -/
def text (abort : Abort) : String :=
  match abort, abort.chain with
  | _, [] => ""
  | .overflow, message :: _ => message ++ "\n"
  | _, message :: causes => "Error: " ++ message ++ causeTexts causes ++ "\n"

end Abort

end WorkloadAtlas.Program
