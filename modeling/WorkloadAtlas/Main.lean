import WorkloadAtlas.Program
/-!
The command line on the machine that runs it: files of the system, and lines of the log on the error stream.
-/

namespace WorkloadAtlas.Machine

def cause : IO.Error → Files.Error
  | .noFileOrDirectory .. => .notFound
  | .alreadyExists .. => .alreadyExists
  | .inappropriateType _ 20 _ => .notDirectory
  | .inappropriateType _ 21 _ => .isDirectory
  | error => .other (toString error)

def attempt {α : Type} (action : IO α) : IO (Except Files.Error α) := do
  match ← action.toBaseIO with
  | .ok x => return .ok x
  | .error error => return .error (cause error)

def isFile (path : Path) : IO Bool := do
  match ← (do (← IO.FS.realPath path.text).metadata : IO IO.FS.Metadata).toBaseIO with
  | .ok found => return found.type == .file
  | .error _ => return false

/-- Makes a directory, and those above it only if they are missing. -/
def makeDirectories (path : Path) : IO Unit := do
  match ← (IO.FS.createDir path.text).toBaseIO with
  | .ok () => return
  | .error (.inappropriateType file code details) => throw (.inappropriateType file code details)
  | .error _ => IO.FS.createDirAll path.text

/-- Shows a line of the log if it matters enough. -/
def printLine (threshold : Log.Level) (entry : Log.Entry) : IO Unit := do
  if entry.shownAt threshold then IO.eprintln ("[" ++ entry.line)

/-- The machine with the level down to which lines are shown. -/
abbrev Session := ReaderT Log.Level IO

instance : Host Session where
  isFile path := isFile path
  read path := attempt do return (← IO.FS.readBinFile path.text).toList
  write path content := attempt (IO.FS.writeBinFile path.text ⟨content.toBytes.toArray⟩)
  makeDirectories path := attempt (makeDirectories path)
  log entry := do printLine (← read) entry

end WorkloadAtlas.Machine

open WorkloadAtlas in
/-- Runs the program. Its environment names the level of the log, and perhaps the directory with the results. -/
def main (words : List String) : IO UInt32 := do
  let threshold := ((← IO.getEnv "RUST_LOG").bind Log.Level.ofName?).getD .error
  let environment ← IO.getEnv "BALANCER_RESULTS_DIR"
  let outcome ← (Program.start threshold words environment : Machine.Session _).run threshold
  match outcome with
  | .done => pure ()
  | .refused .help => IO.print CommandLine.usage
  | .refused refusal => IO.eprint refusal.message
  | .aborted abort => IO.eprint abort.text
  return outcome.exitCode
