import WorkloadAtlas.CommandLine
import WorkloadAtlas.Program.Abort
import WorkloadAtlas.Simulation.Config
/-!
The program from the words of its command line to its end. The report is written last, after all plots.
-/

namespace WorkloadAtlas

/-- The simulation of a command line: what is given itself comes before what the balancing config says. -/
def CommandLine.resolve (c : CommandLine) (described : Option Simulation) :
    Except Program.Abort Simulation := do
  let some dir := c.resultsDir.or (described.map (·.resultsDir)) | throw .noResultsDir
  let some count := c.count.or (described.map (·.count)) | throw .noCount
  (Simulation.ofRange dir count c.first).mapError .range

namespace Program

inductive Outcome
  | done
  | refused (refusal : CommandLine.Refusal)
  | aborted (abort : Abort)

/-- The number that the program leaves to its caller. A call for help is no fault, and an overflow is none that the
program knows of. -/
def Outcome.exitCode : Outcome → UInt32
  | .done | .refused .help => 0
  | .aborted .overflow => 101
  | .aborted _ => 1
  | .refused _ => 2

variable {m : Type → Type} [Monad m] [Host m]

/-- The simulation that the balancing config describes, if one is named. It must be sound even if nothing of
it is used. -/
def described (c : CommandLine) : ExceptT Abort m (Option Simulation) :=
  match c.config with
  | none => pure none
  | some path => ExceptT.mk do
    return ((← Simulation.readConfig path c.first).mapError (.config path)).map some

/-- Writes the report, if one is wanted. -/
def writeReport (c : CommandLine) (reports : List Report) : ExceptT Abort m Unit :=
  match c.report with
  | none => pure ()
  | some path => do
    ExceptT.mk (Except.mapError (.reportFile path) <$> Host.write (m := m) path (.text (Report.document reports)))
    Host.info (m := m) s!"Wrote report to {path.text}"

/-- Tells which iterations are visualised. They are only calculated if the line is shown. -/
def announce (threshold : Log.Level) (sim : Simulation) : ExceptT Abort m Unit :=
  if Log.Level.info.shownAt threshold then do
    let iterations ← ExceptT.mk (pure (f := m) ((Failure.checked sim.iterations?).mapError .ofFailure))
    Host.info (m := m)
      s!"Visualising iterations {iterations.first}..={iterations.last} from {sim.resultsDir.text}"
  else pure ()

def carryOut (threshold : Log.Level) (c : CommandLine) : ExceptT Abort m Unit := do
  Host.info (m := m) "balancer_visualiser 0.1.0"
  let described ← described (m := m) c
  let sim ← ExceptT.mk (pure (f := m) (c.resolve described))
  announce threshold sim
  let levels ← ExceptT.mk (pure (f := m) ((Quantile.Levels.ofList c.quantiles).mapError .levels))
  let gallery := c.gallery sim
  ExceptT.mk (Except.mapError (.plotDirectory gallery.directory) <$> gallery.make (m := m))
  let reports ← ExceptT.mk (Except.mapError .ofFailure <$> run (m := m) gallery.draw sim c.layout levels)
  writeReport c reports
  Host.info (m := m) s!"Plots written to {gallery.directory.text}"

/-- Runs the program, with lines down to `threshold` shown in the log. -/
def start (threshold : Log.Level) (words : List String) (environment : Option String) : m Outcome := do
  match CommandLine.read words environment with
  | .error refusal => return .refused refusal
  | .ok c => match ← (carryOut (m := m) threshold c).run with
    | .error abort => return .aborted abort
    | .ok () => return .done

end Program

end WorkloadAtlas
