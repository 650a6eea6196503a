import WorkloadAtlas.CommandLine.Reader
import WorkloadAtlas.Plot.Gallery
/-!
The command line as a whole: what is given, and what holds unless it is given.
-/

namespace WorkloadAtlas

structure CommandLine where
  resultsDir : Option Path
  count : Option Nat
  first : Nat
  config : Option Path
  outDir : Option Path
  workloadsFile : Path
  quantiles : List Float
  bins : Nat
  report : Option Path

namespace CommandLine

def ofGiven (given : Given) : CommandLine :=
  { resultsDir := given.resultsDir
    count := given.count
    first := given.first.getD 0
    config := given.config
    outDir := given.outDir
    workloadsFile := given.workloadsFile.getD Workloads.Layout.standard.file
    quantiles := if given.quantiles.isEmpty then Quantile.Levels.quartiles.toList else given.quantiles
    bins := given.bins.getD 40
    report := given.report }

/-- Reads the words of a command line. A results directory that is not given is taken from the
environment. -/
def read (words : List String) (environment : Option String) : Except Refusal CommandLine := do
  let given ← Reader.read {} words
  match given.resultsDir, environment with
  | none, some dir => return ofGiven (← given.take .resultsDir dir)
  | _, _ => return ofGiven given

/-- The directory for the plots, by default one below the results. -/
def plotDirectory (c : CommandLine) (sim : Simulation) : Path :=
  c.outDir.getD (sim.resultsDir.join ⟨"plots"⟩)

def gallery (c : CommandLine) (sim : Simulation) : Plot.Gallery :=
  { Plot.Gallery.standard (c.plotDirectory sim) with bins := c.bins }

def layout (c : CommandLine) : Workloads.Layout :=
  { Workloads.Layout.standard with file := c.workloadsFile }

def usage : String :=
  "Draws the workloads of a balancing simulation, one figure after another.\n\n"
    ++ "  --results-dir PATH       directory with the results, one directory for each iteration\n"
    ++ "  --num-iter N             number of iterations\n"
    ++ "  --iteration-0 N          first iteration [0]\n"
    ++ "  --balancing-config PATH  config that names the results and the number of iterations\n"
    ++ "  --out-dir PATH           directory for the plots [below the results]\n"
    ++ "  --workloads-file PATH    workloads below the directory of an iteration [stats/new_metrics.csv]\n"
    ++ "  --quantile LEVEL         level in percent, may be repeated [0 25 50 75 100]\n"
    ++ "  --bins N                 number of bins of a histogram [40]\n"
    ++ "  --report PATH            file for a report on all iterations\n"
    ++ "  --help                   this text\n"

def Refusal.message : Refusal → String
  | .help => usage
  | .unknownWord word => s!"error: unexpected argument {word}\n"
  | .noValue setting => s!"error: --{setting} needs a value\n"
  | .badValue setting value => s!"error: {value} is no value of --{setting}\n"
  | .unwantedValue word => s!"error: {word} takes no value\n"
  | .repeated setting => s!"error: --{setting} is given more than once\n"

end CommandLine

end WorkloadAtlas
