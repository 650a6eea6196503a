import WorkloadAtlas.Number.Numeral
import WorkloadAtlas.Path
/-!
The settings of the command line, and how the text of each one is read.
-/

namespace WorkloadAtlas.CommandLine

inductive Refusal
  | help
  | unknownWord (word : String)
  | noValue (setting : String)
  | badValue (setting value : String)
  | unwantedValue (word : String)
  | repeated (setting : String)
deriving DecidableEq, Repr

inductive Setting
  | resultsDir
  | count
  | first
  | config
  | outDir
  | workloadsFile
  | quantile
  | bins
  | report
deriving DecidableEq, Repr

namespace Setting

def name : Setting → String
  | .resultsDir => "results-dir"
  | .count => "num-iter"
  | .first => "iteration-0"
  | .config => "balancing-config"
  | .outDir => "out-dir"
  | .workloadsFile => "workloads-file"
  | .quantile => "quantile"
  | .bins => "bins"
  | .report => "report"

def all : List Setting :=
  [.resultsDir, .count, .first, .config, .outDir, .workloadsFile, .quantile, .bins, .report]

/-- The setting of a name, which must be written in full. -/
def ofName? (name : String) : Option Setting :=
  all.find? (·.name == name)

end Setting

/-- The settings given so far. Only the quantiles can be given more than once. -/
structure Given where
  resultsDir : Option Path := none
  count : Option Nat := none
  first : Option Nat := none
  config : Option Path := none
  outDir : Option Path := none
  workloadsFile : Option Path := none
  quantiles : List Float := []
  bins : Option Nat := none
  report : Option Path := none

namespace Given

/-- A path, which must not be empty. -/
def path (setting : Setting) (value : String) : Except Refusal Path :=
  if value.isEmpty then .error (.noValue setting.name) else .ok ⟨value⟩

def parsed {α : Type} (setting : Setting) (value : String) (read? : List Char → Option α) :
    Except Refusal α :=
  match read? value.toList with
  | some x => .ok x
  | none => .error (.badValue setting.name value)

/-- A number of bins, at least one and of at most 32 bits. -/
def bins? (text : List Char) : Option Nat := do
  let n ← Number.signed? text
  if 1 ≤ n ∧ Number.IsHalfWord n.toNat then some n.toNat else none

/-- The value of a setting that is not given yet. -/
def once {α : Type} (setting : Setting) (given : Option α) (value : Except Refusal α) :
    Except Refusal (Option α) :=
  match given with
  | some _ => .error (.repeated setting.name)
  | none => value.map some

/-- Takes up the value of a setting. A setting that is given already is refused before its value is read. -/
def take (g : Given) (setting : Setting) (value : String) : Except Refusal Given := do
  match setting with
  | .resultsDir => return { g with resultsDir := ← once setting g.resultsDir (path setting value) }
  | .count => return { g with count := ← once setting g.count (parsed setting value Number.word?) }
  | .first => return { g with first := ← once setting g.first (parsed setting value Number.word?) }
  | .config => return { g with config := ← once setting g.config (path setting value) }
  | .outDir => return { g with outDir := ← once setting g.outDir (path setting value) }
  | .workloadsFile =>
    return { g with workloadsFile := ← once setting g.workloadsFile (path setting value) }
  | .quantile =>
    let level ← parsed setting value Number.real?
    return { g with quantiles := g.quantiles ++ [level] }
  | .bins => return { g with bins := ← once setting g.bins (parsed setting value bins?) }
  | .report => return { g with report := ← once setting g.report (path setting value) }

end Given

end WorkloadAtlas.CommandLine
