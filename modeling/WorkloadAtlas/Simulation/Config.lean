import WorkloadAtlas.Host
import WorkloadAtlas.Number.Numeral
import WorkloadAtlas.Simulation
import WorkloadAtlas.Yaml
/-!
Simulations described by the balancing config that they were run with. Only the results directory and the
number of iterations are read; other keys may stand beside them.
-/

namespace WorkloadAtlas.Simulation.Config

/-- Why a document is no balancing config. -/
inductive Fault
  | noMapping (of : String)
  | noKey
  | repeated (key : String)
  | missing (key : String)
  | noText (key : String)
  | noNumber (key : String)
deriving DecidableEq, Repr

def Fault.message : Fault → String
  | .noMapping of => s!"{of} is no mapping"
  | .noKey => "a key is no scalar"
  | .repeated key => s!"duplicate field {key}"
  | .missing key => s!"missing field {key}"
  | .noText key => s!"{key} is no scalar"
  | .noNumber key => s!"{key} is no 64-bit number"

open Yaml (Node)

/-- The text of a scalar, also through an alias. -/
def text? (document node : Node) : Option (List Char) :=
  match document.follow? node with
  | some (.scalar _ _ text) => some text
  | _ => none

/-- The entries of a mapping, also through an alias. -/
def entries (document : Node) (of : String) (node : Node) : Except Fault (List (Node × Node)) :=
  match document.follow? node with
  | some (.mapping _ entries) => .ok entries
  | _ => .error (.noMapping of)

/-- The entries with the texts of their keys, all of which must be scalars. -/
def keyed (document : Node) : List (Node × Node) → Except Fault (List (String × Node))
  | [] => .ok []
  | (key, value) :: rest =>
    match text? document key with
    | none => .error .noKey
    | some text => (keyed document rest).map ((String.ofList text, value) :: ·)

/-- The value of a key that stands there exactly once. -/
def field (entries : List (String × Node)) (key : String) : Except Fault Node :=
  match entries.filter (·.1 == key) with
  | [] => .error (.missing key)
  | [(_, value)] => .ok value
  | _ => .error (.repeated key)

def digits? (base : Nat) (text : List Char) : Option Nat := do
  if text.isEmpty then none
  let n ← text.foldlM (fun n c => do
    let digit ← Yaml.hexValue? c
    if digit < base then some (base * n + digit) else none) 0
  if Number.IsWord n then some n else none

/-- A number with its base in front, or a decimal number without a zero in front. -/
def number? (text : List Char) : Option Nat :=
  match (match text with | '+' :: rest => rest | _ => text) with
  | '0' :: 'x' :: rest => digits? 16 rest
  | '0' :: 'o' :: rest => digits? 8 rest
  | '0' :: 'b' :: rest => digits? 2 rest
  | '0' :: _ :: _ => none
  | rest => digits? 10 rest

/-- A count is a plain scalar, or a literal one that is tagged as a whole number. -/
def count? (document node : Node) : Option Nat :=
  match document.follow? node with
  | some (.scalar _ .plain text) => number? text
  | some (.scalar ⟨_, some tag⟩ .literal text) =>
    if tag == "tag:yaml.org,2002:int".toList then number? text else none
  | _ => none

structure Settings where
  resultsDir : Path
  count : Nat
deriving DecidableEq, Repr

def settings (document : Node) : Except Fault Settings := do
  let root ← keyed document (← entries document "the document" document)
  let balancing ← keyed document (← entries document "balancing" (← field root "balancing"))
  let dir ← field balancing "results-dir"
  let count ← field balancing "number_of_iterations"
  let some dir := text? document dir | throw (.noText "results-dir")
  let some count := count? document count | throw (.noNumber "number_of_iterations")
  return ⟨⟨String.ofList dir⟩, count⟩

def ofText (text : String) : Except Error Settings := do
  let document ← (Yaml.parse text).mapError fun error => .malformed error.message
  (settings document).mapError fun fault => .malformed fault.message

end Config

/-- The simulation that a balancing config describes, read from iteration `first` on. -/
def ofConfig (text : String) (first : Nat) : Except Error Simulation := do
  let settings ← Config.ofText text
  ofRange settings.resultsDir settings.count first

def readConfig {m : Type → Type} [Monad m] [Host m] (path : Path) (first : Nat) :
    m (Except Error Simulation) := do
  Host.debug .description s!"Reading balancing config from {path.text}"
  match ← Host.read path with
  | .error cause => return .error (.unreadable path cause)
  | .ok bytes => match Text.decode? bytes with
    | none => return .error (.unreadable path .notText)
    | some text => return ofConfig (String.ofList text) first

end WorkloadAtlas.Simulation
