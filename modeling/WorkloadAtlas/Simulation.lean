import WorkloadAtlas.Files.Error
import WorkloadAtlas.Number.Width
import WorkloadAtlas.Path
/-!
A finished simulation: where its results lie and which iterations of it are read. Every value of the type
names at least one iteration and only iterations that are 64-bit numbers.
-/

namespace WorkloadAtlas

/-- A simulation whose iterations run from `first` for `count` steps. -/
structure Simulation where
  resultsDir : Path
  first : Nat
  count : Nat
  count_pos : 0 < count
  last_word : Number.IsWord (first + (count - 1))
deriving DecidableEq

namespace Simulation

inductive Error
  | noIterations
  | rangeOverflow (first count : Nat)
  | unreadable (path : Path) (cause : Files.Error)
  | malformed (detail : String)
deriving DecidableEq, Repr

def Error.message : Error → String
  | .noIterations => "A simulation needs at least one iteration"
  | .rangeOverflow first count =>
    s!"Iteration range starting at {first} with {count} iterations overflows"
  | .unreadable path cause => s!"Could not read {path.text}: {cause.message}"
  | .malformed detail => s!"Invalid balancing config: {detail}"

/-- What lies behind the error, told on its own. -/
def Error.causes : Error → List String
  | .unreadable _ cause => [cause.message]
  | .malformed detail => [detail]
  | _ => []

/-- A range is refused when it is empty, and only then when its last iteration is no 64-bit number. -/
def ofRange (resultsDir : Path) (count first : Nat) : Except Error Simulation :=
  if hc : 0 < count then
    if hl : Number.IsWord (first + (count - 1)) then .ok ⟨resultsDir, first, count, hc, hl⟩
    else .error (.rangeOverflow first count)
  else .error .noIterations

/-- A stretch of whole numbers, both ends of which belong to it. -/
structure Span where
  first : Nat
  last : Nat
deriving DecidableEq, Repr

namespace Span

def size (s : Span) : Nat :=
  s.last + 1 - s.first

def toList (s : Span) : List Nat :=
  List.range' s.first s.size

/-- The first `n` numbers, or all of them if there are fewer; no longer list is built. -/
def leading (s : Span) (n : Nat) : List Nat :=
  List.range' s.first (min n s.size)

theorem leading_eq_take (s : Span) (n : Nat) : s.leading n = s.toList.take n := by
  simp only [leading, toList]
  rcases Nat.le_total n s.size with h | h
  · rw [Nat.min_eq_left h, List.take_range'_of_length_ge h]
  · rw [Nat.min_eq_right h, List.take_range'_of_length_le h]

end Span

/-- The last iteration, counted back from the number after it. That number is formed first, and nothing is left of
the calculation if it has more than 64 bits. -/
def last? (sim : Simulation) : Option Nat := do
  let stop ← Number.sum? sim.first sim.count
  Number.difference? stop 1

/-- Whether an iteration is the last one, if the last one can be calculated. -/
def isLast? (sim : Simulation) (iteration : Nat) : Option Bool :=
  sim.last?.map (iteration == ·)

/-- All iterations, if the last one can be calculated. -/
def iterations? (sim : Simulation) : Option Span :=
  sim.last?.map (⟨sim.first, ·⟩)

def iterationDir (sim : Simulation) (iteration : Nat) : Path :=
  sim.resultsDir.join ⟨toString iteration⟩

end Simulation

end WorkloadAtlas
