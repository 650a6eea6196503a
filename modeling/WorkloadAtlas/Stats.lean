/-!
Mean, deviation and extremes of a list of doubles. Every sum fixes the order of its additions, since the last
bits of the result depend on it.
-/

namespace WorkloadAtlas

/-- The statistics of one sample; `std` is the deviation of the population. -/
structure Stats where
  mean : Float
  std : Float
  min : Float
  max : Float

namespace Stats

/-- Runs of `size` values from the front; the last one may be shorter. -/
def runs (size : Nat) (values : List Float) : List (List Float) :=
  if _h : size = 0 ∨ values = [] then []
  else values.take size :: runs size (values.drop size)
termination_by values.length
decreasing_by
  have : 0 < values.length := List.length_pos_iff.2 (fun e => _h (.inr e))
  simp only [List.length_drop]
  omega

def plainSum (values : List Float) : Float :=
  values.foldl (· + ·) 0.0

/-- Adds the second half of the lanes to the first. -/
def foldLanes (lanes : List Float) : List Float :=
  let half := lanes.length / 2
  List.zipWith (· + ·) (lanes.take half) (lanes.drop half)

/-- The sum of one block, in sixteen lanes that are folded to four and then crosswise to one. -/
def blockSum (block : List Float) : Float :=
  let lanes := (runs 16 block).foldl (List.zipWith (· + ·)) (List.replicate 16 0.0)
  match foldLanes (foldLanes lanes) with
  | [a, b, c, d] => (a + c) + (b + d)
  | other => plainSum other

/-- The sum of blocks, each half for itself. -/
def pairwiseSum (blocks : List (List Float)) : Float :=
  match _h : blocks with
  | [] => 0.0
  | [block] => blockSum block
  | _ :: _ :: _ =>
    pairwiseSum (blocks.take (blocks.length / 2)) + pairwiseSum (blocks.drop (blocks.length / 2))
termination_by blocks.length
decreasing_by
  all_goals simp only [_h, List.length_take, List.length_drop, List.length_cons]; omega

/-- The values that fill no whole block come from the front and are added last. -/
def sum (values : List Float) : Float :=
  let rest := values.length % 128
  pairwiseSum (runs 128 (values.drop rest)) + plainSum (values.take rest)

/-- The running state of the deviation: how many values, their mean, and the sum of squared distances. -/
structure Moments where
  weight : Float
  mean : Float
  squares : Float

def Moments.add (s : Moments) (run : List Float) : Moments :=
  let weight := Float.ofNat run.length
  let mean := plainSum run / weight
  let squares := plainSum (run.map fun x => (x - mean) * (x - mean))
  let total := s.weight + weight
  let shift := mean - s.mean
  let mean' := s.mean + shift * (weight / total)
  ⟨total, mean', s.squares + (squares + weight * (mean - mean') * shift)⟩

/-- Rounding may leave a sum of squares below zero, which counts as zero. -/
def deviation (values : List Float) : Float :=
  let m := (runs 128 values).foldl Moments.add ⟨0.0, 0.0, 0.0⟩
  let variance := m.squares / m.weight
  (if variance < 0.0 then 0.0 else variance).sqrt

def lesser (a b : Float) : Float :=
  if b < a then b else a

def greater (a b : Float) : Float :=
  if a < b then b else a

/-- The statistics of a list that starts with `head`. -/
def ofValues (head : Float) (tail : List Float) : Stats :=
  let values := head :: tail
  { mean := sum values / Float.ofNat values.length
    std := deviation values
    min := tail.foldl lesser head
    max := tail.foldl greater head }

end Stats

end WorkloadAtlas
