import WorkloadAtlas.Failure
/-!
Quantile levels in percent, and quantiles with linear interpolation between the closest ranks.
-/

namespace WorkloadAtlas

structure Quantile where
  level : Float
  value : Float

namespace Quantile

def isLevel (x : Float) : Bool :=
  0.0 ≤ x && x ≤ 100.0

/-- Of neighbours that are numerically equal the first is kept. -/
def dropRepeats : List Float → List Float
  | [] => []
  | x :: rest =>
    match dropRepeats rest with
    | [] => [x]
    | y :: kept => if x == y then x :: kept else x :: y :: kept

theorem mem_of_mem_dropRepeats {x : Float} : ∀ {xs : List Float}, x ∈ dropRepeats xs → x ∈ xs
  | y :: rest, h => by
    have ih := @mem_of_mem_dropRepeats x rest
    unfold dropRepeats at h
    cases hr : dropRepeats rest with
    | nil =>
      rw [hr] at h
      exact List.mem_cons.2 (.inl (List.mem_singleton.1 h))
    | cons z kept =>
      rw [hr] at h ih
      simp only at h
      split at h
      · exact (List.mem_cons.1 h).elim (fun e => List.mem_cons.2 (.inl e))
          fun hk => List.mem_cons_of_mem _ (ih (List.mem_cons_of_mem _ hk))
      · exact (List.mem_cons.1 h).elim (fun e => List.mem_cons.2 (.inl e))
          fun hk => List.mem_cons_of_mem _ (ih hk)

/-- Levels in ascending order, each within `[0, 100]`. -/
structure Levels where
  toList : List Float
  within : ∀ x ∈ toList, isLevel x = true

/-- The first level out of range, in the order given, is reported. -/
def Levels.ofList (levels : List Float) : Except Failure Levels :=
  match h : levels.find? (fun x => !isLevel x) with
  | some x => .error (.levelOutOfRange x)
  | none =>
    .ok ⟨dropRepeats (Number.ascending levels), fun x hx => by
      have hm := List.mem_mergeSort.1 (mem_of_mem_dropRepeats hx)
      simpa using List.find?_eq_none.1 h x hm⟩

def Levels.quartiles : Levels :=
  ⟨[0.0, 25.0, 50.0, 75.0, 100.0], by decide⟩

/-- The rank of a level in a list whose last index is `last`. -/
def rank (level last : Float) : Float :=
  level / 100.0 * last

/-- The index at or below a rank. -/
def below (rank : Float) : Nat :=
  rank.toUInt64.toNat

/-- The index at or above a rank. -/
def above (rank : Float) : Nat :=
  if Float.ofNat (below rank) < rank then below rank + 1 else below rank

def valueAt (sorted : List Float) (level : Float) : Float :=
  let rank := rank level (Float.ofNat (sorted.length - 1))
  let low := sorted.getD (below rank) 0.0
  let high := sorted.getD (above rank) 0.0
  low + (high - low) * (rank - Float.ofNat (below rank))

/-- One quantile for each level, in the order of the levels; no values have no quantiles. -/
def ofValues (values : List Float) (levels : Levels) : List Quantile :=
  if values.isEmpty then []
  else
    let sorted := Number.ascending values
    levels.toList.map fun level => ⟨level, valueAt sorted level⟩

end Quantile

end WorkloadAtlas
