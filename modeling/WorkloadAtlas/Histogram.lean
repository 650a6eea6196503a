/-!
Counts of values in bins of equal width.
-/

namespace WorkloadAtlas

/-- One bin: where it starts and how many values fall into it. -/
structure Bin where
  start : Float
  count : Nat

namespace Histogram

/-- The bin of a value. The last bin takes all that the division puts beyond it, so that it holds the
greatest value. -/
def index (min width : Float) (bins : Nat) (value : Float) : Nat :=
  Nat.min ((value - min) / width).toUInt64.toNat (bins - 1)

/-- How many of the values fall into each bin; values outside of the range fall into none. -/
def counts (values : List Float) (min max width : Float) (bins : Nat) : Array Nat :=
  values.foldl
    (fun counts value =>
      if min ≤ value && value ≤ max then counts.modify (index min width bins value) (· + 1) else counts)
    (Array.replicate bins 0)

/-- The bins over `[min, max]`; a range that is no interval has none. -/
def ofValues (values : List Float) (min max : Float) (bins : Nat) : List Bin :=
  if bins = 0 ∨ max ≤ min then []
  else
    let width := (max - min) / Float.ofNat bins
    (counts values min max width bins).toList.mapIdx fun i count => ⟨min + Float.ofNat i * width, count⟩

end Histogram

end WorkloadAtlas
