import WorkloadAtlas.Number.Binary
/-!
The total order on doubles by their bits: negative before positive, `-0.0` before `0.0`, and the values
that are no number outside of the infinities. Sorting uses it, so no value is ever incomparable.
-/

namespace WorkloadAtlas.Number

/-- The place of a double in the total order. The bits without the sign grow with the magnitude, so they
count upwards from zero without the sign and downwards from minus one with it. -/
def rank (x : Float) : Int :=
  if isNegative x then -(magnitudeBits x : Int) - 1 else magnitudeBits x

/-- `x` stands before `y` in the total order, or both have one place. -/
def precedes (x y : Float) : Bool :=
  rank x ≤ rank y

def ascending (values : List Float) : List Float :=
  values.mergeSort precedes

end WorkloadAtlas.Number
