import WorkloadAtlas.Number.Binary
/-!
Stretches of values that an image shows along one of its axes.
-/

namespace WorkloadAtlas.Plot

/-- The values from `first` to `last`. -/
structure Interval where
  first : Float
  last : Float

namespace Interval

/-- The distance from one to the next greater double. -/
def epsilon : Float :=
  Float.ofBits 0x3CB0000000000000

/-- The interval for data from `min` to `max`, with a twentieth of its width at each end. Data of next to no
width has one unit at each end, and no finite bounds leave the unit interval. -/
def padded (min max : Float) : Interval :=
  if !min.isFinite || !max.isFinite then ⟨0.0, 1.0⟩
  else
    let width := max - min
    if width ≤ epsilon then ⟨min - 1.0, max + 1.0⟩
    else
      let margin := width * 0.05
      ⟨min - margin, max + margin⟩

def toSingle (i : Interval) : Interval :=
  ⟨Number.toSingle i.first, Number.toSingle i.last⟩

end Interval

end WorkloadAtlas.Plot
