import WorkloadAtlas.Plot.Interval
/-!
How an axis of an image maps values onto pixels. Pixels are signed 32-bit numbers: what lies beyond their range
is held at its end, and a sum that leaves the range wraps around.
-/

namespace WorkloadAtlas.Plot

/-- An interval of values, the pixel of its first value and the pixel of its last one. -/
structure Axis where
  values : Interval
  low : Int
  high : Int

namespace Axis

/-- A pixel number within the signed 32-bit range, wrapped around. -/
def wrap (n : Int) : Int :=
  n.bmod 0x100000000

/-- A whole number held within the signed 32-bit range. -/
def saturate (n : Int) : Int :=
  max (-0x80000000) (min n 0x7FFFFFFF)

/-- The whole number that `round` makes of a double, held within the signed 32-bit range. The exact value of an
infinite double is beyond that range as well; what is no number counts as zero. -/
def steps (round : Float → Int) (x : Float) : Int :=
  if x.isNaN then 0 else saturate (round x)

/-- How many pixels the axis is long, negative if it runs toward lower pixels. -/
def extent (a : Axis) : Int :=
  a.high - a.low

/-- The part of the axis before a value: zero at the first value and one at the last. -/
def part (a : Axis) (value : Float) : Float :=
  (value - a.values.first) / (a.values.last - a.values.first)

/-- The pixel of a value. A thousandth of a pixel is added in the direction of the axis before the fraction is
cut off, so that rounding errors do not move a value that belongs on a pixel. -/
def pixel (a : Axis) (value : Float) : Int :=
  let part := a.part value
  let length := Float.ofInt a.extent
  if a.values.last == a.values.first then a.extent.tdiv 2
  else if a.extent = 0 then a.high
  else if part.isInf then (if 0.0 < part then a.high else a.low)
  else if 0 < a.extent then wrap (a.low + steps Number.floor (length * part + 0.001))
  else wrap (a.low + steps Number.ceil (length * part - 0.001))

end Axis

end WorkloadAtlas.Plot
