import WorkloadAtlas.Number.Order
import WorkloadAtlas.Plot.Canvas
/-!
Boxplots side by side, one for each of a row of whole numbers. The values are rounded to the 32-bit format
before they are drawn.
-/

namespace WorkloadAtlas.Plot

structure Box where
  lowerFence : Float
  lower : Float
  median : Float
  upper : Float
  upperFence : Float

namespace Box

/-- The value at a level in percent of a sorted list, between two neighbours in proportion. -/
def valueAt (sorted : List Float) (percent : Float) : Float :=
  match sorted with
  | [value] => value
  | _ =>
    let rank := percent / 100.0 * Float.ofNat (sorted.length - 1)
    let below := rank.toUInt64.toNat
    let low := sorted.getD below 0.0
    let high := sorted.getD (below + 1) 0.0
    low + (high - low) * (rank - Float.ofNat below)

/-- The fences lie one and a half times the height of the box away from it. -/
def ofValues (values : List Float) : Box :=
  let sorted := Number.ascending values
  let lower := valueAt sorted 25.0
  let upper := valueAt sorted 75.0
  let reach := 1.5 * (upper - lower)
  ⟨lower - reach, lower, valueAt sorted 50.0, upper, upper + reach⟩

end Box

/-- An axis with one section for each whole number from `first` to `last`. -/
structure Sections where
  first : Nat
  last : Nat

namespace Sections

/-- How many sections there are, with one for the number after the last. -/
def count (s : Sections) : Nat :=
  s.last + 1 - s.first + 1

def single (n : Int) : Float :=
  Number.toSingle (Float.ofInt n)

/-- A finite double rounded to the nearest whole number, a half away from zero. -/
def halfAway (x : Float) : Int :=
  if Number.isNegative x then Number.ceil (x - 0.5) else Number.floor (x + 0.5)

def margin (s : Sections) (canvas : Canvas) : Int :=
  halfAway (Number.toSingle (single ((canvas.width : Int) - 81) / single s.count))

def edges (s : Sections) (canvas : Canvas) : Axis :=
  let axis := canvas.xAxis ⟨Float.ofNat s.first, Float.ofNat (s.last + 1)⟩
  { axis with high := axis.high - s.margin canvas }

/-- The middle of the section of a number, which need not be one of the axis. -/
def centre (s : Sections) (canvas : Canvas) (key : Nat) : Int :=
  let left := (s.edges canvas).pixel (Float.ofNat key)
  if s.first ≤ key ∧ key ≤ s.last then
    (left + (s.edges canvas).pixel (Float.ofNat (key + 1))).tdiv 2
  else Axis.wrap (left + (s.margin canvas).tdiv 2)

end Sections

/-- A row of boxes, each over its number. -/
structure Boxplot where
  caption : String
  yLabel : String
  xLabel : String
  x : Sections
  y : Interval
  boxes : List (Nat × Box)

namespace Boxplot

/-- Half the width of a box. -/
def reach : Int := 10

/-- A line across a pixel, as wide as a box. -/
def across (p : Pixel) : Shape :=
  .line .pureBlue { p with x := p.x - reach } { p with x := p.x + reach }

/-- One box with its whiskers, from the lower fence to the upper one. -/
def shapes (plot : Boxplot) (canvas : Canvas) (key : Nat) (box : Box) : List Shape :=
  let x := plot.x.centre canvas key
  let y := canvas.yAxis plot.y.toSingle
  let place value := canvas.clamp ⟨x, y.pixel (Number.toSingle value)⟩
  let lowerFence := place box.lowerFence
  let lower := place box.lower
  let upper := place box.upper
  let upperFence := place box.upperFence
  [across lowerFence,
   .line .pureBlue lowerFence lower,
   .rect .pureBlue { upper with x := upper.x - reach } (2 * reach) (lower.y - upper.y),
   across (place box.median),
   .line .pureBlue upper upperFence,
   across upperFence]

def drawing (plot : Boxplot) (canvas : Canvas) : Drawing :=
  { width := canvas.width
    height := canvas.height
    caption := plot.caption
    yLabel := plot.yLabel
    xLabel := plot.xLabel
    legend := []
    shapes := plot.boxes.flatMap fun (key, box) => plot.shapes canvas key box }

end Boxplot

end WorkloadAtlas.Plot
