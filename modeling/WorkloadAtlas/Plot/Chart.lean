import WorkloadAtlas.Histogram
import WorkloadAtlas.Plot.Canvas
import WorkloadAtlas.Quantile
/-!
Charts with one axis of numbers to the right and one upwards: sorted values, quantiles, and histograms.
-/

namespace WorkloadAtlas.Plot

/-- What a chart shows, in units of the data. -/
inductive Mark
  | curve (colour : Colour) (stroke : Nat) (points : List Point)
  | dot (colour : Colour) (centre : Point)
  | bar (colour : Colour) (corner opposite : Point)

namespace Mark

def between (colour : Colour) (p q : Pixel) : Shape :=
  let x := min p.x q.x
  let y := min p.y q.y
  .rect colour ⟨x, y⟩ (max p.x q.x - x) (max p.y q.y - y)

/-- A mark on an image; a curve without points leaves nothing on it. -/
def shape? (place : Point → Pixel) : Mark → Option Shape
  | .curve _ _ [] => none
  | .curve colour stroke points => some (.polyline colour stroke (points.map place))
  | .dot colour centre => some (.circle colour (place centre) 4)
  | .bar colour corner opposite => some (between colour (place corner) (place opposite))

end Mark

structure Chart where
  caption : String
  yLabel : String
  xLabel : String
  x : Interval
  y : Interval
  marks : List Mark
  legend : List LegendEntry

namespace Chart

def drawing (c : Chart) (canvas : Canvas) : Drawing :=
  { width := canvas.width
    height := canvas.height
    caption := c.caption
    yLabel := c.yLabel
    xLabel := c.xLabel
    legend := c.legend
    shapes := c.marks.filterMap (Mark.shape? (canvas.place (canvas.xAxis c.x) (canvas.yAxis c.y))) }

/-- One point for each value, next to each other from zero on. -/
def row (values : List Float) : List Point :=
  values.mapIdx fun i value => ⟨Float.ofNat i, value⟩

/-- The axis for a row of `count` values, which shows two places at least. -/
def rowAxis (count : Nat) : Interval :=
  ⟨0.0, Float.ofNat (max count 2) - 1.0⟩

/-- Sorted values, if need be with their mean as a level line. -/
def sorted (caption yLabel : String) (values : List Float) (y : Interval) (mean : Option Float) : Chart :=
  let x := rowAxis values.length
  let curve := Mark.curve .pureBlue 2 (row values)
  { caption, yLabel, x, y
    xLabel := "workers, sorted"
    marks := curve :: mean.toList.map fun mean => .curve .pureRed 1 [⟨x.first, mean⟩, ⟨x.last, mean⟩]
    legend := mean.toList.map fun mean => ⟨.pureRed, s!"mean = {Number.thousandths mean}"⟩ }

/-- Quantiles by their level, as a curve with dots on it. -/
def quantiles (caption yLabel : String) (quantiles : List Quantile) (y : Interval) : Chart :=
  let points := quantiles.map fun q => Point.mk q.level q.value
  { caption, yLabel, y
    xLabel := "quantile [%]"
    x := ⟨0.0, 100.0⟩
    marks := .curve .pureBlue 2 points :: points.map (.dot .pureBlue)
    legend := [] }

/-- The vertical axis of a histogram leaves a tenth above the fullest bin. -/
def countAxis (bins : List Bin) : Interval :=
  ⟨0.0, Float.ofNat (bins.foldl (fun most bin => max most bin.count) 1) * 1.1⟩

/-- How many values fall into each of `count` bins over the interval. -/
def histogram (caption : String) (values : List Float) (x : Interval) (count : Nat) : Chart :=
  let bins := Histogram.ofValues values x.first x.last count
  let width := (x.last - x.first) / Float.ofNat (max count 1)
  { caption, x
    yLabel := "workers"
    xLabel := "workload"
    y := countAxis bins
    marks := bins.map fun bin => .bar .pureBlue ⟨bin.start, 0.0⟩ ⟨bin.start + width, Float.ofNat bin.count⟩
    legend := [] }

def series (caption yLabel : String) (series : List (String × List Float)) (y : Interval) : Chart :=
  { caption, yLabel, y
    xLabel := "workers, sorted"
    x := rowAxis (series.foldl (fun most s => max most s.2.length) 0)
    marks := series.mapIdx fun i s => .curve (.ofSeries i) 2 (row s.2)
    legend := series.mapIdx fun i s => ⟨.ofSeries i, s.1⟩ }

end Chart

end WorkloadAtlas.Plot
