import WorkloadAtlas.Plot.Axis
import WorkloadAtlas.Plot.Drawing
/-!
The area of an image in which the data is drawn, and points of the data on it.
-/

namespace WorkloadAtlas.Plot

structure Point where
  x : Float
  y : Float

structure Canvas where
  width : Nat
  height : Nat
deriving DecidableEq, Repr

namespace Canvas

/-- The leftmost pixel of the area of the data; left of it stand the numbers and the name of the axis. -/
def left : Int := 70

/-- The uppermost pixel of the area of the data; above it stands the caption. -/
def top : Int := 36

/-- The horizontal axis ends one pixel before the area does. -/
def xAxis (c : Canvas) (values : Interval) : Axis :=
  ⟨values, left, c.width - 11⟩

/-- The vertical axis runs upwards. -/
def yAxis (c : Canvas) (values : Interval) : Axis :=
  ⟨values, c.height - 51, top⟩

def clamp (c : Canvas) (p : Pixel) : Pixel :=
  ⟨max (min p.x (c.width - 10)) left, max (min p.y (c.height - 50)) top⟩

def place (c : Canvas) (x y : Axis) (p : Point) : Pixel :=
  c.clamp ⟨x.pixel p.x, y.pixel p.y⟩

end Canvas

end WorkloadAtlas.Plot
