/-!
Drawings: what the data puts on an image, in pixels, before it is written in any format.
-/

namespace WorkloadAtlas.Plot

structure Colour where
  red : UInt8
  green : UInt8
  blue : UInt8
deriving DecidableEq, Repr, Inhabited

/-- Two upper-case hexadecimal digits. -/
def hexByte (b : UInt8) : String :=
  String.ofList ([b.toNat / 16, b.toNat % 16].map fun n => (Nat.digitChar n).toUpper)

def Colour.text (c : Colour) : String :=
  "#" ++ hexByte c.red ++ hexByte c.green ++ hexByte c.blue

namespace Colour

def black : Colour := ⟨0, 0, 0⟩
def white : Colour := ⟨0xFF, 0xFF, 0xFF⟩
def pureRed : Colour := ⟨0xFF, 0, 0⟩
def pureBlue : Colour := ⟨0, 0, 0xFF⟩

/-- Colours that are told apart easily, for series in one image. -/
def palette : List Colour := [
  ⟨0xE6, 0x19, 0x4B⟩, ⟨0x3C, 0xB4, 0x4B⟩, ⟨0xFF, 0xE1, 0x19⟩, ⟨0x00, 0x82, 0xC8⟩, ⟨0xF5, 0x82, 0x30⟩,
  ⟨0x91, 0x1E, 0xB4⟩, ⟨0x46, 0xF0, 0xF0⟩, ⟨0xF0, 0x32, 0xE6⟩, ⟨0xD2, 0xF5, 0x3C⟩, ⟨0xFA, 0xBE, 0xBE⟩,
  ⟨0x00, 0x80, 0x80⟩, ⟨0xE6, 0xBE, 0xFF⟩, ⟨0xAA, 0x6E, 0x28⟩, ⟨0xFF, 0xFA, 0xC8⟩, ⟨0x80, 0x00, 0x00⟩,
  ⟨0xAA, 0xFF, 0xC3⟩, ⟨0x80, 0x80, 0x00⟩, ⟨0xFF, 0xD7, 0xB4⟩, ⟨0x00, 0x00, 0x80⟩, ⟨0x80, 0x80, 0x80⟩,
  ⟨0x00, 0x00, 0x00⟩]

/-- The colour of the series at an index; after the last colour comes the first again. -/
def ofSeries (index : Nat) : Colour :=
  palette.getD (index % palette.length) black

end Colour

/-- A pixel, counted from the upper left corner. -/
structure Pixel where
  x : Int
  y : Int
deriving DecidableEq, Repr

inductive Shape
  | polyline (colour : Colour) (stroke : Nat) (points : List Pixel)
  | circle (colour : Colour) (centre : Pixel) (radius : Nat)
  | rect (colour : Colour) (corner : Pixel) (width height : Int)
  | line (colour : Colour) (start stop : Pixel)
deriving DecidableEq, Repr

/-- One line of the legend: a short stroke in the colour of a series, and its name. -/
structure LegendEntry where
  colour : Colour
  label : String
deriving DecidableEq, Repr

/-- A whole image: its texts, its legend, and the shapes in the order in which they cover each other. -/
structure Drawing where
  width : Nat
  height : Nat
  caption : String
  yLabel : String
  xLabel : String
  legend : List LegendEntry
  shapes : List Shape
deriving DecidableEq, Repr

end WorkloadAtlas.Plot
