import WorkloadAtlas.Plot.Drawing
/-!
Drawings written as scalable vector graphics.
-/

namespace WorkloadAtlas.Plot.Svg

def escapeChar : Char → String
  | '&' => "&amp;"
  | '<' => "&lt;"
  | '>' => "&gt;"
  | '"' => "&quot;"
  | c => String.singleton c

def escape (s : String) : String :=
  String.join (s.toList.map escapeChar)

def property (name value : String) : String :=
  " " ++ name ++ "=\"" ++ escape value ++ "\""

/-- An element without content. -/
def element (name : String) (attributes : List (String × String)) : String :=
  "<" ++ name ++ String.join (attributes.map fun (key, value) => property key value) ++ "/>\n"

def pair (p : Pixel) : String :=
  s!"{p.x},{p.y}"

def line (colour : Colour) (start stop : Pixel) : String :=
  element "line" [("stroke", colour.text), ("stroke-width", "1"), ("x1", toString start.x),
    ("y1", toString start.y), ("x2", toString stop.x), ("y2", toString stop.y)]

def shape : Shape → String
  | .polyline colour stroke points =>
    element "polyline" [("fill", "none"), ("stroke", colour.text), ("stroke-width", toString stroke),
      ("points", " ".intercalate (points.map pair))]
  | .circle colour centre radius =>
    element "circle" [("cx", toString centre.x), ("cy", toString centre.y), ("r", toString radius),
      ("fill", colour.text)]
  | .rect colour corner width height =>
    element "rect" [("x", toString corner.x), ("y", toString corner.y), ("width", toString width),
      ("height", toString height), ("fill", colour.text)]
  | .line colour start stop => line colour start stop

def text (place : Pixel) (anchor content : String) : String :=
  "<text" ++ property "x" (toString place.x) ++ property "y" (toString place.y)
    ++ property "text-anchor" anchor ++ property "font-family" "sans-serif" ++ ">\n" ++ escape content
    ++ "\n</text>\n"

/-- The two lines that bound the area of the data on the left and below. -/
def frame (d : Drawing) : String :=
  let bottom : Int := d.height - 51
  line .black ⟨69, 36⟩ ⟨69, bottom⟩ ++ line .black ⟨69, bottom⟩ ⟨d.width - 11, bottom⟩

def legend (entries : List LegendEntry) : String :=
  String.join (entries.mapIdx fun i entry =>
    let y : Int := 50 + 20 * i
    shape (.polyline entry.colour 2 [⟨80, y⟩, ⟨100, y⟩]) ++ text ⟨110, y⟩ "start" entry.label)

/-- The name of the vocabulary, by which a viewer knows the format. -/
def xmlName : String :=
  "http:" ++ "//" ++ "www.w3.org/2000/svg"

def document (d : Drawing) : String :=
  "<svg" ++ property "width" (toString d.width) ++ property "height" (toString d.height)
    ++ property "xmlns" xmlName ++ ">\n"
    ++ element "rect" [("width", toString d.width), ("height", toString d.height), ("fill", Colour.white.text)]
    ++ text ⟨d.width / 2, 25⟩ "middle" d.caption
    ++ text ⟨15, d.height / 2⟩ "start" d.yLabel
    ++ text ⟨d.width / 2, (d.height : Int) - 10⟩ "middle" d.xLabel
    ++ frame d
    ++ String.join (d.shapes.map shape)
    ++ legend d.legend
    ++ "</svg>\n"

end WorkloadAtlas.Plot.Svg
