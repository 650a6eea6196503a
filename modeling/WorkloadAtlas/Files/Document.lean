import WorkloadAtlas.Plot.Svg
import WorkloadAtlas.Text.Utf8
/-!
The contents of files. A drawing is kept as a drawing until its bytes are asked for.
-/

namespace WorkloadAtlas.Files

inductive Document
  | bytes (content : List UInt8)
  | text (content : String)
  | drawing (content : Plot.Drawing)

def Document.toBytes : Document → List UInt8
  | .bytes content => content
  | .text content => Text.encode content
  | .drawing content => Text.encode (Plot.Svg.document content)

end WorkloadAtlas.Files
