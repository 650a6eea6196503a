/-!
Ranges of code points, the form in which character properties are tabled.
-/

namespace WorkloadAtlas.Text

/-- The first and the last code point of a range; both belong to it. -/
abbrev Range := Nat × Nat

def Range.cover (ranges : List Range) (code : Nat) : Bool :=
  ranges.any fun range => range.1 ≤ code && code ≤ range.2

end WorkloadAtlas.Text
