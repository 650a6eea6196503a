import WorkloadAtlas.Quantile
/-!
Doubles as patterns of bits. Many patterns are no number, and as doubles these are all the same; in the total order
each of them has a place of its own, before all numbers or behind them.
-/

namespace WorkloadAtlas.Pattern

/-- The place of a pattern in the total order, as a signed word. Without a sign it is the pattern itself; behind a
sign all bits are flipped, so that greater magnitudes come first. -/
def key (bits : UInt64) : Int64 :=
  let word := bits.toInt64
  word ^^^ ((word >>> 63).toUInt64 >>> 1).toInt64

def order : UInt64 → UInt64 → Ordering :=
  compareOn key

def ascending (patterns : List UInt64) : List UInt64 :=
  patterns.mergeSort fun v w => (order v w).isLE

/-- Arithmetic on patterns that is the one of doubles. Which pattern a result has that is no number stays open. -/
structure Arithmetic where
  add : UInt64 → UInt64 → UInt64
  sub : UInt64 → UInt64 → UInt64
  mul : UInt64 → UInt64 → UInt64
  ofBits_add : ∀ v w, Float.ofBits (add v w) = Float.ofBits v + Float.ofBits w
  ofBits_sub : ∀ v w, Float.ofBits (sub v w) = Float.ofBits v - Float.ofBits w
  ofBits_mul : ∀ v w, Float.ofBits (mul v w) = Float.ofBits v * Float.ofBits w

def quantileAt (arithmetic : Arithmetic) (sorted : List UInt64) (level : Float) : UInt64 :=
  let rank := Quantile.rank level (Float.ofNat (sorted.length - 1))
  let low := sorted.getD (Quantile.below rank) 0
  let high := sorted.getD (Quantile.above rank) 0
  let part := rank - Float.ofNat (Quantile.below rank)
  arithmetic.add low (arithmetic.mul (arithmetic.sub high low) part.toBits)

/-- Each level with its quantile; no patterns have no quantiles. -/
def quantiles (arithmetic : Arithmetic) (patterns : List UInt64) (levels : Quantile.Levels) :
    List (Float × UInt64) :=
  if patterns.isEmpty then []
  else levels.toList.map fun level => (level, quantileAt arithmetic (ascending patterns) level)

end WorkloadAtlas.Pattern
