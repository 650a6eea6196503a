/-!
Whole numbers of a fixed width, and arithmetic that is checked against the width of 64 bits.
-/

namespace WorkloadAtlas.Number

abbrev IsHalfWord (n : Nat) : Prop :=
  n < 0x100000000

abbrev IsWord (n : Nat) : Prop :=
  n < 0x10000000000000000

abbrev IsSigned (n : Int) : Prop :=
  -0x8000000000000000 ≤ n ∧ n < 0x8000000000000000

/-- The sum, if it is a 64-bit number. -/
def sum? (a b : Nat) : Option Nat :=
  if IsWord (a + b) then some (a + b) else none

/-- The difference, if it is not below zero. -/
def difference? (a b : Nat) : Option Nat :=
  if b ≤ a then some (a - b) else none

end WorkloadAtlas.Number
