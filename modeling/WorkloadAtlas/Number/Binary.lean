/-!
Doubles as exact multiples of powers of two, and the rounding of a quotient of naturals to the nearest value
of a binary format, ties to the even neighbour. All of it is arithmetic on naturals.
-/

namespace WorkloadAtlas.Number

/-- The quotient rounded to the nearest natural, a half to the even neighbour. -/
def roundDiv (num den : Nat) : Nat :=
  let quotient := num / den
  let twice := 2 * (num % den)
  if twice < den then quotient
  else if den < twice then quotient + 1
  else quotient + quotient % 2

/-- A value `significand * 2 ^ exponent`. -/
structure Binary where
  significand : Nat
  exponent : Int
deriving DecidableEq, Repr

/-- The value of the highest bit of a double, which holds its sign. -/
def signBit : Nat := 0x8000000000000000

/-- Whether the sign is set; `-0.0` has it as well. -/
def isNegative (x : Float) : Bool :=
  signBit ≤ x.toBits.toNat

/-- The bits of a double without its sign. -/
def magnitudeBits (x : Float) : Nat :=
  x.toBits.toNat % signBit

/-- A binary format: digits of the significand, exponent of the least values, and the bits of infinity. -/
structure Format where
  precision : Nat
  leastExponent : Int
  infinity : Nat

def double : Format := ⟨53, -1074, 0x7FF0000000000000⟩

def single : Format := ⟨24, -149, 0x7F800000⟩

namespace Format

/-- The value that finite bits without a sign stand for. Bits below the first power of two are counted
by the least exponent alone. -/
def decode (f : Format) (bits : Nat) : Binary :=
  let unit := Nat.pow 2 (f.precision - 1)
  let step := bits / unit
  if step = 0 then ⟨bits, f.leastExponent⟩ else ⟨unit + bits % unit, f.leastExponent + (step - 1)⟩

/-- Whether `num / den` is at least `2 ^ k`. -/
def reaches (num den : Nat) (k : Int) : Bool :=
  den * Nat.pow 2 k.toNat ≤ num * Nat.pow 2 (-k).toNat

/-- The bits of the value nearest to `num / den`. The significand is counted in units of the last place of
the quotient's binade; a carry into the next binade is also a carry in the bits. -/
def nearest (f : Format) (num den : Nat) : Nat :=
  if num = 0 then 0
  else
    let guess : Int := (num.log2 : Int) - den.log2
    let power := if reaches num den guess then guess else guess - 1
    let place := max (power - (f.precision - 1 : Nat)) f.leastExponent
    let units := roundDiv (num * Nat.pow 2 (-place).toNat) (den * Nat.pow 2 place.toNat)
    min ((place - f.leastExponent).toNat * Nat.pow 2 (f.precision - 1) + units) f.infinity

end Format

/-- The exact value of a finite double without its sign. -/
def magnitude (x : Float) : Binary :=
  double.decode (magnitudeBits x)

/-- The double with the given sign and the bits `bits` without one. -/
def ofMagnitude (negative : Bool) (bits : Nat) : Float :=
  Float.ofBits (UInt64.ofNat (if negative then signBit + bits else bits))

def Binary.toQuotient (b : Binary) : Nat × Nat :=
  (b.significand * Nat.pow 2 b.exponent.toNat, Nat.pow 2 (-b.exponent).toNat)

/-- The value of the 32-bit format nearest to `x`, again as a double; values beyond its range become
infinite. -/
def toSingle (x : Float) : Float :=
  if x.isFinite then
    let (num, den) := (magnitude x).toQuotient
    let bits := single.nearest num den
    if bits < single.infinity then
      let (num, den) := (single.decode bits).toQuotient
      ofMagnitude (isNegative x) (double.nearest num den)
    else ofMagnitude (isNegative x) double.infinity
  else x

/-- The whole part of a finite double, toward zero. -/
def truncate (x : Float) : Int :=
  let (num, den) := (magnitude x).toQuotient
  if isNegative x then -(num / den : Nat) else (num / den : Nat)

/-- The greatest whole number that is not above a finite double. -/
def floor (x : Float) : Int :=
  let (num, den) := (magnitude x).toQuotient
  if isNegative x then Int.fdiv (-num) den else (num / den : Nat)

/-- The least whole number that is not below a finite double. -/
def ceil (x : Float) : Int :=
  let (num, den) := (magnitude x).toQuotient
  if isNegative x then -(num / den : Nat) else -Int.fdiv (-num) den

end WorkloadAtlas.Number
