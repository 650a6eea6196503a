import WorkloadAtlas.Number.Binary
/-!
Decimal text of doubles. Which digits are written is decided by exact arithmetic on the bits: the fewest that
read back, and of those the nearest. How they are laid out is a `Layout`, one value for each kind of text.
-/

namespace WorkloadAtlas.Number

/-- A value `digits * 10 ^ exponent`. -/
structure Decimal where
  digits : Nat
  exponent : Int
deriving DecidableEq, Repr

inductive Tie
  | up
  | even
deriving DecidableEq, Repr

/-- The reals that round to one double, on a common denominator: `value` itself, and the two ends, which
belong to it exactly when `closed` holds. -/
structure Interval where
  low : Nat
  value : Nat
  high : Nat
  den : Nat
  closed : Bool

namespace Interval

/-- The neighbour below a power of two is only half as far away as the one above, except among the least
values. -/
def ofBinary (b : Binary) : Interval :=
  let narrow := b.significand = Nat.pow 2 52 ∧ -1074 < b.exponent
  let scale := Nat.pow 2 (b.exponent - 2).toNat
  { low := (4 * b.significand - (if narrow then 1 else 2)) * scale
    value := 4 * b.significand * scale
    high := (4 * b.significand + 2) * scale
    den := Nat.pow 2 (2 - b.exponent).toNat
    closed := b.significand % 2 = 0 }

/-- Whether `count * 10 ^ power` lies in the interval. -/
def contains (i : Interval) (count : Nat) (power : Int) : Bool :=
  let point := count * Nat.pow 10 power.toNat * i.den
  let shift := Nat.pow 10 (-power).toNat
  if i.closed then i.low * shift ≤ point ∧ point ≤ i.high * shift
  else i.low * shift < point ∧ point < i.high * shift

/-- The multiple of `10 ^ power` in the interval that is nearest to the value: of the two neighbours of the
value those that lie in the interval, and of both the nearer one. -/
def pick? (i : Interval) (tie : Tie) (power : Int) : Option Nat :=
  let grid := Nat.pow 10 power.toNat * i.den
  let value := i.value * Nat.pow 10 (-power).toNat
  let below := value / grid
  match i.contains below power, i.contains (below + 1) power with
  | false, false => none
  | true, false => some below
  | false, true => some (below + 1)
  | true, true =>
    let twice := 2 * (value % grid)
    if twice < grid then some below
    else if grid < twice then some (below + 1)
    else match tie with
      | .up => some (below + 1)
      | .even => some (below + below % 2)

/-- The first hit on ever finer grids, starting at `10 ^ power`. -/
def coarsest (i : Interval) (tie : Tie) : Nat → Int → Decimal
  | 0, power => ⟨i.value * Nat.pow 10 (-power).toNat / (Nat.pow 10 power.toNat * i.den), power⟩
  | steps + 1, power =>
    match i.pick? tie power with
    | some count => ⟨count, power⟩
    | none => i.coarsest tie steps (power - 1)

end Interval

namespace Decimal

/-- Zeros at the end go into the exponent. -/
def strip (d : Decimal) : Nat → Decimal
  | 0 => d
  | steps + 1 =>
    if d.digits % 10 = 0 then strip ⟨d.digits / 10, d.exponent + 1⟩ steps else d

/-- The fewest digits that read back as the value. The search starts at a power of ten above the value, since
`2 ^ 10 > 10 ^ 3` bounds the value's decimal length, and ends where seventeen digits are reached. -/
def shortest (tie : Tie) (b : Binary) : Decimal :=
  let bits : Int := b.significand.log2 + 1 + b.exponent
  let top := -Int.fdiv (-(bits * 30103)) 100000 + 1
  ((Interval.ofBinary b).coarsest tie 24 top).strip 24

end Decimal

structure Layout where
  /-- Powers of ten of the first digit that are written without an exponent. -/
  positional : Int → Bool
  /-- The end of a number without a fraction. -/
  wholeEnd : String
  /-- The sign of an exponent that is not negative. -/
  exponentSign : String
  tie : Tie

/-- Numbers in messages and labels: never an exponent, and no fraction for whole numbers. -/
def Layout.plain : Layout := ⟨fun _ => true, "", "", .up⟩

/-- Numbers in dumps of values: always marked as fractions, with an exponent below `1e-4` and from `1e16`. -/
def Layout.dump : Layout := ⟨fun power => -4 ≤ power && power < 16, ".0", "", .up⟩

/-- Numbers in reports: always marked as fractions, with a signed exponent below `1e-5` and from `1e16`. -/
def Layout.report : Layout := ⟨fun power => -5 ≤ power && power < 16, ".0", "+", .even⟩

def zeros (n : Nat) : String :=
  String.ofList (List.replicate n '0')

namespace Layout

/-- Digits with the point where it belongs. -/
def positionally (l : Layout) (d : Decimal) : String :=
  let digits := (toString d.digits).toList
  let before : Int := digits.length + d.exponent
  if before ≤ 0 then "0." ++ zeros (-before).toNat ++ String.ofList digits
  else if 0 ≤ d.exponent then String.ofList digits ++ zeros d.exponent.toNat ++ l.wholeEnd
  else String.ofList (digits.take before.toNat) ++ "." ++ String.ofList (digits.drop before.toNat)

/-- One digit before the point, the others after it, and the power of ten. -/
def exponentially (l : Layout) (d : Decimal) (power : Int) : String :=
  let digits := (toString d.digits).toList
  let fraction := if digits.length ≤ 1 then "" else "." ++ String.ofList (digits.drop 1)
  let sign := if 0 ≤ power then l.exponentSign else ""
  String.ofList (digits.take 1) ++ fraction ++ "e" ++ sign ++ toString power

/-- A decimal that is not zero. -/
def decimal (l : Layout) (d : Decimal) : String :=
  let power : Int := ((toString d.digits).length : Int) + d.exponent - 1
  if l.positional power then l.positionally d else l.exponentially d power

/-- The text of a double. Only what is not a number has no sign. -/
def text (l : Layout) (x : Float) : String :=
  if x.isNaN then "NaN"
  else
    let sign := if isNegative x then "-" else ""
    if x.isFinite then
      let b := magnitude x
      if b.significand = 0 then sign ++ "0" ++ l.wholeEnd
      else sign ++ l.decimal (.shortest l.tie b)
    else sign ++ "inf"

end Layout

/-- Three places after the point, rounded from the exact value, a half to the even neighbour. -/
def thousandths (x : Float) : String :=
  if x.isFinite then
    let (num, den) := (magnitude x).toQuotient
    let count := roundDiv (num * 1000) den
    let fraction := toString (count % 1000)
    let sign := if isNegative x then "-" else ""
    sign ++ toString (count / 1000) ++ "." ++ zeros (3 - fraction.length) ++ fraction
  else Layout.plain.text x

end WorkloadAtlas.Number
