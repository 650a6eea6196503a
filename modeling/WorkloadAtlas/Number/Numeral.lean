import WorkloadAtlas.Number.Binary
import WorkloadAtlas.Number.Width
/-!
Reading numerals. A numeral is read as an exact decimal first and rounded once, so the double is the nearest
one to the text.
-/

namespace WorkloadAtlas.Number

def isDigit (c : Char) : Bool :=
  '0' ≤ c && c ≤ '9'

/-- The number that a row of digits stands for, the first digit being the most significant. -/
def digitsValue (digits : List Char) : Nat :=
  digits.foldl (fun n c => 10 * n + (c.toNat - '0'.toNat)) 0

/-- A row of at least one digit and nothing else. -/
def natural? (text : List Char) : Option Nat :=
  if text.isEmpty || !text.all isDigit then none else some (digitsValue text)

/-- A number of at most 64 bits, which may have a plus sign. -/
def word? (text : List Char) : Option Nat := do
  let n ← natural? (match text with | '+' :: rest => rest | _ => text)
  if IsWord n then some n else none

def signed? (text : List Char) : Option Int := do
  let value ← match text with
    | '-' :: rest => (natural? rest).map fun n => -(n : Int)
    | '+' :: rest => (natural? rest).map Int.ofNat
    | _ => (natural? text).map Int.ofNat
  if IsSigned value then some value else none

/-- The double nearest to `digits * 10 ^ exponent`. Exponents at which every value is infinite or zero are
settled without computing the power. -/
def ofDecimal (negative : Bool) (digits : Nat) (exponent : Int) : Float :=
  let bits :=
    if digits = 0 then 0
    else if 400 < exponent then double.infinity
    else if digits.log2 + 1 + exponent ≤ -324 then 0
    else double.nearest (digits * Nat.pow 10 exponent.toNat) (Nat.pow 10 (-exponent).toNat)
  ofMagnitude negative bits

/-- The part of a numeral after its digits: nothing, or a whole exponent. -/
def exponent? (text : List Char) : Option Int :=
  match text with
  | [] => some 0
  | mark :: rest =>
    if mark == 'e' || mark == 'E' then
      match rest with
      | '-' :: digits => (natural? digits).map fun n => -(n : Int)
      | '+' :: digits => (natural? digits).map Int.ofNat
      | digits => (natural? digits).map Int.ofNat
    else none

/-- A numeral without a sign: digits with at most one point, at least one digit, and maybe an exponent. -/
def unsigned? (negative : Bool) (text : List Char) : Option Float := do
  let whole := text.takeWhile isDigit
  let afterWhole := text.dropWhile isDigit
  let (fraction, rest) := match afterWhole with
    | '.' :: tail => (tail.takeWhile isDigit, tail.dropWhile isDigit)
    | _ => ([], afterWhole)
  if whole.isEmpty && fraction.isEmpty then none
  else
    let exponent ← exponent? rest
    some (ofDecimal negative (digitsValue (whole ++ fraction)) (exponent - fraction.length))

/-- Names of the values that no digits stand for, in any case. -/
def named? (negative : Bool) (text : List Char) : Option Float :=
  let name := String.ofList (text.map Char.toLower)
  if name == "nan" then some (Float.ofBits 0x7FF8000000000000)
  else if name == "inf" || name == "infinity" then some (ofMagnitude negative double.infinity)
  else none

/-- The double that a whole text stands for, or `none` if it is no numeral. -/
def real? (text : List Char) : Option Float :=
  let (negative, rest) := match text with
    | '-' :: rest => (true, rest)
    | '+' :: rest => (false, rest)
    | _ => (false, text)
  (named? negative rest).or (unsigned? negative rest)

end WorkloadAtlas.Number
