/-!
Text as UTF-8 bytes, and bytes read as text either strictly or with replacement marks for what is malformed.
-/

namespace WorkloadAtlas.Text

def encode (s : String) : List UInt8 :=
  s.toList.flatMap String.utf8EncodeChar

namespace Utf8

/-- How many bytes follow a leading byte, and the range that the first of them must lie in. It excludes
overlong forms, surrogates and codes beyond the last plane. -/
def lead? (b : UInt8) : Option (Nat × UInt8 × UInt8) :=
  if 0xC2 ≤ b ∧ b ≤ 0xDF then some (1, 0x80, 0xBF)
  else if b = 0xE0 then some (2, 0xA0, 0xBF)
  else if b = 0xED then some (2, 0x80, 0x9F)
  else if 0xE1 ≤ b ∧ b ≤ 0xEF then some (2, 0x80, 0xBF)
  else if b = 0xF0 then some (3, 0x90, 0xBF)
  else if 0xF1 ≤ b ∧ b ≤ 0xF3 then some (3, 0x80, 0xBF)
  else if b = 0xF4 then some (3, 0x80, 0x8F)
  else none

/-- The continuation bytes at the front, at most `count` of them, the first one from `low` to `high`. -/
def tail (count : Nat) (low high : UInt8) : List UInt8 → List UInt8
  | [] => []
  | b :: rest =>
    match count with
    | 0 => []
    | count + 1 => if low ≤ b ∧ b ≤ high then b :: tail count 0x80 0xBF rest else []

def code (first : UInt8) (following : List UInt8) : Nat :=
  following.foldl (fun n b => 64 * n + b.toNat % 64) (first.toNat % Nat.pow 2 (6 - following.length))

/-- The characters in order. A leading byte without all of its continuation bytes stands for one malformed
place, together with those that it has. -/
def places (bytes : List UInt8) : List (Option Char) :=
  match bytes with
  | [] => []
  | b :: rest =>
    if b < 0x80 then some (Char.ofNat b.toNat) :: places rest
    else
      match lead? b with
      | none => none :: places rest
      | some (count, low, high) =>
        let following := tail count low high rest
        let place := if following.length = count then some (Char.ofNat (code b following)) else none
        place :: places (rest.drop following.length)
termination_by bytes.length
decreasing_by all_goals simp only [List.length_cons, List.length_drop]; omega

end Utf8

/-- The text, if no byte is malformed. -/
def decode? (bytes : List UInt8) : Option (List Char) :=
  (Utf8.places bytes).mapM id

/-- The text with a replacement mark at each malformed place. -/
def decodeLossy (bytes : List UInt8) : List Char :=
  (Utf8.places bytes).map fun place => place.getD '\uFFFD'

end WorkloadAtlas.Text
