import WorkloadAtlas.Number.Numeral
import WorkloadAtlas.Table.Field
import WorkloadAtlas.Table.Kind
import WorkloadAtlas.Text.Utf8
/-!
Columns of a table: reading their fields by kind, and viewing them as integers or as reals.
-/

namespace WorkloadAtlas.Table

/-- The cells of a column from top to bottom; an empty field is an absent cell. -/
inductive Column
  | flags (cells : List (Option Bool))
  | reals (cells : List (Option Float))
  | integers (cells : List (Option Int))
  | texts (cells : List (Option (List Char)))

namespace Column

def isBlank (b : UInt8) : Bool :=
  b == 0x20 || b == 0x09

/-- A number may be quoted and may have blanks before it. -/
def numberCell? {α : Type} (parse : List Char → Option α) (field : Bytes) : Option (Option α) :=
  let inner := (unquote field).dropWhile isBlank
  if inner.isEmpty then some none
  else (Text.decode? inner).bind fun text => (parse text).map some

/-- A flag in any case, maybe quoted. -/
def flagCell? (field : Bytes) : Option (Option Bool) :=
  let inner := unquote field
  if inner.isEmpty then some none
  else
    let name := (inner.map fun b => Char.ofNat b.toNat).map Char.toLower
    if name == "true".toList then some (some true)
    else if name == "false".toList then some (some false)
    else none

/-- Inside of quotes two quotes stand for one, and a single one for nothing. -/
def unescape : Bytes → Bytes
  | [] => []
  | b :: rest =>
    if b == quote then
      match rest with
      | c :: rest' => if c == quote then quote :: unescape rest' else c :: unescape rest'
      | [] => []
    else b :: unescape rest

/-- A quoted text must end in its closing quote. -/
def textCell? (field : Bytes) : Option (Option (List Char)) :=
  if field.isEmpty then some none
  else if field.head? == some quote then
    if 1 < field.length && field.getLast? == some quote then
      (Text.decode? (unescape (unquote field))).map some
    else none
  else (Text.decode? field).map some

/-- The column of a kind whose fields are given; `none` if one of them cannot be read. -/
def ofFields? (kind : Kind) (fields : List Bytes) : Option Column :=
  match kind with
  | .flag => (fields.mapM flagCell?).map .flags
  | .real => (fields.mapM (numberCell? Number.real?)).map .reals
  | .integer => (fields.mapM (numberCell? Number.signed?)).map .integers
  | .text => (fields.mapM textCell?).map .texts

/-- The whole part of a double, if it is a signed number of 64 bits. -/
def wholePart? (x : Float) : Option Int :=
  if x.isFinite then
    let whole := Number.truncate x
    if Number.IsSigned whole then some whole else none
  else none

def ofInteger (n : Int) : Float :=
  Number.ofDecimal (n < 0) n.natAbs 0

/-- The column as integers, if no cell is absent and each one has a whole part of 64 bits. -/
def toIntegers? : Column → Option (List Int)
  | .flags cells => cells.mapM fun cell => cell.map fun b => if b then 1 else 0
  | .reals cells => cells.mapM fun cell => cell.bind wholePart?
  | .integers cells => cells.mapM id
  | .texts cells => cells.mapM fun cell => cell.bind Number.signed?

/-- The column as doubles, if no cell is absent and each text is a numeral. -/
def toReals? : Column → Option (List Float)
  | .flags cells => cells.mapM fun cell => cell.map fun b => if b then 1.0 else 0.0
  | .reals cells => cells.mapM id
  | .integers cells => cells.mapM fun cell => cell.map ofInteger
  | .texts cells => cells.mapM fun cell => cell.bind Number.real?

end Column

end WorkloadAtlas.Table
