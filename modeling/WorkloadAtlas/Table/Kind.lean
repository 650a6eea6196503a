import WorkloadAtlas.Text.DecimalDigit
/-!
Kinds of columns, and the kind that a column gets from the texts of its first fields. The texts are only
classified here; whether a field of a kind can be read is settled when the column is.
-/

namespace WorkloadAtlas.Table

inductive Kind
  | flag
  | real
  | integer
  | text
deriving DecidableEq, Repr

namespace Kind

/-- Lower case as far as the two flags need it; the long s is a form of the letter s. -/
def fold (c : Char) : Char :=
  if c == '\u017F' then 's' else c.toLower

def isFlag (text : List Char) : Bool :=
  let folded := text.map fold
  folded == "true".toList || folded == "false".toList

/-- At least one decimal digit and nothing else. -/
def isDigits (text : List Char) : Bool :=
  !text.isEmpty && text.all Text.isDecimalDigit

def isExponent : List Char → Bool
  | mark :: '+' :: digits => (mark == 'e' || mark == 'E') && isDigits digits
  | mark :: '-' :: digits => (mark == 'e' || mark == 'E') && isDigits digits
  | mark :: digits => (mark == 'e' || mark == 'E') && isDigits digits
  | [] => false

/-- Digits with a point or an exponent, without a sign. -/
def isFraction (text : List Char) : Bool :=
  let whole := text.takeWhile Text.isDecimalDigit
  match text.dropWhile Text.isDecimalDigit with
  | '.' :: tail =>
    let rest := tail.dropWhile Text.isDecimalDigit
    if rest.length = tail.length then !whole.isEmpty && rest.isEmpty
    else rest.isEmpty || isExponent rest
  | rest => !whole.isEmpty && isExponent rest

def isReal (text : List Char) : Bool :=
  let unsigned := match text with
    | '+' :: rest => rest
    | '-' :: rest => rest
    | _ => text
  unsigned == "inf".toList || unsigned == "NaN".toList || isFraction unsigned

def isInteger (text : List Char) : Bool :=
  match text with
  | '-' :: rest => isDigits rest
  | _ => isDigits text

def ofText (text : List Char) : Kind :=
  if isFlag text then .flag
  else if isReal text then .real
  else if isInteger text then .integer
  else .text

/-- The kind of a column that holds both kinds: integers are also reals, and everything is also text. -/
def join : Kind → Kind → Kind
  | .flag, .flag => .flag
  | .integer, .integer => .integer
  | .real, .real | .real, .integer | .integer, .real => .real
  | _, _ => .text

/-- The kind of a column from the kinds of its texts; without any it holds text. -/
def ofAll : List Kind → Kind
  | [] => .text
  | first :: rest => rest.foldl join first

end Kind

end WorkloadAtlas.Table
