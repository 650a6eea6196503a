import WorkloadAtlas.Yaml.Cursor
import WorkloadAtlas.Yaml.Token
/-!
Block scalars: a header line, and below it the lines that are indented at least as far as the first of them.
-/

namespace WorkloadAtlas.Yaml.BlockScalar

/-- What becomes of the breaks after the last line. -/
inductive Chomping
  | strip
  | clip
  | keep
deriving DecidableEq, Repr

def chomping? : Char → Option Chomping
  | '-' => some .strip
  | '+' => some .keep
  | _ => none

/-- The header: chomping, and the indentation if it is given. -/
structure Header where
  chomping : Chomping
  increment : Option Nat
  cursor : Cursor

def digit? (c : Char) : Option Nat :=
  if '0' ≤ c ∧ c ≤ '9' then some (c.toNat - '0'.toNat) else none

/-- The indentation at the front of a header, which is never zero. -/
def increment (c : Cursor) : Except Error (Option Nat × Cursor) :=
  match c.peek?.bind digit? with
  | none => .ok (none, c)
  | some 0 => .error .strangeHeader
  | some n => .ok (some n, c.skip 1)

def header (c : Cursor) : Except Error Header := do
  match c.peek?.bind chomping? with
  | some chomping =>
    let (increment, c) ← increment (c.skip 1)
    return ⟨chomping, increment, c⟩
  | none =>
    let (increment, c) ← increment c
    match increment.bind fun _ => c.peek?.bind chomping? with
    | some chomping => return ⟨chomping, increment, c.skip 1⟩
    | none => return ⟨.clip, increment, c⟩

/-- The rest of a line that holds nothing more but a comment, and its break. -/
def endLine (c : Cursor) (error : Error) : Except Error Cursor :=
  let c := c.skipWhile isBlank
  let c := if c.peek? == some '#' then c.skipWhile fun x => !isBreak x else c
  if c.rest.isEmpty then .ok c
  else if c.peek?.any isBreak then .ok (c.skip 1)
  else .error error

/-- Empty lines: their breaks, the place after them, and the farthest column that blanks reached. -/
structure Blanks where
  breaks : List Char
  cursor : Cursor
  reached : Nat

/-- Skips indentation up to `indent`, or all of it where `indent` is not known yet, and takes up the breaks of
empty lines. -/
def blanks (indent : Option Nat) : Nat → Cursor → Except Error Blanks
  | 0, c => .ok ⟨[], c, 0⟩
  | fuel + 1, c =>
    let spaces := (c.rest.takeWhile (· == ' ')).length
    let c := c.skip (match indent with | none => spaces | some n => min spaces (n - c.column))
    let before := match indent with | none => true | some n => decide (c.column < n)
    if before && c.peek? == some '\t' then .error .tabInIndentation
    else if c.peek?.any isBreak then
      (blanks indent fuel (c.skip 1)).map fun b =>
        { b with breaks := c.rest.take 1 ++ b.breaks, reached := max c.column b.reached }
    else .ok ⟨[], c, c.column⟩

structure Lines where
  text : List Char
  /-- The break after the last line. -/
  lastBreak : List Char
  /-- The breaks of the empty lines after that. -/
  emptyBreaks : List Char
  cursor : Cursor

/-- The break before a line that is joined to the one above it by a space or by the empty lines alone. A line
that starts with a blank is never joined. -/
def foldBreak (before : Lines) (afterBlank startsBlank : Bool) : List Char :=
  if before.lastBreak == ['\n'] && !afterBlank && !startsBlank then
    if before.emptyBreaks.isEmpty then [' '] else before.emptyBreaks
  else before.lastBreak ++ before.emptyBreaks

/-- Takes up all lines that start at column `indent`. `afterBlank` says that the line above started with a
blank. -/
def lines (folded : Bool) (indent : Nat) : Nat → Bool → Lines → Except Error Lines
  | 0, _, before => .ok before
  | fuel + 1, afterBlank, before =>
    let c := before.cursor
    if c.column != indent || c.rest.isEmpty then .ok before
    else do
      let startsBlank := c.peek?.any isBlank
      let joint := if folded then foldBreak before afterBlank startsBlank
        else before.lastBreak ++ before.emptyBreaks
      let line := c.rest.takeWhile fun x => !isBreak x
      let c := c.skip line.length
      let lastBreak := c.rest.take 1
      let empty ← blanks (some indent) (c.rest.length + 1) (c.skip 1)
      lines folded indent fuel startsBlank ⟨before.text ++ joint ++ line, lastBreak, empty.breaks, empty.cursor⟩

structure Scanned where
  text : List Char
  cursor : Cursor

/-- The block scalar whose indicator stands at the front, inside of a block that is indented to `outer`. -/
def scan (folded : Bool) (outer : Int) (c : Cursor) : Except Error Scanned := do
  let header ← header (c.skip 1)
  let c ← endLine header.cursor .strangeHeader
  let given := header.increment.map fun n => if 0 ≤ outer then outer.toNat + n else n
  let first ← blanks given (c.rest.length + 1) c
  let indent := match given with
    | some n => n
    | none => max (max first.reached (outer + 1).toNat) 1
  let all ← lines folded indent (first.cursor.rest.length + 1) false ⟨[], [], first.breaks, first.cursor⟩
  let text := match header.chomping with
    | .strip => all.text
    | .clip => all.text ++ all.lastBreak
    | .keep => all.text ++ all.lastBreak ++ all.emptyBreaks
  return ⟨text, all.cursor⟩

end WorkloadAtlas.Yaml.BlockScalar
