/-!
Cutting the bytes of a table into lines and fields. A separator or a line end counts only outside of quotes.
-/

namespace WorkloadAtlas.Table

abbrev Bytes := List UInt8

def newline : UInt8 := 0x0A
def carriageReturn : UInt8 := 0x0D
def quote : UInt8 := 0x22

/-- The first line and what follows its line end. Every quote opens or closes a quoted part. -/
def cutLine (inQuotes : Bool) : Bytes → Bytes × Bytes
  | [] => ([], [])
  | b :: rest =>
    if b == newline && !inQuotes then ([], rest)
    else
      let (line, after) := cutLine (inQuotes != (b == quote)) rest
      (b :: line, after)

theorem length_cutLine_snd_le (bytes : Bytes) (inQuotes : Bool) :
    (cutLine inQuotes bytes).2.length ≤ bytes.length - 1 := by
  induction bytes generalizing inQuotes with
  | nil => simp [cutLine]
  | cons b rest ih =>
    unfold cutLine
    split
    · simp
    · have := ih (inQuotes != (b == quote))
      simp only [List.length_cons]
      omega

/-- All lines; a line end at the very end starts no further line. -/
def lines (bytes : Bytes) : List Bytes :=
  match bytes with
  | [] => []
  | b :: rest => (cutLine false (b :: rest)).1 :: lines (cutLine false (b :: rest)).2
termination_by bytes.length
decreasing_by
  have := length_cutLine_snd_le (b :: rest) false
  simp only [List.length_cons] at *
  omega

inductive Ending
  | separator
  | line
  | data
deriving DecidableEq, Repr

/-- A field, what it ends at, and what follows. -/
structure Cut where
  field : Bytes
  ending : Ending
  rest : Bytes

/-- Scans one field. Quotes matter only in a field that starts with one. -/
def scanField (separator : UInt8) (quoted inQuotes : Bool) : Bytes → Cut
  | [] => ⟨[], .data, []⟩
  | b :: rest =>
    if b == separator && !inQuotes then ⟨[], .separator, rest⟩
    else if b == newline && !inQuotes then ⟨[], .line, rest⟩
    else
      let cut := scanField separator quoted (inQuotes != (quoted && b == quote)) rest
      { cut with field := b :: cut.field }

theorem length_scanField_le (separator : UInt8) (quoted : Bool) (bytes : Bytes) (inQuotes : Bool) :
    (scanField separator quoted inQuotes bytes).rest.length ≤ bytes.length - 1 := by
  induction bytes generalizing inQuotes with
  | nil => simp [scanField]
  | cons b rest ih =>
    unfold scanField
    split
    · simp
    · split
      · simp
      · have := ih (inQuotes != (quoted && b == quote))
        simp only [List.length_cons]
        omega

/-- The first field of the bytes. -/
def cutField (separator : UInt8) (bytes : Bytes) : Cut :=
  scanField separator (bytes.head? == some quote) false bytes

theorem length_cutField_le (separator : UInt8) (bytes : Bytes) :
    (cutField separator bytes).rest.length ≤ bytes.length - 1 :=
  length_scanField_le separator _ bytes false

/-- The fields of one line, of which there is at least one. -/
def fields (separator : UInt8) (bytes : Bytes) : List Bytes :=
  match bytes with
  | [] => [[]]
  | b :: rest =>
    let cut := cutField separator (b :: rest)
    cut.field :: if cut.ending = .separator then fields separator cut.rest else []
termination_by bytes.length
decreasing_by
  have := length_cutField_le separator (b :: rest)
  simp only [List.length_cons] at *
  omega

/-- One carriage return at the end of a field belongs to the line end. -/
def dropReturn (field : Bytes) : Bytes :=
  if field.getLast? == some carriageReturn then field.dropLast else field

/-- The part of a field between its first and its last byte, if it starts with a quote. -/
def unquote (field : Bytes) : Bytes :=
  if field.head? == some quote then (field.drop 1).dropLast else field

structure RowCut where
  row : List Bytes
  rest : Bytes

/-- A row of `columns` fields. A shorter row is filled up with empty fields; a longer one is refused, unless
nothing follows the separator after its last field. -/
def cutRow? (separator : UInt8) : Nat → Bytes → Option RowCut
  | 0, bytes => some ⟨[], bytes⟩
  | columns + 1, bytes =>
    let cut := cutField separator bytes
    if cut.ending ≠ .separator then
      some ⟨dropReturn cut.field :: List.replicate columns [], cut.rest⟩
    else if columns = 0 then
      if cut.rest.isEmpty then some ⟨[dropReturn cut.field], []⟩ else none
    else (cutRow? separator columns cut.rest).map fun r => { r with row := dropReturn cut.field :: r.row }

theorem length_of_cutRow? {separator : UInt8} {columns : Nat} {bytes : Bytes} {r : RowCut}
    (h : cutRow? separator (columns + 1) bytes = some r) : r.rest.length ≤ bytes.length - 1 := by
  induction columns generalizing bytes r with
  | zero =>
    have hl := length_cutField_le separator bytes
    simp only [cutRow?, ↓reduceIte] at h
    split at h
    · cases h
      exact hl
    · split at h
      · cases h
        exact Nat.zero_le _
      · cases h
  | succ columns ih =>
    have hl := length_cutField_le separator bytes
    unfold cutRow? at h
    simp only at h
    split at h
    · cases h
      exact hl
    · rw [if_neg (Nat.succ_ne_zero columns)] at h
      obtain ⟨r', hr, rfl⟩ := Option.map_eq_some_iff.1 h
      have := ih hr
      simp only
      omega

/-- All rows, each with `columns + 1` fields. -/
def rows? (separator : UInt8) (columns : Nat) (bytes : Bytes) : Option (List (List Bytes)) :=
  if _he : bytes = [] then some []
  else
    match _h : cutRow? separator (columns + 1) bytes with
    | none => none
    | some r => (rows? separator columns r.rest).map (r.row :: ·)
termination_by bytes.length
decreasing_by
  have := length_of_cutRow? _h
  have := List.length_pos_iff.2 _he
  omega

end WorkloadAtlas.Table
