import WorkloadAtlas.Table.Column
/-!
Headed tables of delimited fields. The kinds of the columns come from the first hundred lines below the
header; after that every row is read.
-/

namespace WorkloadAtlas

/-- Named columns of equal length, in the order of the header. -/
structure Table where
  columns : List (String × Table.Column)

namespace Table

/-- Why bytes are no table. -/
inductive Error
  | noHeader
  | tooManyFields
  | unreadable (column : String)
deriving DecidableEq, Repr

def Error.message : Error → String
  | .noHeader => "the table has no header"
  | .tooManyFields => "a row has more fields than the header"
  | .unreadable column => s!"a field of column {column} cannot be read"

/-- How many lines below the header decide the kinds. -/
def window : Nat := 100

/-- The bytes without a byte order mark. -/
def dropMark : Bytes → Bytes
  | 0xEF :: 0xBB :: 0xBF :: rest => rest
  | bytes => bytes

/-- A line without the carriage return of its line end; a line of nothing else keeps it. -/
def trimLine (line : Bytes) : Bytes :=
  if 1 < line.length then dropReturn line else line

/-- The field without its quotes; a single quote is no pair. -/
def innerField (field : Bytes) : Bytes :=
  if 1 < field.length then unquote field else field

/-- The names in the header. A name that stands there before gets the number of its repetition. -/
def names (header : List String) : List String :=
  header.mapIdx fun i name =>
    match (header.take i).count name with
    | 0 => name
    | n + 1 => s!"{name}_duplicated_{n}"

/-- The kind of one field of the window; an empty field has none. -/
def fieldKind? (field : Bytes) : Option Kind :=
  if field.isEmpty then none
  else match Text.decode? (innerField field) with
    | some ('"' :: _) => some .text
    | some text => some (.ofText text)
    | none => some .text

/-- The kind of the column at index `i` from the fields of the window. -/
def columnKind (window : List (List Bytes)) (i : Nat) : Kind :=
  .ofAll (window.filterMap fun fields => fields[i]?.bind fieldKind?)

/-- A later column of the same name replaces the kind of the earlier one. -/
def addColumn (schema : List (String × Kind)) (column : String × Kind) : List (String × Kind) :=
  if schema.any (·.1 == column.1) then
    schema.map fun known => if known.1 == column.1 then column else known
  else schema ++ [column]

def schema (separator : UInt8) (header : Bytes) (below : List Bytes) : List (String × Kind) :=
  let texts := (fields separator (trimLine header)).map fun field =>
    String.ofList (Text.decodeLossy (innerField field))
  let window := (below.take window).map fun line => fields separator (trimLine line)
  ((names texts).mapIdx fun i name => (name, columnKind window i)).foldl addColumn []

/-- Reads all rows below the header. Empty lines before the header are skipped, except in front of a single
column, where the first line is the header even if it is empty. -/
def ofBytes (separator : UInt8) (bytes : Bytes) : Except Error Table :=
  let body := dropMark bytes
  let content := body.dropWhile fun b => b == newline || b == carriageReturn
  match lines content with
  | [] => .error .noHeader
  | header :: below =>
    let schema := schema separator header below
    let start := if schema.length ≤ 1 then body else content
    match rows? separator (schema.length - 1) (cutLine false start).2 with
    | none => .error .tooManyFields
    | some rows => do
      let columns ← schema.zipIdx.mapM fun ((name, kind), i) =>
        match Column.ofFields? kind (rows.map fun row => row.getD i []) with
        | some column => .ok (name, column)
        | none => .error (.unreadable name)
      return ⟨columns⟩

def column? (table : Table) (name : String) : Option Column :=
  table.columns.lookup name

end Table

end WorkloadAtlas
