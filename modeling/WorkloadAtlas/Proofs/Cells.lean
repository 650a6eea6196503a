import WorkloadAtlas.Proofs.Acceptance
import WorkloadAtlas.Proofs.Literals
import WorkloadAtlas.Proofs.Spelling
/-!
The cells of a loaded file. An id is the integer that stands in its cell and a workload the double nearest to its
cell, as long as the ids are not taken for reals and neither column is taken for flags: then a fraction of an id is
dropped, and flags are loaded as one and zero.
-/

namespace WorkloadAtlas

open Number

namespace Number

/-- A rational without its fraction. -/
def wholePart (q : ℚ) : ℤ :=
  if q < 0 then ⌈q⌉ else ⌊q⌋

theorem truncate_eq (x : Float) : truncate x = wholePart (value x) := by
  have hnonneg := value_nonneg (magnitude x)
  have hfloor : (((magnitude x).toQuotient.1 / (magnitude x).toQuotient.2 : Nat) : ℤ) = ⌊(magnitude x).value⌋ := by
    rw [← toQuotient_value]
    exact (Rat.floor_intCast_div_natCast (magnitude x).toQuotient.1 (magnitude x).toQuotient.2).symm
  unfold truncate wholePart value
  simp only
  split
  · split
    · rw [hfloor, Int.ceil_neg]
    · next hneg =>
      have hzero : (magnitude x).value = 0 := by linarith
      rw [hfloor, hzero]
      rfl
  · rw [hfloor, if_neg (not_lt.2 hnonneg)]

namespace Whole

/-- An integer as a decimal. -/
def toLiteral (n : Whole) : Literal where
  sign := n.sign
  whole := n.digits
  fraction := none
  power := none
  digits_ne_nil := by simpa using n.digits_ne_nil
  isDigit := by simpa using n.isDigit
  isMark := by simp

theorem text_toLiteral (n : Whole) : n.toLiteral.text = n.text := by
  simp [toLiteral, Literal.text, Literal.unsigned, text]

theorem value_toLiteral (n : Whole) : n.toLiteral.value = n.value := by
  have hcount : n.toLiteral.count = digitsValue n.digits := by
    simp [toLiteral, Literal.count]
  have hexponent : n.toLiteral.exponent = 0 := rfl
  have hsign : n.toLiteral.sign = n.sign := rfl
  unfold Literal.value value
  rw [hcount, hexponent, hsign, zpow_zero, mul_one]
  split
  · push_cast
    rfl
  · rfl

end Whole

end Number

namespace Table

/-- What a column is read from: its kind, and its fields from top to bottom. -/
structure Source where
  kind : Kind
  fields : List Bytes

/-- The columns of a file before their fields are read. -/
def sources (separator : UInt8) (bytes : Bytes) : List (String × Source) :=
  let body := dropMark bytes
  let content := body.dropWhile fun b => b == newline || b == carriageReturn
  match lines content with
  | [] => []
  | header :: below =>
    let schema := schema separator header below
    let start := if schema.length ≤ 1 then body else content
    match rows? separator (schema.length - 1) (cutLine false start).2 with
    | none => []
    | some rows => schema.zipIdx.map fun ((name, kind), i) => (name, ⟨kind, rows.map fun row => row.getD i []⟩)

def source? (separator : UInt8) (bytes : Bytes) (name : String) : Option Source :=
  (sources separator bytes).lookup name

theorem forall₂_of_mapM {α β γ ε : Type} {f : α → Except ε β} {g : α → γ} {R : γ → β → Prop} {xs : List α}
    {ys : List β} (hstep : ∀ x y, f x = .ok y → R (g x) y) (h : xs.mapM f = .ok ys) :
    List.Forall₂ R (xs.map g) ys := by
  induction xs generalizing ys with
  | nil =>
    cases h
    exact .nil
  | cons x xs ih =>
    rw [List.mapM_cons] at h
    obtain ⟨first, hx, h⟩ := bind_eq_ok h
    obtain ⟨rest, hxs, h⟩ := bind_eq_ok h
    cases h
    exact .cons (hstep x first hx) (ih hxs)

theorem exists_of_forall₂ {α β : Type} {R : α → β → Prop} {xs : List α} {ys : List β} (h : List.Forall₂ R xs ys) {x : α}
    (hx : x ∈ xs) : ∃ y, R x y := by
  induction h with
  | nil => cases hx
  | cons hfirst _ ih =>
    rcases List.mem_cons.1 hx with rfl | hx
    · exact ⟨_, hfirst⟩
    · exact ih hx

/-- The column that was read from a source. -/
def Reads (source : String × Source) (column : String × Column) : Prop :=
  source.1 = column.1 ∧ Column.ofFields? source.2.kind source.2.fields = some column.2

theorem reads_sources {separator : UInt8} {bytes : Bytes} {table : Table} (h : ofBytes separator bytes = .ok table) :
    List.Forall₂ Reads (sources separator bytes) table.columns := by
  unfold ofBytes at h
  unfold sources
  simp only at h ⊢
  generalize lines _ = found at h ⊢
  cases found with
  | nil => cases h
  | cons header below =>
    simp only at h ⊢
    generalize rows? _ _ _ = found at h ⊢
    cases found with
    | none => cases h
    | some rows =>
      simp only at h ⊢
      obtain ⟨columns, hcolumns, htable⟩ := bind_eq_ok h
      cases htable
      refine forall₂_of_mapM ?_ hcolumns
      rintro ⟨⟨name, kind⟩, i⟩ column hcolumn
      simp only at hcolumn
      split at hcolumn
      · next read hread =>
        cases hcolumn
        exact ⟨rfl, hread⟩
      · cases hcolumn

/-- A column is there exactly if its source is, and is read from it. -/
theorem lookup_reads {sources : List (String × Source)} {columns : List (String × Column)}
    (h : List.Forall₂ Reads sources columns) (name : String) :
    (∃ source column, sources.lookup name = some source ∧ columns.lookup name = some column ∧
      Column.ofFields? source.kind source.fields = some column) ∨
    (sources.lookup name = none ∧ columns.lookup name = none) := by
  induction h with
  | nil => exact .inr ⟨rfl, rfl⟩
  | cons hfirst _ ih =>
    next source column _ _ _ =>
    obtain ⟨hname, hread⟩ := hfirst
    obtain ⟨known, source⟩ := source
    obtain ⟨known', column⟩ := column
    cases hname
    rw [List.lookup_cons, List.lookup_cons]
    by_cases hknown : name == known
    · rw [hknown]
      exact .inl ⟨source, column, rfl, rfl, hread⟩
    · rw [Bool.not_eq_true] at hknown
      rw [hknown]
      exact ih

theorem column_of_source {separator : UInt8} {bytes : Bytes} {table : Table} {name : String} {source : Source}
    (h : ofBytes separator bytes = .ok table) (hsource : source? separator bytes name = some source) :
    ∃ column, table.column? name = some column ∧ Column.ofFields? source.kind source.fields = some column := by
  rcases lookup_reads (reads_sources h) name with ⟨source', column, hlookup, hcolumn, hread⟩ | ⟨hnone, -⟩
  · cases hlookup.symm.trans hsource
    exact ⟨column, hcolumn, hread⟩
  · cases hnone.symm.trans hsource

theorem source_of_column {separator : UInt8} {bytes : Bytes} {table : Table} {name : String} {column : Column}
    (h : ofBytes separator bytes = .ok table) (hcolumn : table.column? name = some column) :
    ∃ source, source? separator bytes name = some source ∧
      Column.ofFields? source.kind source.fields = some column := by
  rcases lookup_reads (reads_sources h) name with ⟨source, column', hsource, hlookup, hread⟩ | ⟨-, hnone⟩
  · cases hlookup.symm.trans hcolumn
    exact ⟨source, hsource, hread⟩
  · cases hnone.symm.trans hcolumn

/-- The text in a cell, without its quotes and without blanks before a number. -/
def cellText? (kind : Kind) (field : Bytes) : Option (List Char) :=
  match kind with
  | .flag => some ((unquote field).map fun b => Char.ofNat b.toNat)
  | .text =>
    if field.head? == some quote then Text.decode? (Column.unescape (unquote field)) else Text.decode? field
  | _ => Text.decode? ((unquote field).dropWhile Column.isBlank)

def flagName (b : Bool) : List Char :=
  if b then "true".toList else "false".toList

/-- What a flag is, in any case. -/
def IsFlag (field : Bytes) (b : Bool) : Prop :=
  ∃ text, cellText? .flag field = some text ∧ text.map Char.toLower = flagName b

/-- The id that a cell is loaded as. -/
inductive IdCell (kind : Kind) (field : Bytes) : Int → Prop
  | whole (n : Whole) (exact : kind = .integer ∨ kind = .text) (text : cellText? kind field = some n.text) :
    IdCell kind field n.value
  | cut (l : Literal) (x : Float) (real : kind = .real) (text : cellText? kind field = some l.text)
    (nearest : IsNearest l.value x) : IdCell kind field (wholePart (value x))
  | flag (b : Bool) (isFlag : kind = .flag) (text : IsFlag field b) : IdCell kind field (if b then 1 else 0)

/-- The workload that a cell is loaded as. -/
inductive ValueCell (kind : Kind) (field : Bytes) : Float → Prop
  | literal (l : Literal) (x : Float) (number : kind ≠ .flag) (text : cellText? kind field = some l.text)
    (nearest : IsNearest l.value x) : ValueCell kind field x
  | flag (b : Bool) (isFlag : kind = .flag) (text : IsFlag field b) : ValueCell kind field (if b then 1.0 else 0.0)

namespace Column

theorem numberCell?_eq_some {α : Type} {parse : List Char → Option α} {field : Bytes} {cell : α}
    (h : numberCell? parse field = some (some cell)) :
    ∃ text, Text.decode? ((unquote field).dropWhile isBlank) = some text ∧ parse text = some cell := by
  unfold numberCell? at h
  simp only at h
  split at h
  · cases h
  · obtain ⟨text, htext, hparse⟩ := Option.bind_eq_some_iff.1 h
    obtain ⟨cell', hcell, hsome⟩ := Option.map_eq_some_iff.1 hparse
    cases hsome
    exact ⟨text, htext, hcell⟩

theorem flagCell?_eq_some {field : Bytes} {b : Bool} (h : flagCell? field = some (some b)) : IsFlag field b := by
  unfold flagCell? at h
  simp only at h
  split at h
  · cases h
  · refine ⟨_, rfl, ?_⟩
    split at h
    · next heq =>
      cases h
      exact eq_of_beq heq
    · split at h
      · next heq =>
        cases h
        exact eq_of_beq heq
      · cases h

theorem textCell?_eq_some {field : Bytes} {text : List Char} (h : textCell? field = some (some text)) :
    cellText? .text field = some text := by
  unfold textCell? at h
  unfold cellText?
  split at h
  · cases h
  · split at h
    · next hquote =>
      split at h
      · obtain ⟨text', htext, hsome⟩ := Option.map_eq_some_iff.1 h
        cases hsome
        rw [if_pos hquote, htext]
      · cases h
    · next hquote =>
      obtain ⟨text', htext, hsome⟩ := Option.map_eq_some_iff.1 h
      cases hsome
      rw [if_neg hquote, htext]

/-- Cells that are read and then cast one by one. -/
theorem forall₂_cells {α β γ : Type} {read : α → Option (Option β)} {cast : Option β → Option γ} {R : α → γ → Prop}
    {xs : List α} {cells : List (Option β)} {ys : List γ}
    (hcell : ∀ x cell, ∀ y ∈ ys, read x = some (some cell) → cast (some cell) = some y → R x y)
    (habsent : cast none = none) (hread : xs.mapM read = some cells) (hcast : cells.map cast = ys.map some) :
    List.Forall₂ R xs ys := by
  replace hread := mapM_eq_some_iff.1 hread
  induction xs generalizing cells ys with
  | nil =>
    cases cells with
    | nil =>
      cases ys with
      | nil => exact .nil
      | cons y ys => cases hcast
    | cons cell cells => cases hread
  | cons x xs ih =>
    cases cells with
    | nil => cases hread
    | cons cell cells =>
      cases ys with
      | nil => cases hcast
      | cons y ys =>
        obtain ⟨hx, hxs⟩ := List.cons.inj hread
        obtain ⟨hy, hys⟩ := List.cons.inj hcast
        refine .cons ?_ (ih (fun x' cell' y' hy' => hcell x' cell' y' (List.mem_cons_of_mem _ hy')) hys hxs)
        cases cell with
        | none =>
          rw [habsent] at hy
          cases hy
        | some cell => exact hcell x cell y List.mem_cons_self hx hy

theorem idCells {kind : Kind} {fields : List Bytes} {column : Column} {ids : List Int}
    (h : ofFields? kind fields = some column) (hids : column.integerCells = ids.map some) :
    List.Forall₂ (IdCell kind) fields ids := by
  cases kind with
  | flag =>
    obtain ⟨cells, hcells, rfl⟩ := Option.map_eq_some_iff.1 h
    refine forall₂_cells ?_ rfl hcells hids
    intro field b id _ hfield hid
    cases hid
    exact .flag b rfl (flagCell?_eq_some hfield)
  | real =>
    obtain ⟨cells, hcells, rfl⟩ := Option.map_eq_some_iff.1 h
    refine forall₂_cells ?_ rfl hcells hids
    intro field x id _ hfield hid
    obtain ⟨text, htext, hreal⟩ := numberCell?_eq_some hfield
    rw [Option.bind_some, wholePart?] at hid
    split at hid
    · next hfinite =>
      obtain ⟨l, rfl, hnearest⟩ := real?_eq_some hreal hfinite
      simp only at hid
      split at hid
      · cases hid
        rw [truncate_eq]
        exact .cut l x rfl htext hnearest
      · cases hid
    · cases hid
  | integer =>
    obtain ⟨cells, hcells, rfl⟩ := Option.map_eq_some_iff.1 h
    have hcast : cells.map id = ids.map some := (List.map_id cells).trans hids
    refine forall₂_cells ?_ rfl hcells hcast
    intro field k id _ hfield hid
    cases hid
    obtain ⟨text, htext, hsigned⟩ := numberCell?_eq_some hfield
    obtain ⟨n, rfl, rfl⟩ := signed?_eq_some hsigned
    exact .whole n (.inl rfl) htext
  | text =>
    obtain ⟨cells, hcells, rfl⟩ := Option.map_eq_some_iff.1 h
    refine forall₂_cells ?_ rfl hcells hids
    intro field text id _ hfield hid
    obtain ⟨n, rfl, rfl⟩ := signed?_eq_some hid
    exact .whole n (.inr rfl) (textCell?_eq_some hfield)

theorem isNearest_ofInteger {k : ℤ} (h : (ofInteger k).isFinite = true) : IsNearest k (ofInteger k) := by
  have hnearest := isNearest_ofDecimal h
  have hvalue : (if decide (k < 0) then -((k.natAbs : ℚ) * 10 ^ (0 : ℤ)) else k.natAbs * 10 ^ (0 : ℤ)) = k := by
    rw [zpow_zero, mul_one, Nat.cast_natAbs]
    split
    · next hneg =>
      rw [abs_of_neg (by simpa using hneg)]
      push_cast
      exact neg_neg _
    · next hpos => rw [abs_of_nonneg (by simpa using hpos)]
  rwa [hvalue] at hnearest

theorem valueCells {kind : Kind} {fields : List Bytes} {column : Column} {values : List Float}
    (h : ofFields? kind fields = some column) (hvalues : column.realCells = values.map some)
    (finite : ∀ v ∈ values, v.isFinite = true) : List.Forall₂ (ValueCell kind) fields values := by
  cases kind with
  | flag =>
    obtain ⟨cells, hcells, rfl⟩ := Option.map_eq_some_iff.1 h
    refine forall₂_cells ?_ rfl hcells hvalues
    intro field b x _ hfield hx
    cases hx
    exact .flag b rfl (flagCell?_eq_some hfield)
  | real =>
    obtain ⟨cells, hcells, rfl⟩ := Option.map_eq_some_iff.1 h
    have hcast : cells.map id = values.map some := (List.map_id cells).trans hvalues
    refine forall₂_cells ?_ rfl hcells hcast
    intro field x y hmem hfield hx
    cases hx
    obtain ⟨text, htext, hreal⟩ := numberCell?_eq_some hfield
    obtain ⟨l, rfl, hnearest⟩ := real?_eq_some hreal (finite x hmem)
    exact .literal l x (by decide) htext hnearest
  | integer =>
    obtain ⟨cells, hcells, rfl⟩ := Option.map_eq_some_iff.1 h
    refine forall₂_cells ?_ rfl hcells hvalues
    intro field k x hmem hfield hx
    cases hx
    obtain ⟨text, htext, hsigned⟩ := numberCell?_eq_some hfield
    obtain ⟨n, rfl, rfl⟩ := signed?_eq_some hsigned
    rw [← n.text_toLiteral] at htext
    refine .literal n.toLiteral _ (by decide) htext ?_
    rw [n.value_toLiteral]
    exact isNearest_ofInteger (finite _ hmem)
  | text =>
    obtain ⟨cells, hcells, rfl⟩ := Option.map_eq_some_iff.1 h
    refine forall₂_cells ?_ rfl hcells hvalues
    intro field text x hmem hfield hx
    obtain ⟨l, rfl, hnearest⟩ := real?_eq_some hx (finite x hmem)
    exact .literal l x (by decide) (textCell?_eq_some hfield) hnearest

end Column

end Table

namespace Workloads

open Table (IdCell ValueCell source?)

section View

variable {path : Path} {layout : Layout} {table : Table} {name : String} {column : Table.Column}

theorem viewColumn_of_column {α : Type} (path : Path) (view : Table.Column → Option α)
    (hcolumn : table.column? name = some column) :
    (∃ cells, viewColumn path table name view = .ok cells ∧ view column = some cells) ∨
      viewColumn path table name view = .error (.badColumn path name) := by
  unfold viewColumn
  rw [hcolumn]
  simp only
  cases view column with
  | none => exact .inr rfl
  | some cells => exact .inl ⟨cells, rfl, rfl⟩

theorem ofColumns_not_finite {ids : List Int} {values : List Float} {v : Float} (hlen : ids.length = values.length)
    (hv : v ∈ values) (hfinite : v.isFinite = false) :
    ofColumns path layout ids values = .error (.badColumn path layout.valueColumn) := by
  have hmem : v ∈ (sortedRows ids values).map (·.2) := (perm_values hlen).mem_iff.2 hv
  have hany : ((sortedRows ids values).map (·.2)).any (fun v => !v.isFinite) = true := by
    rw [List.any_eq_true]
    exact ⟨v, hmem, by rw [hfinite]; rfl⟩
  unfold sortedRows at hany
  unfold ofColumns
  simp only [hany, ↓reduceIte]

end View

/-- A file was refused as no table, or for the cells of one of its columns. -/
inductive Refused (path : Path) (layout : Layout) : Except Error Sample → Prop
  | malformed (detail : String) : Refused path layout (.error (.malformed path detail))
  | ids : Refused path layout (.error (.badColumn path layout.idColumn))
  | values : Refused path layout (.error (.badColumn path layout.valueColumn))

/-- A file with both columns is refused, or all of its cells are read. -/
theorem refused_or_read (path : Path) {layout : Layout} {bytes : List UInt8} {idSource valueSource : Table.Source}
    (hid : source? layout.separator bytes layout.idColumn = some idSource)
    (hvalue : source? layout.separator bytes layout.valueColumn = some valueSource) :
    Refused path layout (ofBytes path layout bytes) ∨ ∃ ids values,
      List.Forall₂ (IdCell idSource.kind) idSource.fields ids ∧
      List.Forall₂ (ValueCell valueSource.kind) valueSource.fields values := by
  unfold ofBytes
  cases htable : Table.ofBytes layout.separator bytes with
  | error error => exact .inl (.malformed error.message)
  | ok table =>
    obtain ⟨idColumn, hidColumn, hidRead⟩ := Table.column_of_source htable hid
    obtain ⟨valueColumn, hvalueColumn, hvalueRead⟩ := Table.column_of_source htable hvalue
    simp only
    unfold ofTable
    rcases viewColumn_of_column path Table.Column.toIntegers? hidColumn with
      ⟨ids, hids, hidView⟩ | hbad
    · rcases viewColumn_of_column path Table.Column.toReals? hvalueColumn with
        ⟨values, hvalues, hvalueView⟩ | hbad
      · rw [hids, hvalues]
        simp only [bind, Except.bind]
        split
        · exact .inl (.malformed _)
        · have hidCells := Table.Column.toIntegers?_eq_some_iff.1 hidView
          have hvalueCells := Table.Column.toReals?_eq_some_iff.1 hvalueView
          have hcasts : Casts layout table ids values :=
            ⟨⟨idColumn, hidColumn, hidCells⟩, ⟨valueColumn, hvalueColumn, hvalueCells⟩⟩
          by_cases finite : ∀ v ∈ values, v.isFinite = true
          · exact .inr ⟨ids, values, Table.Column.idCells hidRead hidCells,
              Table.Column.valueCells hvalueRead hvalueCells finite⟩
          · push Not at finite
            obtain ⟨v, hv, hfinite⟩ := finite
            rw [ofColumns_not_finite (hcasts.length_eq htable) hv (Bool.not_eq_true _ ▸ hfinite)]
            exact .inl .values
      · rw [hids, hbad]
        exact .inl .values
    · rw [hbad]
      exact .inl .ids

/-- What a loaded file holds: its two columns cell by cell, and in the sample the ids and the workloads of them. -/
structure Holds (layout : Layout) (bytes : List UInt8) (idSource valueSource : Table.Source) (s : Sample) : Prop where
  ids : source? layout.separator bytes layout.idColumn = some idSource
  values : source? layout.separator bytes layout.valueColumn = some valueSource
  cells : ∃ ids values, List.Forall₂ (IdCell idSource.kind) idSource.fields ids ∧
    List.Forall₂ (ValueCell valueSource.kind) valueSource.fields values ∧
    (s.workers.zip s.values).Perm (ids.zip values)

theorem exists_holds {path : Path} {layout : Layout} {bytes : List UInt8} {table : Table} {s : Sample}
    (htable : Table.ofBytes layout.separator bytes = .ok table) (hs : ofTable path layout table = .ok s) :
    ∃ idSource valueSource, Holds layout bytes idSource valueSource s := by
  obtain ⟨hne, ids, values, hcasts⟩ := casts_of_ofTable hs
  rw [hcasts.ofTable_eq hne] at hs
  obtain ⟨finite, -, -⟩ := accepted_of_ofColumns (hcasts.length_eq htable) hs
  obtain ⟨idColumn, hidColumn, hidCells⟩ := hcasts.ids
  obtain ⟨valueColumn, hvalueColumn, hvalueCells⟩ := hcasts.values
  obtain ⟨idSource, hid, hidRead⟩ := Table.source_of_column htable hidColumn
  obtain ⟨valueSource, hvalue, hvalueRead⟩ := Table.source_of_column htable hvalueColumn
  exact ⟨idSource, valueSource, hid, hvalue, ids, values, Table.Column.idCells hidRead hidCells,
    Table.Column.valueCells hvalueRead hvalueCells finite, perm_of_ofColumns hs⟩

/-- What is loaded are the numbers in the file: each worker is the integer in its cell, and each workload is the double
nearest to the literal in its cell. Two columns are no exception but a fault: ids that are taken for reals lose their
fractions, and flags become one and zero. A file with any other cell is refused. -/
theorem load_reads_cells (w : Workspace) (sim : Simulation) (layout : Layout) (iteration : Nat) :
    let path := layout.path sim iteration
    (∀ s, w.workloads sim layout iteration = .ok s → ∃ content idSource valueSource,
      w.files.read path = .ok content ∧ Holds layout content.toBytes idSource valueSource s) ∧
    ∀ content idSource valueSource, w.files.isFile path = true → w.files.read path = .ok content →
      source? layout.separator content.toBytes layout.idColumn = some idSource →
      source? layout.separator content.toBytes layout.valueColumn = some valueSource →
      (∃ field ∈ idSource.fields, ∀ id, ¬ IdCell idSource.kind field id) ∨
        (∃ field ∈ valueSource.fields, ∀ x, ¬ ValueCell valueSource.kind field x) →
      Refused path layout (w.workloads sim layout iteration) := by
  intro path
  rw [Workspace.workloads_eq]
  constructor
  · intro s hs
    obtain ⟨-, content, table, hread, htable, htableOk⟩ := table_of_inFiles hs
    obtain ⟨idSource, valueSource, hholds⟩ := exists_holds htable htableOk
    exact ⟨content, idSource, valueSource, hread, hholds⟩
  · intro content idSource valueSource hfile hread hid hvalue hbad
    have hbytes : inFiles w.files sim layout iteration = ofBytes path layout content.toBytes := by
      simp only [inFiles, path, hfile, ↓reduceIte, hread, Except.map] at hread ⊢
    rw [hbytes]
    rcases refused_or_read path hid hvalue with hrefused | ⟨ids, values, hids, hvalues⟩
    · exact hrefused
    · exfalso
      rcases hbad with ⟨field, hfield, hnone⟩ | ⟨field, hfield, hnone⟩
      · obtain ⟨id, hcell⟩ := Table.exists_of_forall₂ hids hfield
        exact hnone id hcell
      · obtain ⟨x, hcell⟩ := Table.exists_of_forall₂ hvalues hfield
        exact hnone x hcell

/-- One iteration, and a file for it. -/
def only : Simulation :=
  ⟨⟨"results"⟩, 0, 1, by decide, by decide⟩

def stored (content : String) : Workspace :=
  .ofFiles ⟨[(["results"], .directory), (["results", "0"], .directory), (["results", "0", "stats"], .directory),
    (["results", "0", "stats", "new_metrics.csv"], .file (.text content))]⟩

/-- An id with a fraction and a workload that is a flag: neither is a number, and both are loaded as one. -/
theorem fraction_and_flag_loaded :
    (((stored "edge-id new_metric\n1.5 true\n").workloads only .standard 0).toOption.map
      fun s => (s.workers, s.values)) = some ([1], [1.0]) ∧
    (∀ n : Whole, n.text ≠ "1.5".toList) ∧ ∀ l : Literal, l.text ≠ "true".toList := by
  refine ⟨by decide +kernel, ?_, ?_⟩
  · intro n htext
    have hpoint : '.' ∈ n.text := by
      rw [htext]
      decide +kernel
    exact absurd (n.mem_text hpoint) (by decide)
  · intro l htext
    have hletter : 't' ∈ l.text := by
      rw [htext]
      decide +kernel
    exact absurd (l.mem_text hletter) (by decide)

end Workloads

end WorkloadAtlas
