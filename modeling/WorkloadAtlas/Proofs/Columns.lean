import WorkloadAtlas.Table
/-!
The columns of a table cell by cell: all of them have one cell for each row, and a column can be viewed as integers
or as reals exactly if each of its cells can.
-/

namespace WorkloadAtlas.Table

theorem mapM_eq_some_iff {α β : Type} {f : α → Option β} {xs : List α} {ys : List β} :
    xs.mapM f = some ys ↔ xs.map f = ys.map some := by
  induction xs generalizing ys with
  | nil =>
    cases ys with
    | nil => exact ⟨fun _ => rfl, fun _ => rfl⟩
    | cons y ys =>
      constructor
      · intro h
        cases h
      · intro h
        cases h
  | cons x xs ih =>
    rw [List.mapM_cons]
    constructor
    · intro h
      obtain ⟨y, hy, hrest⟩ := Option.bind_eq_some_iff.1 h
      obtain ⟨rest, hmap, hcons⟩ := Option.bind_eq_some_iff.1 hrest
      cases hcons
      rw [List.map_cons, List.map_cons, hy, ih.1 hmap]
    · intro h
      cases ys with
      | nil => cases h
      | cons y ys =>
        obtain ⟨hy, hrest⟩ := List.cons.inj h
        rw [hy, ih.2 hrest]
        rfl

theorem mapM_map_eq_some {α β γ : Type} {f : β → Option γ} {text : α → β} {cell : α → γ} {xs : List α}
    (h : ∀ x ∈ xs, f (text x) = some (cell x)) : (xs.map text).mapM f = some (xs.map cell) := by
  rw [mapM_eq_some_iff, List.map_map, List.map_map]
  exact List.map_congr_left h

theorem mapM_eq_none {α β : Type} {f : α → Option β} {xs : List α} {x : α} (hx : x ∈ xs)
    (hnone : f x = none) :
    xs.mapM f = none := by
  cases hmap : xs.mapM f with
  | none => rfl
  | some ys =>
    have hmem : f x ∈ ys.map some := by
      rw [← mapM_eq_some_iff.1 hmap]
      exact List.mem_map_of_mem hx
    obtain ⟨y, -, hy⟩ := List.mem_map.1 hmem
    rw [hnone] at hy
    cases hy

theorem length_of_mapM {α β : Type} {f : α → Option β} {xs : List α} {ys : List β} (h : xs.mapM f = some ys) :
    ys.length = xs.length := by
  have hlength := congrArg List.length (mapM_eq_some_iff.1 h)
  rw [List.length_map, List.length_map] at hlength
  exact hlength.symm

theorem bind_eq_ok {α β ε : Type} {x : Except ε α} {f : α → Except ε β} {b : β} (h : (x >>= f) = .ok b) :
    ∃ a, x = .ok a ∧ f a = .ok b := by
  cases x with
  | error error => cases h
  | ok a => exact ⟨a, rfl, h⟩

theorem mem_of_mapM_ok {α β ε : Type} {f : α → Except ε β} {xs : List α} {ys : List β} (h : xs.mapM f = .ok ys)
    {y : β} (hy : y ∈ ys) : ∃ x ∈ xs, f x = .ok y := by
  induction xs generalizing ys with
  | nil =>
    cases h
    cases hy
  | cons x xs ih =>
    rw [List.mapM_cons] at h
    obtain ⟨first, hx, h⟩ := bind_eq_ok h
    obtain ⟨rest, hxs, h⟩ := bind_eq_ok h
    cases h
    rcases List.mem_cons.1 hy with rfl | hrest
    · exact ⟨x, List.mem_cons_self, hx⟩
    · obtain ⟨x', hmem, hx'⟩ := ih hxs hrest
      exact ⟨x', List.mem_cons_of_mem _ hmem, hx'⟩

namespace Column

def size : Column → Nat
  | .flags cells => cells.length
  | .reals cells => cells.length
  | .integers cells => cells.length
  | .texts cells => cells.length

/-- Each cell as an integer, if it is there and is one under the cast. -/
def integerCells : Column → List (Option Int)
  | .flags cells => cells.map fun cell => cell.map fun b => if b then 1 else 0
  | .reals cells => cells.map fun cell => cell.bind wholePart?
  | .integers cells => cells
  | .texts cells => cells.map fun cell => cell.bind Number.signed?

/-- Each cell as a double, if it is there and is one under the cast. -/
def realCells : Column → List (Option Float)
  | .flags cells => cells.map fun cell => cell.map fun b => if b then 1.0 else 0.0
  | .reals cells => cells
  | .integers cells => cells.map fun cell => cell.map ofInteger
  | .texts cells => cells.map fun cell => cell.bind Number.real?

theorem toIntegers?_eq_some_iff {column : Column} {ids : List Int} :
    column.toIntegers? = some ids ↔ column.integerCells = ids.map some := by
  cases column with
  | flags cells => exact mapM_eq_some_iff
  | reals cells => exact mapM_eq_some_iff
  | integers cells =>
    unfold toIntegers? integerCells
    rw [mapM_eq_some_iff, List.map_id]
  | texts cells => exact mapM_eq_some_iff

theorem toReals?_eq_some_iff {column : Column} {values : List Float} :
    column.toReals? = some values ↔ column.realCells = values.map some := by
  cases column with
  | flags cells => exact mapM_eq_some_iff
  | reals cells =>
    unfold toReals? realCells
    rw [mapM_eq_some_iff, List.map_id]
  | integers cells => exact mapM_eq_some_iff
  | texts cells => exact mapM_eq_some_iff

theorem length_integerCells (column : Column) : column.integerCells.length = column.size := by
  cases column with
  | flags cells => exact List.length_map _
  | reals cells => exact List.length_map _
  | integers cells => rfl
  | texts cells => exact List.length_map _

theorem length_realCells (column : Column) : column.realCells.length = column.size := by
  cases column with
  | flags cells => exact List.length_map _
  | reals cells => rfl
  | integers cells => exact List.length_map _
  | texts cells => exact List.length_map _

theorem size_of_ofFields? {kind : Kind} {fields : List Bytes} {column : Column}
    (h : ofFields? kind fields = some column) : column.size = fields.length := by
  cases kind with
  | flag =>
    obtain ⟨cells, hcells, rfl⟩ := Option.map_eq_some_iff.1 h
    exact length_of_mapM hcells
  | real =>
    obtain ⟨cells, hcells, rfl⟩ := Option.map_eq_some_iff.1 h
    exact length_of_mapM hcells
  | integer =>
    obtain ⟨cells, hcells, rfl⟩ := Option.map_eq_some_iff.1 h
    exact length_of_mapM hcells
  | text =>
    obtain ⟨cells, hcells, rfl⟩ := Option.map_eq_some_iff.1 h
    exact length_of_mapM hcells

end Column

/-- All columns of a table that is read from bytes have one cell for each row. -/
theorem size_of_column? {separator : UInt8} {bytes : Bytes} {table : Table}
    (h : ofBytes separator bytes = .ok table) :
    ∃ rows, ∀ name column, table.column? name = some column → column.size = rows := by
  unfold ofBytes at h
  simp only at h
  split at h
  · cases h
  · next header below _ =>
    split at h
    · cases h
    · next rows _ =>
      refine ⟨rows.length, ?_⟩
      intro name column hcolumn
      obtain ⟨columns, hcolumns, htable⟩ := bind_eq_ok h
      cases htable
      obtain ⟨before, after, hsplit, -⟩ := List.lookup_eq_some_iff.1 hcolumn
      have hmem : (name, column) ∈ columns := by
        rw [show columns = _ from hsplit]
        exact List.mem_append_right before List.mem_cons_self
      obtain ⟨⟨⟨known, kind⟩, i⟩, -, hread⟩ := mem_of_mapM_ok hcolumns hmem
      cases hfields : Column.ofFields? kind (rows.map fun row => row.getD i []) with
      | none =>
        simp only [hfields] at hread
        cases hread
      | some read =>
        simp only [hfields] at hread
        cases hread
        rw [Column.size_of_ofFields? hfields, List.length_map]

end WorkloadAtlas.Table
