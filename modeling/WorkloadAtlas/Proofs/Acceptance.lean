import WorkloadAtlas.Proofs.Columns
import WorkloadAtlas.Proofs.Loading
/-!
What a file must hold to be loaded, and what is loaded from it. The rows are sorted by worker, so that a worker that
is listed twice stands twice in a row, and each workload stays with its worker.
-/

namespace WorkloadAtlas

theorem Sample.ofColumns_ok {workers : List Int} {values : List Float} (hl : workers.length = values.length)
    (hf : ∀ v ∈ values, v.isFinite = true) (hn : values ≠ []) :
    ofColumns workers values = .ok ⟨workers, values, hl, hf, hn⟩ := by
  have hfind : values.find? (fun v => !v.isFinite) = none := by
    rw [List.find?_eq_none]
    intro v hv
    simp only [hf v hv, Bool.not_true, Bool.false_eq_true, not_false_eq_true]
  unfold ofColumns
  rw [dif_pos hl]
  split
  · next v hv =>
    rw [hfind] at hv
    cases hv
  · rw [dif_neg hn]

theorem Sample.ofColumns_eq_ok {workers : List Int} {values : List Float} {s : Sample}
    (h : ofColumns workers values = .ok s) : s.workers = workers ∧ s.values = values := by
  unfold ofColumns at h
  split at h
  · split at h
    · cases h
    · split at h
      · cases h
      · cases h
        exact ⟨rfl, rfl⟩
  · cases h

namespace Workloads

theorem repeated?_eq_none_iff {ids : List Int} (hsorted : ids.Pairwise (· ≤ ·)) :
    repeated? ids = none ↔ ids.Nodup := by
  induction ids with
  | nil => exact ⟨fun _ => .nil, fun _ => rfl⟩
  | cons a rest ih =>
    cases rest with
    | nil => exact ⟨fun _ => List.pairwise_singleton _ a, fun _ => rfl⟩
    | cons b rest =>
      have htail := List.pairwise_cons.1 hsorted
      have hnext := List.pairwise_cons.1 htail.2
      have hab := htail.1 b List.mem_cons_self
      unfold repeated?
      by_cases h : a = b
      · rw [if_pos h, List.nodup_cons, h]
        constructor
        · intro hnone
          cases hnone
        · intro hnodup
          exact absurd List.mem_cons_self hnodup.1
      · rw [if_neg h, ih htail.2, List.nodup_cons (a := a)]
        refine ⟨fun hnodup => ⟨?_, hnodup⟩, fun hnodup => hnodup.2⟩
        -- Nothing from `b` on lies below `b`, so `a` does not come back.
        intro hmem
        rcases List.mem_cons.1 hmem with hb | hlater
        · exact h hb
        · have hle := hnext.1 a hlater
          omega

/-- The rows of two columns by ascending worker. -/
def sortedRows (ids : List Int) (values : List Float) : List (Int × Float) :=
  (ids.zip values).mergeSort fun a b => a.1 ≤ b.1

section Rows

variable {ids : List Int} {values : List Float}

theorem perm_sortedRows (ids : List Int) (values : List Float) : (sortedRows ids values).Perm (ids.zip values) :=
  List.mergeSort_perm _ _

theorem pairwise_sortedRows (ids : List Int) (values : List Float) :
    ((sortedRows ids values).map (·.1)).Pairwise (· ≤ ·) := by
  have hsorted : (sortedRows ids values).Pairwise fun a b => decide (a.1 ≤ b.1) = true := by
    apply List.pairwise_mergeSort
    · intro a b c hab hbc
      simp only [decide_eq_true_eq] at hab hbc ⊢
      exact Int.le_trans hab hbc
    · intro a b
      simp only [Bool.or_eq_true, decide_eq_true_eq]
      exact Int.le_total a.1 b.1
  simp only [decide_eq_true_eq] at hsorted
  exact List.pairwise_map.2 hsorted

theorem perm_workers (hlen : ids.length = values.length) : ((sortedRows ids values).map (·.1)).Perm ids := by
  have hperm := (perm_sortedRows ids values).map (·.1)
  rwa [List.map_fst_zip (Nat.le_of_eq hlen)] at hperm

theorem perm_values (hlen : ids.length = values.length) : ((sortedRows ids values).map (·.2)).Perm values := by
  have hperm := (perm_sortedRows ids values).map (·.2)
  rwa [List.map_snd_zip (Nat.le_of_eq hlen.symm)] at hperm

theorem ofColumns_eq_ok {path : Path} {layout : Layout} {s : Sample} (h : ofColumns path layout ids values = .ok s) :
    s.workers = (sortedRows ids values).map (·.1) ∧ s.values = (sortedRows ids values).map (·.2) ∧
      repeated? s.workers = none := by
  unfold ofColumns at h
  simp only at h
  split at h
  · cases h
  · split at h
    · cases h
    · next hnone =>
      cases hs : Sample.ofColumns ((sortedRows ids values).map (·.1)) ((sortedRows ids values).map (·.2)) with
      | error error =>
        unfold sortedRows at hs
        rw [hs] at h
        cases h
      | ok s' =>
        obtain ⟨hworkers, hvalues⟩ := Sample.ofColumns_eq_ok hs
        unfold sortedRows at hs
        rw [hs] at h
        cases h
        refine ⟨hworkers, hvalues, ?_⟩
        rw [hworkers]
        exact hnone

theorem perm_of_ofColumns {path : Path} {layout : Layout} {s : Sample}
    (h : ofColumns path layout ids values = .ok s) : (s.workers.zip s.values).Perm (ids.zip values) := by
  obtain ⟨hworkers, hvalues, -⟩ := ofColumns_eq_ok h
  have hrows : sortedRows ids values = s.workers.zip s.values := List.zip_of_prod hworkers.symm hvalues.symm
  rw [← hrows]
  exact perm_sortedRows ids values

theorem ordered_of_ofColumns {path : Path} {layout : Layout} {s : Sample}
    (h : ofColumns path layout ids values = .ok s) : s.workers.Pairwise (· < ·) := by
  obtain ⟨hworkers, -, hnone⟩ := ofColumns_eq_ok h
  have hle : s.workers.Pairwise (· ≤ ·) := by
    rw [hworkers]
    exact pairwise_sortedRows ids values
  have hnodup : s.workers.Nodup := (repeated?_eq_none_iff hle).1 hnone
  exact hle.imp₂ (fun a b hab hne => Int.lt_iff_le_and_ne.2 ⟨hab, hne⟩) hnodup

theorem accepted_of_ofColumns {path : Path} {layout : Layout} {s : Sample} (hlen : ids.length = values.length)
    (h : ofColumns path layout ids values = .ok s) :
    (∀ v ∈ values, v.isFinite = true) ∧ ids.Nodup ∧ ids ≠ [] := by
  obtain ⟨hworkers, hvalues, hnone⟩ := ofColumns_eq_ok h
  have hpermWorkers := perm_workers hlen
  have hpermValues := perm_values hlen
  rw [← hworkers] at hpermWorkers
  rw [← hvalues] at hpermValues
  refine ⟨?_, ?_, ?_⟩
  · intro v hv
    exact s.finite v (hpermValues.mem_iff.2 hv)
  · have hordered := ordered_of_ofColumns h
    exact hpermWorkers.nodup_iff.1 (hordered.imp Int.ne_of_lt)
  · intro hnil
    rw [hnil, List.length_nil] at hlen
    have hvaluesNil := List.length_eq_zero_iff.1 hlen.symm
    rw [hvaluesNil, List.perm_nil] at hpermValues
    exact s.nonempty hpermValues

theorem exists_ofColumns (path : Path) (layout : Layout) (hlen : ids.length = values.length)
    (finite : ∀ v ∈ values, v.isFinite = true) (nodup : ids.Nodup) (nonempty : ids ≠ []) :
    ∃ s, ofColumns path layout ids values = .ok s := by
  have hworkers := perm_workers hlen
  have hvalues := perm_values hlen
  have hfinite : ∀ v ∈ (sortedRows ids values).map (·.2), v.isFinite = true := by
    intro v hv
    exact finite v (hvalues.mem_iff.1 hv)
  have hany : ((sortedRows ids values).map (·.2)).any (fun v => !v.isFinite) = false := by
    rw [List.any_eq_false]
    intro v hv
    simp only [hfinite v hv, Bool.not_true, Bool.false_eq_true, not_false_eq_true]
  have hnone : repeated? ((sortedRows ids values).map (·.1)) = none :=
    (repeated?_eq_none_iff (pairwise_sortedRows ids values)).2 (hworkers.nodup_iff.2 nodup)
  have hne : (sortedRows ids values).map (·.2) ≠ [] := by
    intro hnil
    rw [hnil, List.nil_perm] at hvalues
    rw [hvalues, List.length_nil, List.length_eq_zero_iff] at hlen
    exact nonempty hlen
  have hlens : ((sortedRows ids values).map (·.1)).length = ((sortedRows ids values).map (·.2)).length := by
    rw [List.length_map, List.length_map]
  have hsample := Sample.ofColumns_ok hlens hfinite hne
  unfold sortedRows at hany hnone hsample
  unfold ofColumns
  simp only [hany, Bool.false_eq_true, ↓reduceIte, hnone, hsample]
  exact ⟨_, rfl⟩

end Rows

/-- The two columns of a layout in a table, cast cell by cell: no cell is missing. -/
structure Casts (layout : Layout) (table : Table) (ids : List Int) (values : List Float) : Prop where
  ids : ∃ column, table.column? layout.idColumn = some column ∧ column.integerCells = ids.map some
  values : ∃ column, table.column? layout.valueColumn = some column ∧ column.realCells = values.map some

section Table

variable {path : Path} {layout : Layout} {table : Table} {ids : List Int} {values : List Float}

theorem viewColumn_eq_ok_iff {α : Type} {name : String} {view : Table.Column → Option α} {cells : α} :
    viewColumn path table name view = .ok cells ↔
      ∃ column, table.column? name = some column ∧ view column = some cells := by
  unfold viewColumn
  cases hcolumn : table.column? name with
  | none =>
    constructor
    · intro h
      cases h
    · rintro ⟨column, hnone, -⟩
      cases hnone
  | some column =>
    cases hview : view column with
    | none =>
      constructor
      · intro h
        simp only [hview] at h
        cases h
      · rintro ⟨_, ⟨⟩, hsome⟩
        rw [hview] at hsome
        cases hsome
    | some viewed =>
      constructor
      · intro h
        simp only [hview] at h
        cases h
        exact ⟨column, rfl, hview⟩
      · rintro ⟨_, ⟨⟩, hsome⟩
        rw [hview] at hsome
        cases hsome
        simp only [hview]

theorem Casts.views (path : Path) (h : Casts layout table ids values) :
    viewColumn path table layout.idColumn Table.Column.toIntegers? = .ok ids ∧
      viewColumn path table layout.valueColumn Table.Column.toReals? = .ok values := by
  obtain ⟨idColumn, hid, hids⟩ := h.ids
  obtain ⟨valueColumn, hvalue, hvalues⟩ := h.values
  exact ⟨viewColumn_eq_ok_iff.2 ⟨idColumn, hid, Table.Column.toIntegers?_eq_some_iff.2 hids⟩,
    viewColumn_eq_ok_iff.2 ⟨valueColumn, hvalue, Table.Column.toReals?_eq_some_iff.2 hvalues⟩⟩

theorem Casts.ofTable_eq (h : Casts layout table ids values) (hne : layout.idColumn ≠ layout.valueColumn) :
    ofTable path layout table = ofColumns path layout ids values := by
  obtain ⟨hids, hvalues⟩ := h.views path
  unfold ofTable
  rw [hids, hvalues]
  simp only [bind, Except.bind, hne, ↓reduceIte]

theorem casts_of_ofTable {s : Sample} (h : ofTable path layout table = .ok s) :
    layout.idColumn ≠ layout.valueColumn ∧ ∃ ids values, Casts layout table ids values := by
  unfold ofTable at h
  obtain ⟨ids, hids, h⟩ := Table.bind_eq_ok h
  obtain ⟨values, hvalues, h⟩ := Table.bind_eq_ok h
  obtain ⟨idColumn, hid, hids⟩ := viewColumn_eq_ok_iff.1 hids
  obtain ⟨valueColumn, hvalue, hvalues⟩ := viewColumn_eq_ok_iff.1 hvalues
  split at h
  · cases h
  · next hne =>
    exact ⟨hne, ids, values, ⟨idColumn, hid, Table.Column.toIntegers?_eq_some_iff.1 hids⟩,
      ⟨valueColumn, hvalue, Table.Column.toReals?_eq_some_iff.1 hvalues⟩⟩

/-- A table that is read from bytes gives both columns the same length. -/
theorem Casts.length_eq (h : Casts layout table ids values) {bytes : List UInt8}
    (htable : Table.ofBytes layout.separator bytes = .ok table) : ids.length = values.length := by
  obtain ⟨rows, hrows⟩ := Table.size_of_column? htable
  obtain ⟨idColumn, hid, hids⟩ := h.ids
  obtain ⟨valueColumn, hvalue, hvalues⟩ := h.values
  have hidLength := idColumn.length_integerCells
  have hvalueLength := valueColumn.length_realCells
  rw [hids, List.length_map, hrows _ _ hid] at hidLength
  rw [hvalues, List.length_map, hrows _ _ hvalue] at hvalueLength
  exact hidLength.trans hvalueLength.symm

/-- The cells of the two columns of a layout in a file. -/
def columns? (layout : Layout) (content : Files.Document) : Option (List (Option Int) × List (Option Float)) := do
  let table ← (Table.ofBytes layout.separator content.toBytes).toOption
  let ids ← table.column? layout.idColumn
  let values ← table.column? layout.valueColumn
  return (ids.integerCells, values.realCells)

theorem casts_of_columns? {content : Files.Document} (h : columns? layout content = some (ids.map some, values.map some)) :
    ∃ table, Table.ofBytes layout.separator content.toBytes = .ok table ∧ Casts layout table ids values := by
  unfold columns? at h
  obtain ⟨table, htable, h⟩ := Option.bind_eq_some_iff.1 h
  obtain ⟨idColumn, hid, h⟩ := Option.bind_eq_some_iff.1 h
  obtain ⟨valueColumn, hvalue, h⟩ := Option.bind_eq_some_iff.1 h
  obtain ⟨hids, hvalues⟩ := Prod.mk.inj (Option.some.inj h)
  refine ⟨table, ?_, ⟨idColumn, hid, hids⟩, ⟨valueColumn, hvalue, hvalues⟩⟩
  cases hbytes : Table.ofBytes layout.separator content.toBytes with
  | error error =>
    rw [hbytes] at htable
    cases htable
  | ok table' =>
    rw [hbytes] at htable
    cases htable
    rfl

end Table

section Files

variable {files : Files.Tree} {sim : Simulation} {layout : Layout} {iteration : Nat} {content : Files.Document}
  {table : Table}

theorem inFiles_eq_ofTable (hfile : files.isFile (layout.path sim iteration) = true)
    (hread : files.read (layout.path sim iteration) = .ok content)
    (htable : Table.ofBytes layout.separator content.toBytes = .ok table) :
    inFiles files sim layout iteration = ofTable (layout.path sim iteration) layout table := by
  simp only [inFiles, hfile, ↓reduceIte, hread, Except.map, ofBytes, htable]

theorem table_of_inFiles {s : Sample} (h : inFiles files sim layout iteration = .ok s) :
    files.isFile (layout.path sim iteration) = true ∧
      ∃ content table, files.read (layout.path sim iteration) = .ok content ∧
        Table.ofBytes layout.separator content.toBytes = .ok table ∧
        ofTable (layout.path sim iteration) layout table = .ok s := by
  unfold inFiles at h
  simp only at h
  split at h
  · next hfile =>
    refine ⟨hfile, ?_⟩
    cases hread : files.read (layout.path sim iteration) with
    | error error =>
      rw [hread] at h
      cases h
    | ok content =>
      simp only [hread, Except.map, ofBytes] at h
      cases htable : Table.ofBytes layout.separator content.toBytes with
      | error error =>
        rw [htable] at h
        cases h
      | ok table =>
        rw [htable] at h
        exact ⟨content, table, rfl, htable, h⟩
  · cases h

end Files

/-- A file is loaded exactly if it is a regular file that holds a table whose two columns exist under different names,
cast cell by cell without a gap, and list at least one worker and none twice, each with a finite workload. What is
loaded are the rows of the table by ascending worker: none is lost, and none gets the workload of another. -/
theorem load_accepts (w : Workspace) (sim : Simulation) (layout : Layout) (iteration : Nat) :
    let path := layout.path sim iteration
    ((∃ s, w.workloads sim layout iteration = .ok s) ↔
      w.files.isFile path = true ∧
      ∃ content table ids values, w.files.read path = .ok content ∧
        Table.ofBytes layout.separator content.toBytes = .ok table ∧
        layout.idColumn ≠ layout.valueColumn ∧ Casts layout table ids values ∧
        (∀ v ∈ values, v.isFinite = true) ∧ ids.Nodup ∧ ids ≠ []) ∧
    ∀ s content table ids values, w.workloads sim layout iteration = .ok s →
      w.files.read path = .ok content → Table.ofBytes layout.separator content.toBytes = .ok table →
      Casts layout table ids values →
      ids.length = values.length ∧ s.workers.Pairwise (· < ·) ∧ s.workers.length = s.values.length ∧
        (s.workers.zip s.values).Perm (ids.zip values) := by
  intro path
  rw [Workspace.workloads_eq]
  refine ⟨⟨?_, ?_⟩, ?_⟩
  · rintro ⟨s, hs⟩
    obtain ⟨hfile, content, table, hread, htable, hs⟩ := table_of_inFiles hs
    obtain ⟨hne, ids, values, hcasts⟩ := casts_of_ofTable hs
    rw [hcasts.ofTable_eq hne] at hs
    have haccepted := accepted_of_ofColumns (hcasts.length_eq htable) hs
    exact ⟨hfile, content, table, ids, values, hread, htable, hne, hcasts, haccepted⟩
  · rintro ⟨hfile, content, table, ids, values, hread, htable, hne, hcasts, finite, nodup, nonempty⟩
    rw [inFiles_eq_ofTable hfile hread htable, hcasts.ofTable_eq hne]
    exact exists_ofColumns path layout (hcasts.length_eq htable) finite nodup nonempty
  · intro s content table ids values hs hread htable hcasts
    obtain ⟨hfile, -⟩ := table_of_inFiles hs
    rw [inFiles_eq_ofTable hfile hread htable] at hs
    obtain ⟨hne, -⟩ := casts_of_ofTable hs
    rw [hcasts.ofTable_eq hne] at hs
    exact ⟨hcasts.length_eq htable, ordered_of_ofColumns hs, s.lengths_eq, perm_of_ofColumns hs⟩

end Workloads

end WorkloadAtlas
