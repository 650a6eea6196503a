import Mathlib
import WorkloadAtlas.Proofs.Acceptance
import WorkloadAtlas.Proofs.Outcome
import WorkloadAtlas.Proofs.Rows
import WorkloadAtlas.Proofs.Spelling
/-!
Loading what was written: a header and one line for each worker, the numbers as they are printed elsewhere. The kind of
the workloads is taken from the first lines alone.
-/

namespace WorkloadAtlas

namespace Number.Numeral

theorem isPlain_text (n : Numeral) : Table.IsPlain n.text := by
  have hdigit {c : Char} (hc : isDigit c = true) : 0x20 < c.toNat ∧ c.toNat < 0x7F ∧ c.toNat ≠ 0x22 := by
    have hbounds := toNat_of_isDigit hc
    omega
  have hunsigned : ∀ c ∈ n.unsigned, 0x20 < c.toNat ∧ c.toNat < 0x7F ∧ c.toNat ≠ 0x22 := by
    intro c hc
    unfold unsigned at hc
    rcases List.mem_append.1 hc with hc | hc
    · exact hdigit (n.digits c (List.mem_append_left _ hc))
    · split at hc
      · cases hc
      · rcases List.mem_cons.1 hc with rfl | hc
        · decide
        · exact hdigit (n.digits c (List.mem_append_right _ hc))
  rcases text_cases n with ⟨-, htext⟩ | ⟨-, htext, c, rest, hcons, -⟩
  · rw [htext]
    refine ⟨List.cons_ne_nil _ _, ?_⟩
    intro c hc
    rcases List.mem_cons.1 hc with rfl | hc
    · decide
    · exact hunsigned c hc
  · rw [htext]
    refine ⟨?_, hunsigned⟩
    rw [hcons]
    exact List.cons_ne_nil _ _

theorem signed_ofInt (k : Int) : (ofInt k).signed = k := by
  have hcount := count_ofInt k
  unfold signed
  rw [hcount]
  unfold ofInt
  simp only [decide_eq_true_eq]
  split
  · omega
  · omega

end Number.Numeral

namespace Workloads

open Number Table

theorem encode_append (s t : String) : Text.encode (s ++ t) = Text.encode s ++ Text.encode t := by
  unfold Text.encode
  rw [String.toList_append, List.flatMap_append]

/-- The line of one worker. -/
def entry (row : Int × Float) : String :=
  s!"{row.1} {Number.Layout.plain.text row.2}\n"

/-- A header and one line for each worker. -/
def listing (rows : List (Int × Float)) : String :=
  "edge-id new_metric\n" ++ rows.foldr (fun row below => entry row ++ below) ""

def header : List Char × List Char :=
  ("edge-id".toList, "new_metric".toList)

/-- The texts of the two fields of a line. -/
def fieldTexts (row : Int × Float) : List Char × List Char :=
  ((toString row.1).toList, (Number.Layout.plain.text row.2).toList)

theorem isPlain_int (k : Int) : IsPlain (toString k).toList := by
  rw [Numeral.text_ofInt]
  exact Numeral.isPlain_text _

theorem isPlain_double {x : Float} (hx : x.isFinite = true) : IsPlain (Number.Layout.plain.text x).toList := by
  obtain ⟨n, h⟩ := exists_spells hx
  rw [h.text]
  exact n.isPlain_text

theorem isPlain_header : IsPlain header.1 ∧ IsPlain header.2 := by
  constructor
  · change IsPlain "edge-id".toList
    exact ⟨by simp, by simp⟩
  · change IsPlain "new_metric".toList
    exact ⟨by simp, by simp⟩

section Listing

variable {rows : List (Int × Float)}

theorem arePlain_fieldTexts (finite : ∀ row ∈ rows, row.2.isFinite = true) : ArePlain (rows.map fieldTexts) := by
  intro texts htexts
  obtain ⟨row, hrow, rfl⟩ := List.mem_map.1 htexts
  exact ⟨isPlain_int row.1, isPlain_double (finite row hrow)⟩

theorem encode_entry {row : Int × Float} (finite : row.2.isFinite = true) :
    Text.encode (entry row) = lineBytes (fieldTexts row) := by
  have hworker := encode_ascii (isPlain_int row.1).ascii_lt
  have hvalue := encode_ascii (isPlain_double finite).ascii_lt
  have hblank : Text.encode " " = [0x20] := by decide +kernel
  have hend : Text.encode "\n" = [newline] := by decide +kernel
  have hentry : entry row = toString row.1 ++ " " ++ Number.Layout.plain.text row.2 ++ "\n" := rfl
  rw [hentry, encode_append, encode_append, encode_append, hworker, hvalue, hblank, hend]
  simp [lineBytes, rowBytes, fieldTexts]

theorem encode_listing (finite : ∀ row ∈ rows, row.2.isFinite = true) :
    Text.encode (listing rows) = (header :: rows.map fieldTexts).flatMap lineBytes := by
  have hheader : Text.encode "edge-id new_metric\n" = lineBytes header := by decide +kernel
  unfold listing
  rw [encode_append, hheader, List.flatMap_cons]
  congr 1
  induction rows with
  | nil => rfl
  | cons row rows ih =>
    have hrest := ih fun r hr => finite r (List.mem_cons_of_mem _ hr)
    rw [List.foldr_cons, encode_append, encode_entry (finite row List.mem_cons_self), hrest]
    rfl

theorem kindOf_texts {texts : List (List Char)} (nonempty : texts ≠ [])
    (numbers : ∀ text ∈ texts, Kind.ofText text = .integer ∨ Kind.ofText text = .real) :
    kindOf texts = if ∃ text ∈ texts.take 100, Kind.ofText text = .real then .real else .integer := by
  have hne : (texts.take window).map Kind.ofText ≠ [] := by
    simp [nonempty, window]
  have hkinds : ∀ kind ∈ (texts.take window).map Kind.ofText, kind = .integer ∨ kind = .real := by
    intro kind hkind
    obtain ⟨text, htext, rfl⟩ := List.mem_map.1 hkind
    exact numbers text (List.mem_of_mem_take htext)
  unfold kindOf
  rw [ofAll_numbers hne hkinds]
  simp only [List.mem_map, window]

def workerTexts (rows : List (Int × Float)) : List (List Char) :=
  rows.map fun row => (toString row.1).toList

def valueTexts (rows : List (Int × Float)) : List (List Char) :=
  rows.map fun row => (Number.Layout.plain.text row.2).toList

theorem isPlain_workers (rows : List (Int × Float)) : ∀ text ∈ workerTexts rows, IsPlain text := by
  intro text htext
  obtain ⟨row, -, rfl⟩ := List.mem_map.1 htext
  exact isPlain_int row.1

theorem kindOf_workers (nonempty : rows ≠ []) : kindOf (workerTexts rows) = .integer := by
  have hinteger : ∀ text ∈ workerTexts rows, Kind.ofText text = .integer := by
    intro text htext
    obtain ⟨row, -, rfl⟩ := List.mem_map.1 htext
    rw [Numeral.text_ofInt, Numeral.ofText_text]
    rfl
  have hnone : ¬ ∃ text ∈ (workerTexts rows).take 100, Kind.ofText text = .real := by
    rintro ⟨text, htext, hreal⟩
    rw [hinteger text (List.mem_of_mem_take htext)] at hreal
    cases hreal
  rw [kindOf_texts (by simpa [workerTexts] using nonempty) fun text htext => .inl (hinteger text htext), if_neg hnone]

theorem readTexts_workers (nonempty : rows ≠ []) (signed : ∀ row ∈ rows, IsSigned row.1) (name : List Char) :
    readTexts name (workerTexts rows) = .ok (String.ofList name, .integers ((rows.map (·.1)).map some)) := by
  have hcells : (workerTexts rows).mapM signed? = some (rows.map (·.1)) := by
    apply mapM_map_eq_some
    intro row hrow
    rw [Numeral.text_ofInt, Numeral.signed?_text, Numeral.signed_ofInt]
    exact if_pos (signed row hrow)
  unfold readTexts
  rw [kindOf_workers nonempty]
  simp only [Column.ofFields?, mapM_numberCell? signed? (isPlain_workers rows), hcells, Option.map_some]

theorem isPlain_values (ordinary : ∀ row ∈ rows, Ordinary row.2) : ∀ text ∈ valueTexts rows, IsPlain text := by
  intro text htext
  obtain ⟨row, hrow, rfl⟩ := List.mem_map.1 htext
  exact isPlain_double (ordinary row hrow).finite

theorem kindOf_values (nonempty : rows ≠ []) (ordinary : ∀ row ∈ rows, Ordinary row.2) :
    kindOf (valueTexts rows) = if ∃ row ∈ rows.take 100, ¬ IsWhole row.2 then .real else .integer := by
  have hnumbers : ∀ text ∈ valueTexts rows, Kind.ofText text = .integer ∨ Kind.ofText text = .real := by
    intro text htext
    obtain ⟨row, hrow, rfl⟩ := List.mem_map.1 htext
    rw [ofText_plain (ordinary row hrow)]
    split
    · exact .inl rfl
    · exact .inr rfl
  have hreal : (∃ text ∈ (valueTexts rows).take 100, Kind.ofText text = .real) ↔
      ∃ row ∈ rows.take 100, ¬ IsWhole row.2 := by
    unfold valueTexts
    rw [← List.map_take]
    simp only [List.mem_map, exists_exists_and_eq_and]
    refine exists_congr fun row => and_congr_right fun hrow => ?_
    rw [ofText_plain (ordinary row (List.mem_of_mem_take hrow))]
    split
    · next hwhole => simp [hwhole]
    · next hfraction => simp [hfraction]
  rw [kindOf_texts (by simpa [valueTexts] using nonempty) hnumbers]
  simp only [hreal]

theorem readTexts_values (nonempty : rows ≠ []) (ordinary : ∀ row ∈ rows, Ordinary row.2) (name : List Char)
    (typed : (∀ row ∈ rows, IsWhole row.2) ∨ ∃ row ∈ rows.take 100, ¬ IsWhole row.2) :
    ∃ column, readTexts name (valueTexts rows) = .ok (String.ofList name, column) ∧
      column.realCells = (rows.map (·.2)).map some := by
  have hkind := kindOf_values nonempty ordinary
  have hplain := isPlain_values ordinary
  unfold readTexts
  by_cases hfraction : ∃ row ∈ rows.take 100, ¬ IsWhole row.2
  · have hcells : (valueTexts rows).mapM real? = some (rows.map (·.2)) := by
      apply mapM_map_eq_some
      intro row hrow
      exact real?_plain (ordinary row hrow).finite
    rw [hkind, if_pos hfraction]
    simp only [Column.ofFields?, mapM_numberCell? real? hplain, hcells, Option.map_some]
    exact ⟨_, rfl, rfl⟩
  · have hwhole : ∀ row ∈ rows, IsWhole row.2 := typed.resolve_right hfraction
    have hread : ∀ row ∈ rows, ∃ k, signed? (Number.Layout.plain.text row.2).toList = some k ∧
        Column.ofInteger k = row.2 := by
      intro row hrow
      exact signed?_plain_of_whole (ordinary row hrow) (hwhole row hrow)
    choose! integer hinteger using hread
    have hcells : (valueTexts rows).mapM signed? = some (rows.map integer) := by
      apply mapM_map_eq_some
      intro row hrow
      exact (hinteger row hrow).1
    rw [hkind, if_neg hfraction]
    simp only [Column.ofFields?, mapM_numberCell? signed? hplain, hcells, Option.map_some]
    refine ⟨_, rfl, ?_⟩
    unfold Column.realCells
    simp only [List.map_map]
    apply List.map_congr_left
    intro row hrow
    exact congrArg some (hinteger row hrow).2

/-- A fraction that comes too late is no integer, and integers are what the column was taken to hold. -/
theorem readTexts_late (nonempty : rows ≠ []) (ordinary : ∀ row ∈ rows, Ordinary row.2) (name : List Char)
    (whole : ∀ row ∈ rows.take 100, IsWhole row.2) {row : Int × Float} (hrow : row ∈ rows)
    (fraction : ¬ IsWhole row.2) :
    readTexts name (valueTexts rows) = .error (.unreadable (String.ofList name)) := by
  have hkind := kindOf_values nonempty ordinary
  have hnone : (valueTexts rows).mapM signed? = none := by
    apply mapM_eq_none (List.mem_map_of_mem hrow)
    exact signed?_plain_of_fraction (ordinary row hrow) fraction
  have hwhole : ¬ ∃ row ∈ rows.take 100, ¬ IsWhole row.2 := by
    rintro ⟨row, hrow, hfraction⟩
    exact hfraction (whole row hrow)
  unfold readTexts
  rw [hkind, if_neg hwhole]
  simp only [Column.ofFields?, mapM_numberCell? signed? (isPlain_values ordinary), hnone, Option.map_none]

end Listing

section Load

variable {w : Workspace} {sim : Simulation} {iteration : Nat} {content : Files.Document} {rows : List (Int × Float)}

/-- Rows that a listing is made of: some workers, none of them twice, each with its workload. -/
structure Listable (rows : List (Int × Float)) : Prop where
  nonempty : rows ≠ []
  distinct : (rows.map (·.1)).Nodup
  signed : ∀ row ∈ rows, IsSigned row.1
  ordinary : ∀ row ∈ rows, Ordinary row.2

theorem ofBytes_listing (h : Listable rows) :
    Table.ofBytes 0x20 (Text.encode (listing rows)) = do
      let second ← readTexts header.2 (valueTexts rows)
      return ⟨[("edge-id", .integers ((rows.map (·.1)).map some)), second]⟩ := by
  have hfinite : ∀ row ∈ rows, row.2.isFinite = true := fun row hrow => (h.ordinary row hrow).finite
  have hworkers : (rows.map fieldTexts).map (·.1) = workerTexts rows := List.map_map
  have hvalues : (rows.map fieldTexts).map (·.2) = valueTexts rows := List.map_map
  rw [encode_listing hfinite, ofBytes_rows isPlain_header (by decide) (arePlain_fieldTexts hfinite), hworkers, hvalues,
    readTexts_workers h.nonempty h.signed]
  rfl

theorem workloads_listing (hfile : w.files.isFile (Layout.standard.path sim iteration) = true)
    (hread : w.files.read (Layout.standard.path sim iteration) = .ok content)
    (hcontent : content.toBytes = Text.encode (listing rows)) :
    w.workloads sim .standard iteration =
      ofBytes (Layout.standard.path sim iteration) .standard (Text.encode (listing rows)) := by
  rw [Workspace.workloads_eq]
  simp only [inFiles, hfile, ↓reduceIte, hread, Except.map, hcontent]

theorem ofBytes_typed (h : Listable rows) (path : Path)
    (typed : (∀ row ∈ rows, IsWhole row.2) ∨ ∃ row ∈ rows.take 100, ¬ IsWhole row.2) :
    ∃ s, ofBytes path .standard (Text.encode (listing rows)) = .ok s ∧ s.workers.Pairwise (· < ·) ∧
      (s.workers.zip s.values).Perm rows := by
  obtain ⟨column, hcolumn, hcells⟩ := readTexts_values h.nonempty h.ordinary header.2 typed
  have htable : Table.ofBytes 0x20 (Text.encode (listing rows)) =
      .ok ⟨[("edge-id", .integers ((rows.map (·.1)).map some)), ("new_metric", column)]⟩ := by
    rw [ofBytes_listing h, hcolumn]
    rfl
  have hcasts : Casts .standard
      ⟨[("edge-id", .integers ((rows.map (·.1)).map some)), ("new_metric", column)]⟩
      (rows.map (·.1)) (rows.map (·.2)) :=
    ⟨⟨_, rfl, rfl⟩, ⟨column, rfl, hcells⟩⟩
  have hfinite : ∀ v ∈ rows.map (·.2), v.isFinite = true := by
    intro v hv
    obtain ⟨row, hrow, rfl⟩ := List.mem_map.1 hv
    exact (h.ordinary row hrow).finite
  obtain ⟨s, hs⟩ := exists_ofColumns path .standard (by simp) hfinite h.distinct (by simpa using h.nonempty)
  refine ⟨s, ?_, ordered_of_ofColumns hs, ?_⟩
  · have hseparator : Layout.standard.separator = 0x20 := rfl
    unfold ofBytes
    rw [hseparator, htable]
    simp only
    rw [hcasts.ofTable_eq (by decide), hs]
  · have hrows : rows = (rows.map (·.1)).zip (rows.map (·.2)) := List.zip_of_prod rfl rfl
    rw [hrows]
    exact perm_of_ofColumns hs

theorem ofBytes_late (h : Listable rows) (path : Path) (whole : ∀ row ∈ rows.take 100, IsWhole row.2)
    {row : Int × Float} (hrow : row ∈ rows) (fraction : ¬ IsWhole row.2) :
    ofBytes path .standard (Text.encode (listing rows)) =
      .error (.malformed path (Table.Error.unreadable "new_metric").message) := by
  have htable : Table.ofBytes 0x20 (Text.encode (listing rows)) = .error (.unreadable "new_metric") := by
    rw [ofBytes_listing h, readTexts_late h.nonempty h.ordinary header.2 whole hrow fraction]
    rfl
  have hseparator : Layout.standard.separator = 0x20 := rfl
  unfold ofBytes
  rw [hseparator, htable]

end Load

/-- The files of one iteration, which lists the given workers. -/
def listed (rows : List (Int × Float)) : Workspace :=
  .ofFiles ⟨[(["results"], .directory), (["results", "3"], .directory), (["results", "3", "stats"], .directory),
    (["results", "3", "stats", "new_metrics.csv"], .file (.text (listing rows)))]⟩

theorem listed_stands (rows : List (Int × Float)) :
    (listed rows).files.isFile (Layout.standard.path Run.pair 3) = true ∧
      (listed rows).files.read (Layout.standard.path Run.pair 3) = .ok (.text (listing rows)) ∧
      (Files.Document.text (listing rows)).toBytes = Text.encode (listing rows) := by
  unfold listed
  generalize listing rows = content
  exact ⟨rfl, rfl, rfl⟩

theorem ordinary_one : Ordinary 1.0 :=
  ⟨by decide +kernel, by decide +kernel, by decide +kernel⟩

theorem ordinary_half : Ordinary 1.5 :=
  ⟨by decide +kernel, by decide +kernel, by decide +kernel⟩

theorem whole_one : IsWhole 1.0 := by decide +kernel

theorem fraction_half : ¬ IsWhole 1.5 := by decide +kernel

/-- As many whole workloads as wanted, and one with a fraction after them. -/
def rising (count : Nat) : List (Int × Float) :=
  (List.range count).map (fun (i : Nat) => ((i : Int), (1.0 : Float))) ++ [((count : Int), 1.5)]

theorem listable_rising {count : Nat} (hcount : IsSigned count) : Listable (rising count) := by
  have hworkers : (rising count).map (·.1) = (List.range (count + 1)).map Int.ofNat := by
    rw [List.range_succ]
    simp [rising, Function.comp_def]
  refine ⟨by simp [rising], ?_, ?_, ?_⟩
  · rw [hworkers]
    exact List.nodup_range.map fun _ _ => Int.ofNat.inj
  · intro row hrow
    have hmem : row.1 ∈ (rising count).map (·.1) := List.mem_map_of_mem hrow
    rw [hworkers] at hmem
    obtain ⟨i, hi, heq⟩ := List.mem_map.1 hmem
    rw [List.mem_range] at hi
    unfold IsSigned at hcount ⊢
    rw [← heq]
    simp only [Int.ofNat_eq_natCast]
    omega
  · intro row hrow
    unfold rising at hrow
    rcases List.mem_append.1 hrow with hrow | hrow
    · obtain ⟨i, -, rfl⟩ := List.mem_map.1 hrow
      exact ordinary_one
    · rw [List.mem_singleton.1 hrow]
      exact ordinary_half

theorem fraction_rising (count : Nat) : ∃ row ∈ rising count, ¬ IsWhole row.2 :=
  ⟨(count, 1.5), List.mem_append_right _ List.mem_cons_self, fraction_half⟩

theorem whole_rising (count : Nat) : ∀ row ∈ (rising count).take count, IsWhole row.2 := by
  intro row hrow
  have htake : (rising count).take count = (List.range count).map fun (i : Nat) => ((i : Int), (1.0 : Float)) :=
    List.take_left' (by simp)
  rw [htake] at hrow
  obtain ⟨i, -, rfl⟩ := List.mem_map.1 hrow
  exact whole_one

/-- Loading undoes writing, in whatever order the workers are listed, unless the first workload with a fraction comes
after a hundred whole ones: then the column is taken for integers, and the file is refused. -/
theorem load_undoes_listing {w : Workspace} {sim : Simulation} {iteration : Nat} {content : Files.Document}
    {rows : List (Int × Float)} (h : Listable rows)
    (hfile : w.files.isFile (Layout.standard.path sim iteration) = true)
    (hread : w.files.read (Layout.standard.path sim iteration) = .ok content)
    (hcontent : content.toBytes = Text.encode (listing rows)) :
    ((∀ row ∈ rows, IsWhole row.2) ∨ (∃ row ∈ rows.take 100, ¬ IsWhole row.2) →
      ∃ s, w.workloads sim .standard iteration = .ok s ∧ s.workers.Pairwise (· < ·) ∧
        (s.workers.zip s.values).Perm rows) ∧
    ((∀ row ∈ rows.take 100, IsWhole row.2) → (∃ row ∈ rows, ¬ IsWhole row.2) →
      w.workloads sim .standard iteration =
        .error (.malformed (Layout.standard.path sim iteration) (Table.Error.unreadable "new_metric").message)) := by
  rw [workloads_listing hfile hread hcontent]
  constructor
  · intro typed
    exact ofBytes_typed h _ typed
  · rintro whole ⟨row, hrow, fraction⟩
    exact ofBytes_late h _ whole hrow fraction

/-- The hundredth line is the last one that counts. -/
theorem load_undoes_listing_rising :
    (Listable (rising 99) ∧ ∃ s, (listed (rising 99)).workloads Run.pair .standard 3 = .ok s ∧
      s.workers.Pairwise (· < ·) ∧ (s.workers.zip s.values).Perm (rising 99)) ∧
    (Listable (rising 100) ∧ ∃ error, (listed (rising 100)).workloads Run.pair .standard 3 = .error error) := by
  refine ⟨⟨listable_rising (by decide), ?_⟩, listable_rising (by decide), ?_⟩
  · obtain ⟨hfile, hread, hcontent⟩ := listed_stands (rising 99)
    have hall : (rising 99).take 100 = rising 99 := List.take_of_length_le (by simp [rising])
    apply (load_undoes_listing (listable_rising (by decide)) hfile hread hcontent).1
    rw [hall]
    exact .inr (fraction_rising 99)
  · obtain ⟨hfile, hread, hcontent⟩ := listed_stands (rising 100)
    have hload := load_undoes_listing (listable_rising (by decide)) hfile hread hcontent
    exact ⟨_, hload.2 (whole_rising 100) (fraction_rising 100)⟩

/-- A hundred whole workloads and a fraction after them: a proper listing, but it is not loaded. -/
theorem late_fraction_refused :
    Listable (rising 100) ∧ (listed (rising 100)).workloads Run.pair .standard 3 =
      .error (.malformed (Layout.standard.path Run.pair 3) (Table.Error.unreadable "new_metric").message) := by
  have hlistable : Listable (rising 100) := listable_rising (by decide)
  obtain ⟨hfile, hread, hcontent⟩ := listed_stands (rising 100)
  obtain ⟨row, hrow, hfraction⟩ := fraction_rising 100
  have hbytes := ofBytes_late hlistable (Layout.standard.path Run.pair 3) (whole_rising 100) hrow hfraction
  exact ⟨hlistable, (workloads_listing hfile hread hcontent).trans hbytes⟩

end Workloads

end WorkloadAtlas
