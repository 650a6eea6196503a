import Mathlib
import WorkloadAtlas.Proofs.Columns
/-!
Tables of plain fields in two columns, cut and read again. A plain field has no quotes, blanks or line ends, so that
every byte of it is kept as it is.
-/

namespace WorkloadAtlas.Table

/-- Visible characters of ASCII but the quote, at least one. -/
structure IsPlain (text : List Char) : Prop where
  nonempty : text ≠ []
  visible : ∀ c ∈ text, 0x20 < c.toNat ∧ c.toNat < 0x7F ∧ c.toNat ≠ 0x22

def ascii (text : List Char) : Bytes :=
  text.map fun c => UInt8.ofNat c.toNat

theorem toNat_ascii {c : Char} (hc : c.toNat < 0x80) : (UInt8.ofNat c.toNat).toNat = c.toNat := by
  rw [UInt8.toNat_ofNat']
  omega

theorem places_ascii {text : List Char} (h : ∀ c ∈ text, c.toNat < 0x80) :
    Text.Utf8.places (ascii text) = text.map some := by
  induction text with
  | nil =>
    unfold ascii Text.Utf8.places
    rfl
  | cons c text ih =>
    have hc := h c List.mem_cons_self
    have hlt : UInt8.ofNat c.toNat < 0x80 := by
      rw [UInt8.lt_iff_toNat_lt, toNat_ascii hc]
      exact hc
    have hrest := ih fun d hd => h d (List.mem_cons_of_mem _ hd)
    unfold ascii at hrest ⊢
    rw [List.map_cons, Text.Utf8.places, if_pos hlt, toNat_ascii hc, Char.ofNat_toNat, hrest, List.map_cons]

theorem decode?_ascii {text : List Char} (h : ∀ c ∈ text, c.toNat < 0x80) :
    Text.decode? (ascii text) = some text := by
  unfold Text.decode?
  rw [places_ascii h, mapM_eq_some_iff, List.map_id]

theorem decodeLossy_ascii {text : List Char} (h : ∀ c ∈ text, c.toNat < 0x80) :
    Text.decodeLossy (ascii text) = text := by
  unfold Text.decodeLossy
  rw [places_ascii h, List.map_map]
  exact List.map_id text

theorem encode_ascii {s : String} (h : ∀ c ∈ s.toList, c.toNat < 0x80) : Text.encode s = ascii s.toList := by
  unfold Text.encode ascii
  generalize s.toList = text at h
  induction text with
  | nil => rfl
  | cons c text ih =>
    have hc := h c List.mem_cons_self
    have hrest := ih fun d hd => h d (List.mem_cons_of_mem _ hd)
    have hsize : c.utf8Size = 1 := by
      rw [Char.utf8Size_eq_one_iff, UInt32.le_iff_toNat_le]
      exact Nat.le_of_lt_succ hc
    rw [List.flatMap_cons, hrest, String.utf8EncodeChar_eq_singleton hsize]
    rfl

section Cut

/-- Bytes that end neither a field nor a line and are never left out. -/
def Clear (field : Bytes) : Prop :=
  ∀ b ∈ field, 0x20 < b ∧ b ≠ quote

variable {field first second rest line : Bytes}

theorem clear_ascii {text : List Char} (h : IsPlain text) : Clear (ascii text) := by
  intro b hb
  obtain ⟨c, hc, rfl⟩ := List.mem_map.1 hb
  obtain ⟨hlow, hhigh, hquote⟩ := h.visible c hc
  have hnat := toNat_ascii (show c.toNat < 0x80 by omega)
  constructor
  · rw [UInt8.lt_iff_toNat_lt, hnat]
    exact hlow
  · rw [Ne, ← UInt8.toNat_inj, hnat]
    exact hquote

theorem Clear.not_mem (h : Clear field) {b : UInt8} (hb : b ≤ 0x20) : b ∉ field := by
  intro hmem
  exact absurd hb (UInt8.not_le.2 (h b hmem).1)

theorem Clear.not_mem_quote (h : Clear field) : quote ∉ field :=
  fun hmem => (h quote hmem).2 rfl

theorem not_mem_row {b : UInt8} (hb : b ≠ 0x20) (hfirst : b ∉ first) (hsecond : b ∉ second) :
    b ∉ first ++ 0x20 :: second := by
  rw [List.mem_append, List.mem_cons]
  rintro (h | h | h)
  · exact hfirst h
  · exact hb h
  · exact hsecond h

theorem cutLine_line (hnewline : newline ∉ line) (hquote : quote ∉ line) (rest : Bytes) :
    cutLine false (line ++ newline :: rest) = (line, rest) := by
  induction line with
  | nil => simp [cutLine]
  | cons b line ih =>
    rw [List.mem_cons, not_or] at hnewline hquote
    have hrest := ih hnewline.2 hquote.2
    have hline : (b == newline) = false := beq_eq_false_iff_ne.2 (Ne.symm hnewline.1)
    have hopen : (b == quote) = false := beq_eq_false_iff_ne.2 (Ne.symm hquote.1)
    rw [List.cons_append, cutLine]
    simp [hline, hopen, hrest]

theorem scanField_append (h : Clear field) (quoted : Bool) (rest : Bytes) :
    scanField 0x20 quoted false (field ++ rest) =
      { scanField 0x20 quoted false rest with field := field ++ (scanField 0x20 quoted false rest).field } := by
  induction field with
  | nil => rfl
  | cons b field ih =>
    have hrest := ih fun c hc => h c (List.mem_cons_of_mem _ hc)
    have hblank : (b == 0x20) = false :=
      beq_eq_false_iff_ne.2 fun hb => h.not_mem (UInt8.le_refl 0x20) (hb ▸ List.mem_cons_self)
    have hline : (b == newline) = false :=
      beq_eq_false_iff_ne.2 fun hb => h.not_mem (b := newline) (by decide) (hb ▸ List.mem_cons_self)
    have hopen : (b == quote) = false := beq_eq_false_iff_ne.2 (h b List.mem_cons_self).2
    rw [List.cons_append, scanField]
    simp [hblank, hline, hopen, hrest]

theorem cutField_blank (h : Clear field) (rest : Bytes) :
    cutField 0x20 (field ++ 0x20 :: rest) = ⟨field, .separator, rest⟩ := by
  unfold cutField
  rw [scanField_append h]
  simp [scanField]

theorem cutField_newline (h : Clear field) (rest : Bytes) :
    cutField 0x20 (field ++ newline :: rest) = ⟨field, .line, rest⟩ := by
  unfold cutField
  rw [scanField_append h]
  simp [scanField, newline]

theorem cutField_end (h : Clear field) : cutField 0x20 field = ⟨field, .data, []⟩ := by
  have happend := scanField_append h (field.head? == some quote) []
  rw [List.append_nil] at happend
  unfold cutField
  rw [happend]
  simp [scanField]

theorem fields_row (hfirst : Clear first) (hsecond : Clear second) :
    fields 0x20 (first ++ 0x20 :: second) = [first, second] := by
  have hlast : fields 0x20 second = [second] := by
    cases second with
    | nil => simp [fields]
    | cons b second =>
      rw [fields]
      simp [cutField_end hsecond]
  obtain ⟨b, tail, hcons⟩ : ∃ b tail, first ++ 0x20 :: second = b :: tail :=
    List.exists_cons_of_ne_nil (by simp)
  rw [hcons, fields, ← hcons]
  simp [cutField_blank hfirst, hlast]

theorem dropReturn_of_not_mem (h : carriageReturn ∉ field) : dropReturn field = field := by
  unfold dropReturn
  rw [if_neg]
  rw [beq_iff_eq]
  intro hlast
  exact h (List.mem_of_getLast? hlast)

theorem trimLine_of_not_mem (h : carriageReturn ∉ line) : trimLine line = line := by
  unfold trimLine
  rw [dropReturn_of_not_mem h, ite_self]

theorem unquote_of_not_mem (h : quote ∉ field) : unquote field = field := by
  unfold unquote
  rw [if_neg]
  rw [beq_iff_eq]
  intro hhead
  exact h (List.mem_of_head? hhead)

theorem innerField_of_not_mem (h : quote ∉ field) : innerField field = field := by
  unfold innerField
  rw [unquote_of_not_mem h, ite_self]

theorem Clear.dropWhile_isBlank (h : Clear field) : field.dropWhile Column.isBlank = field := by
  cases field with
  | nil => rfl
  | cons b field =>
    have hblank : Column.isBlank b = false := by
      unfold Column.isBlank
      rw [Bool.or_eq_false_iff, beq_eq_false_iff_ne, beq_eq_false_iff_ne]
      constructor
      · rintro rfl
        exact h.not_mem (by decide) List.mem_cons_self
      · rintro rfl
        exact h.not_mem (by decide) List.mem_cons_self
    rw [List.dropWhile_cons, hblank]
    rfl

theorem cutRow?_row (hfirst : Clear first) (hsecond : Clear second) (rest : Bytes) :
    cutRow? 0x20 2 (first ++ 0x20 :: (second ++ newline :: rest)) = some ⟨[first, second], rest⟩ := by
  simp [cutRow?, cutField_blank hfirst, cutField_newline hsecond,
    dropReturn_of_not_mem (hfirst.not_mem (b := carriageReturn) (by decide)),
    dropReturn_of_not_mem (hsecond.not_mem (b := carriageReturn) (by decide))]

end Cut

/-- A row of two fields with a blank between them, without and with its line end. -/
def rowBytes (row : List Char × List Char) : Bytes :=
  ascii row.1 ++ 0x20 :: ascii row.2

def lineBytes (row : List Char × List Char) : Bytes :=
  rowBytes row ++ [newline]

section Pairs

variable {rows : List (List Char × List Char)}

/-- All fields of the rows are plain. -/
def ArePlain (rows : List (List Char × List Char)) : Prop :=
  ∀ row ∈ rows, IsPlain row.1 ∧ IsPlain row.2

theorem cutLine_rows {row : List Char × List Char} (hfirst : IsPlain row.1) (hsecond : IsPlain row.2) (rest : Bytes) :
    cutLine false (lineBytes row ++ rest) = (rowBytes row, rest) := by
  unfold lineBytes
  rw [List.append_assoc, List.singleton_append]
  apply cutLine_line
  · exact not_mem_row (by decide) ((clear_ascii hfirst).not_mem (by decide))
      ((clear_ascii hsecond).not_mem (by decide))
  · exact not_mem_row (by decide) (clear_ascii hfirst).not_mem_quote (clear_ascii hsecond).not_mem_quote

theorem lineBytes_cons (row : List Char × List Char) (rest : Bytes) : ∃ b tail, lineBytes row ++ rest = b :: tail :=
  List.exists_cons_of_ne_nil (by simp [lineBytes])

theorem lines_rows (h : ArePlain rows) : lines (rows.flatMap lineBytes) = rows.map rowBytes := by
  induction rows with
  | nil =>
    unfold lines
    rfl
  | cons row rows ih =>
    obtain ⟨hfirst, hsecond⟩ := h row List.mem_cons_self
    have hrest := ih fun r hr => h r (List.mem_cons_of_mem _ hr)
    obtain ⟨b, tail, hcons⟩ := lineBytes_cons row (rows.flatMap lineBytes)
    rw [List.flatMap_cons, hcons, lines, ← hcons, cutLine_rows hfirst hsecond, hrest, List.map_cons]

theorem rows?_rows (h : ArePlain rows) :
    rows? 0x20 1 (rows.flatMap lineBytes) = some (rows.map fun row => [ascii row.1, ascii row.2]) := by
  induction rows with
  | nil =>
    unfold rows?
    rfl
  | cons row rows ih =>
    obtain ⟨hfirst, hsecond⟩ := h row List.mem_cons_self
    have hrest := ih fun r hr => h r (List.mem_cons_of_mem _ hr)
    have hbytes : (row :: rows).flatMap lineBytes =
        ascii row.1 ++ 0x20 :: (ascii row.2 ++ newline :: rows.flatMap lineBytes) := by
      simp [lineBytes, rowBytes]
    have hcut := cutRow?_row (clear_ascii hfirst) (clear_ascii hsecond) (rows.flatMap lineBytes)
    rw [hbytes, rows?, dif_neg (by simp)]
    split
    · next h =>
      rw [hcut] at h
      cases h
    · next r h =>
      rw [hcut] at h
      cases h
      rw [hrest]
      rfl

/-- The kind of a column is that of its first texts. -/
def kindOf (texts : List (List Char)) : Kind :=
  .ofAll ((texts.take window).map Kind.ofText)

/-- One column of plain texts, read by the kind of its first ones. -/
def readTexts (name : List Char) (texts : List (List Char)) : Except Error (String × Column) :=
  match Column.ofFields? (kindOf texts) (texts.map ascii) with
  | some column => .ok (String.ofList name, column)
  | none => .error (.unreadable (String.ofList name))

theorem IsPlain.ascii_lt {text : List Char} (h : IsPlain text) : ∀ c ∈ text, c.toNat < 0x80 := by
  intro c hc
  have hvisible := h.visible c hc
  omega

theorem fieldKind?_ascii {text : List Char} (h : IsPlain text) : fieldKind? (ascii text) = some (.ofText text) := by
  have hempty : (ascii text).isEmpty = false := by
    simp [ascii, h.nonempty]
  unfold fieldKind?
  rw [hempty, innerField_of_not_mem (clear_ascii h).not_mem_quote, decode?_ascii h.ascii_lt]
  simp only [Bool.false_eq_true, ↓reduceIte]
  split
  · next rest hquote =>
    cases hquote
    exact absurd rfl (h.visible '"' List.mem_cons_self).2.2
  · next h' => 
    cases h'
    rfl
  · next h' => cases h'

theorem fields_rowBytes {row : List Char × List Char} (hfirst : IsPlain row.1) (hsecond : IsPlain row.2) :
    fields 0x20 (trimLine (rowBytes row)) = [ascii row.1, ascii row.2] := by
  have hreturn : carriageReturn ∉ rowBytes row :=
    not_mem_row (by decide) ((clear_ascii hfirst).not_mem (by decide)) ((clear_ascii hsecond).not_mem (by decide))
  rw [trimLine_of_not_mem hreturn]
  exact fields_row (clear_ascii hfirst) (clear_ascii hsecond)

theorem names_pair {first second : String} (hne : first ≠ second) : names [first, second] = [first, second] := by
  simp [names, hne, List.count_cons]

theorem foldl_addColumn_pair {first second : String} (hne : first ≠ second) (kind kind' : Kind) :
    [(first, kind), (second, kind')].foldl addColumn [] = [(first, kind), (second, kind')] := by
  simp [addColumn, hne]

/-- The kinds of both columns, the window being the same for both. -/
theorem columnKind_rows (h : ArePlain rows) :
    let below := ((rows.map rowBytes).take window).map fun line => fields 0x20 (trimLine line)
    columnKind below 0 = kindOf (rows.map (·.1)) ∧ columnKind below 1 = kindOf (rows.map (·.2)) := by
  intro below
  have hwindow : below = (rows.take window).map fun row => [ascii row.1, ascii row.2] := by
    unfold below
    rw [← List.map_take, List.map_map]
    apply List.map_congr_left
    intro row hrow
    obtain ⟨hfirst, hsecond⟩ := h row (List.mem_of_mem_take hrow)
    exact fields_rowBytes hfirst hsecond
  unfold columnKind kindOf
  rw [hwindow, List.filterMap_map, List.filterMap_map, ← List.map_take, ← List.map_take, List.map_map, List.map_map,
    ← List.filterMap_eq_map, ← List.filterMap_eq_map]
  constructor
  · congr 1
    apply List.filterMap_congr
    intro row hrow
    exact fieldKind?_ascii (h row (List.mem_of_mem_take hrow)).1
  · congr 1
    apply List.filterMap_congr
    intro row hrow
    exact fieldKind?_ascii (h row (List.mem_of_mem_take hrow)).2

theorem schema_rows {header : List Char × List Char} (hheader : IsPlain header.1 ∧ IsPlain header.2)
    (hne : header.1 ≠ header.2) (h : ArePlain rows) :
    schema 0x20 (rowBytes header) (rows.map rowBytes) =
      [(String.ofList header.1, kindOf (rows.map (·.1))), (String.ofList header.2, kindOf (rows.map (·.2)))] := by
  obtain ⟨hfirst, hsecond⟩ := columnKind_rows h
  have hname {text : List Char} (ht : IsPlain text) :
      String.ofList (Text.decodeLossy (innerField (ascii text))) = String.ofList text := by
    rw [innerField_of_not_mem (clear_ascii ht).not_mem_quote, decodeLossy_ascii ht.ascii_lt]
  have hstring : String.ofList header.1 ≠ String.ofList header.2 := fun heq => hne (String.ofList_injective heq)
  unfold schema
  simp only [fields_rowBytes hheader.1 hheader.2, List.map_cons, List.map_nil, hname hheader.1, hname hheader.2,
    names_pair hstring, List.mapIdx_cons, List.mapIdx_nil, hfirst, hsecond, Nat.zero_add]
  exact foldl_addColumn_pair hstring _ _

/-- A table of plain rows is read column by column; the first column that cannot be read is reported. -/
theorem ofBytes_rows {header : List Char × List Char} (hheader : IsPlain header.1 ∧ IsPlain header.2)
    (hne : header.1 ≠ header.2) (h : ArePlain rows) :
    ofBytes 0x20 ((header :: rows).flatMap lineBytes) = do
      let first ← readTexts header.1 (rows.map (·.1))
      let second ← readTexts header.2 (rows.map (·.2))
      return ⟨[first, second]⟩ := by
  have hall : ArePlain (header :: rows) := by
    intro row hrow
    rcases List.mem_cons.1 hrow with rfl | hrow
    · exact hheader
    · exact h row hrow
  have hcontent : ((header :: rows).flatMap lineBytes).dropWhile (fun b => b == newline || b == carriageReturn) =
      (header :: rows).flatMap lineBytes ∧
      dropMark ((header :: rows).flatMap lineBytes) = (header :: rows).flatMap lineBytes := by
    obtain ⟨c, text, htext⟩ := List.exists_cons_of_ne_nil hheader.1.nonempty
    have hvisible := hheader.1.visible c (htext ▸ List.mem_cons_self)
    have hnat := toNat_ascii (show c.toNat < 0x80 by omega)
    have hbytes : ∃ tail, (header :: rows).flatMap lineBytes = UInt8.ofNat c.toNat :: tail := by
      rw [List.flatMap_cons, lineBytes, rowBytes, htext]
      exact ⟨_, rfl⟩
    obtain ⟨tail, hbytes⟩ := hbytes
    have hother (b : UInt8) (hb : c.toNat ≠ b.toNat) : (UInt8.ofNat c.toNat == b) = false := by
      rw [beq_eq_false_iff_ne, Ne, ← UInt8.toNat_inj, hnat]
      exact hb
    have hline := hother newline (by change _ ≠ 10; omega)
    have hreturn := hother carriageReturn (by change _ ≠ 13; omega)
    have hmark := hother 0xEF (by change _ ≠ 239; omega)
    rw [hbytes]
    constructor
    · rw [List.dropWhile_cons, hline, hreturn]
      rfl
    · unfold dropMark
      split
      · next h =>
        rw [(List.cons.inj h).1] at hmark
        cases hmark
      · rfl
  have hcells (i : Nat) (cell : List Char × List Char → List Char)
      (hcell : ∀ row : List Char × List Char, [ascii row.1, ascii row.2].getD i [] = ascii (cell row)) :
      (rows.map fun row => [ascii row.1, ascii row.2]).map (fun row => row.getD i []) = (rows.map cell).map ascii := by
    rw [List.map_map, List.map_map]
    apply List.map_congr_left
    intro row _
    exact hcell row
  unfold ofBytes
  simp only [hcontent.1, hcontent.2, lines_rows hall, List.map_cons, schema_rows hheader hne h]
  have hlength : ¬ [(String.ofList header.1, kindOf (rows.map (·.1))),
      (String.ofList header.2, kindOf (rows.map (·.2)))].length ≤ 1 := by simp
  rw [if_neg hlength, List.flatMap_cons, cutLine_rows hheader.1 hheader.2]
  have hrows := rows?_rows h
  have hfirst := hcells 0 (·.1) fun _ => rfl
  have hsecond := hcells 1 (·.2) fun _ => rfl
  simp only [List.length_cons, List.length_nil, Nat.zero_add, Nat.add_one_sub_one, hrows, List.zipIdx_cons,
    List.zipIdx_nil, List.mapM_cons, List.mapM_nil, hfirst, hsecond]
  unfold readTexts
  cases Column.ofFields? (kindOf (rows.map (·.1))) ((rows.map (·.1)).map ascii) with
  | none => rfl
  | some first =>
    cases Column.ofFields? (kindOf (rows.map (·.2))) ((rows.map (·.2)).map ascii) with
    | none => rfl
    | some second => rfl

end Pairs

section Numbers

variable {texts : List (List Char)}

theorem numberCell?_ascii {α : Type} (parse : List Char → Option α) {text : List Char} (h : IsPlain text) :
    Column.numberCell? parse (ascii text) = (parse text).map some := by
  have hclear := clear_ascii h
  have hempty : (ascii text).isEmpty = false := by
    simp [ascii, h.nonempty]
  unfold Column.numberCell?
  simp only [unquote_of_not_mem hclear.not_mem_quote, hclear.dropWhile_isBlank, hempty, decode?_ascii h.ascii_lt,
    Bool.false_eq_true, ↓reduceIte, Option.bind_some]

theorem mapM_numberCell? {α : Type} (parse : List Char → Option α) (h : ∀ text ∈ texts, IsPlain text) :
    (texts.map ascii).mapM (Column.numberCell? parse) = (texts.mapM parse).map fun cells => cells.map some := by
  induction texts with
  | nil => rfl
  | cons text texts ih =>
    have hrest := ih fun t ht => h t (List.mem_cons_of_mem _ ht)
    rw [List.map_cons, List.mapM_cons, List.mapM_cons, numberCell?_ascii parse (h text List.mem_cons_self), hrest]
    cases parse text with
    | none => rfl
    | some cell =>
      cases texts.mapM parse with
      | none => rfl
      | some cells => rfl

/-- Among numbers a single real one makes the whole column real. -/
theorem ofAll_numbers {kinds : List Kind} (hne : kinds ≠ [])
    (h : ∀ kind ∈ kinds, kind = .integer ∨ kind = .real) :
    Kind.ofAll kinds = if Kind.real ∈ kinds then .real else .integer := by
  obtain ⟨first, rest, rfl⟩ := List.exists_cons_of_ne_nil hne
  have hfirst := h first List.mem_cons_self
  have hrest : ∀ kind ∈ rest, kind = .integer ∨ kind = .real := fun kind hk => h kind (List.mem_cons_of_mem _ hk)
  clear h hne
  unfold Kind.ofAll
  simp only
  induction rest generalizing first with
  | nil =>
    rcases hfirst with rfl | rfl
    · rfl
    · rfl
  | cons second rest ih =>
    have hsecond := hrest second List.mem_cons_self
    have hlater : ∀ kind ∈ rest, kind = .integer ∨ kind = .real := fun kind hk =>
      hrest kind (List.mem_cons_of_mem _ hk)
    rw [List.foldl_cons]
    rcases hfirst with rfl | rfl
    · rcases hsecond with rfl | rfl
      · rw [show Kind.join .integer .integer = .integer from rfl, ih _ (.inl rfl) hlater]
        simp
      · rw [show Kind.join .integer .real = .real from rfl, ih _ (.inr rfl) hlater]
        simp
    · have hjoin : Kind.join .real second = .real := by
        rcases hsecond with rfl | rfl
        · rfl
        · rfl
      rw [hjoin, ih _ (.inr rfl) hlater]
      simp

end Numbers

end WorkloadAtlas.Table
