import WorkloadAtlas.Proofs.Numerals
import WorkloadAtlas.Yaml
/-!
Scalars on a single line: words of plain characters, numbers, and texts of printable characters in single quotes. Each
is read back from what is written of it, wherever it stands.
-/

namespace WorkloadAtlas.Yaml

/-- The printable characters of ASCII. -/
def IsPrintable (c : Char) : Prop :=
  0x20 ≤ c.toNat ∧ c.toNat ≤ 0x7E

theorem IsPrintable.ne {c x : Char} (h : IsPrintable c) (hx : x.toNat < 0x20 ∨ 0x7E < x.toNat) : c ≠ x := by
  rintro rfl
  unfold IsPrintable at h
  omega

theorem IsPrintable.isBreak {c : Char} (h : IsPrintable c) : isBreak c = false := by
  simp only [Yaml.isBreak, Bool.or_eq_false_iff, beq_eq_false_iff_ne]
  exact ⟨⟨h.ne (by decide), h.ne (by decide)⟩, h.ne (by decide)⟩

theorem IsPrintable.isSpace {c : Char} (h : IsPrintable c) (hc : c ≠ ' ') : isSpace c = false := by
  simp only [Yaml.isSpace, isBlank, h.isBreak, Bool.or_false, Bool.or_eq_false_iff, beq_eq_false_iff_ne]
  exact ⟨hc, h.ne (by decide)⟩

namespace Mark

/-- The mark behind characters of which none breaks the line. -/
def behind (m : Mark) (text : List Char) : Mark :=
  ⟨m.index + text.length, m.line, m.column + text.length⟩

@[simp] theorem behind_index (m : Mark) (text : List Char) : (m.behind text).index = m.index + text.length := rfl
@[simp] theorem behind_line (m : Mark) (text : List Char) : (m.behind text).line = m.line := rfl
@[simp] theorem behind_column (m : Mark) (text : List Char) : (m.behind text).column = m.column + text.length := rfl

theorem behind_append (m : Mark) (a b : List Char) : (m.behind a).behind b = m.behind (a ++ b) := by
  simp only [behind, List.length_append, Nat.add_assoc]

end Mark

namespace Cursor

theorem skip_append {text : List Char} (h : ∀ c ∈ text, isBreak c = false) (rest : List Char) (m : Mark) :
    skip text.length ⟨text ++ rest, m⟩ = ⟨rest, m.behind text⟩ := by
  induction text generalizing m with
  | nil => rfl
  | cons c text ih =>
    have hc := h c List.mem_cons_self
    rw [List.length_cons, List.cons_append, skip, ih fun c hc => h c (List.mem_cons_of_mem _ hc)]
    simp [Mark.behind, Mark.after, hc]
    omega

/-- A line end and the blanks that the next line starts with. -/
theorem skip_line {blanks : List Char} (h : ∀ c ∈ blanks, c = ' ') (rest : List Char) (m : Mark) :
    skip (blanks.length + 1) ⟨'\n' :: (blanks ++ rest), m⟩ = ⟨rest, (m.after '\n').behind blanks⟩ := by
  rw [skip]
  apply skip_append
  intro c hc
  rw [h c hc]
  rfl

theorem atDocumentMark_of_column {c : Cursor} (h : c.column ≠ 0) : c.atDocumentMark = false := by
  simp [atDocumentMark, startsWithMark, h]

end Cursor

namespace Plain

/-- Characters that neither end a word nor a line. -/
structure IsWord (text : List Char) : Prop where
  head : ∃ c rest, text = c :: rest ∧ c ≠ '-' ∧ c ≠ '.' ∧ c ≠ '#'
  chars : ∀ c ∈ text, isSpace c = false ∧ c ≠ ':'

section Word

variable {text rest : List Char} {m : Mark} {limit : Int}

theorem IsWord.isBreak (h : IsWord text) : ∀ c ∈ text, Yaml.isBreak c = false := by
  intro c hc
  have hspace := (h.chars c hc).1
  rw [isSpace, Bool.or_eq_false_iff] at hspace
  exact hspace.2

theorem word_append (h : ∀ c ∈ text, isSpace c = false ∧ c ≠ ':') (hrest : word false rest = .ok []) :
    word false (text ++ rest) = .ok text := by
  induction text with
  | nil => exact hrest
  | cons c text ih =>
    obtain ⟨hspace, hcolon⟩ := h c List.mem_cons_self
    rw [List.cons_append, word, ih fun c hc => h c (List.mem_cons_of_mem _ hc)]
    simp [hspace, hcolon, Except.map]

theorem IsWord.starts (h : IsWord text) (rest : List Char) (m : Mark) :
    ((⟨text ++ rest, m⟩ : Cursor).atDocumentMark || (⟨text ++ rest, m⟩ : Cursor).peek? == some '#') = false := by
  obtain ⟨c, tail, rfl, hminus, hpoint, hcomment⟩ := h.head
  simp [Cursor.atDocumentMark, Cursor.startsWithMark, Cursor.peek?, hminus.symm, hpoint.symm, hcomment]

/-- A word that a colon follows is a scalar of its own. -/
theorem scan_colon (h : IsWord text) (hrest : endsWord rest = true) :
    scan false limit ⟨text ++ ':' :: rest, m⟩ = .ok ⟨text, ⟨':' :: rest, m.behind text⟩, false⟩ := by
  have hword : word false (text ++ ':' :: rest) = .ok text := by
    apply word_append h.chars
    rw [word]
    simp [isSpace, isBlank, Yaml.isBreak, hrest]
  have hstarts := h.starts (':' :: rest) m
  have hskip := Cursor.skip_append h.isBreak (':' :: rest) m
  unfold scan
  rw [words, hstarts, hword]
  simp only [bind, Except.bind, Bool.false_eq_true, ↓reduceIte, hskip]
  rfl

theorem hasEarlyTab_eq_false {gap : List Char} (h : ∀ c ∈ gap, c ≠ '\t') : hasEarlyTab limit gap = false := by
  have hfold (text : List Char) (htext : ∀ c ∈ text, c ≠ '\t') (column : Nat) :
      (text.foldl (fun (seen : Bool × Nat) c =>
        if Yaml.isBreak c then (seen.1, 0)
        else (seen.1 || (c == '\t' && (seen.2 : Int) < limit), seen.2 + 1)) (false, column)).1 = false := by
    induction text generalizing column with
    | nil => rfl
    | cons c text ih =>
      have hc := htext c List.mem_cons_self
      rw [List.foldl_cons]
      simp only [beq_eq_false_iff_ne.2 hc, Bool.false_and, Bool.or_false]
      split <;> exact ih (fun c hc => htext c (List.mem_cons_of_mem _ hc)) _
  exact hfold (gap.dropWhile isBlank) (fun c hc => h c (List.dropWhile_subset _ hc)) 0

/-- A word at the end of a line is a scalar of its own if the next line is indented less than `limit`. -/
theorem scan_line (h : IsWord text) {blanks : List Char} (hblanks : ∀ c ∈ blanks, c = ' ')
    (hrest : ∀ c ∈ rest.head?, isSpace c = false) (hlimit : (blanks.length : Int) < limit) :
    scan false limit ⟨text ++ '\n' :: (blanks ++ rest), m⟩ =
      .ok ⟨text, ⟨rest, ((m.behind text).after '\n').behind blanks⟩, true⟩ := by
  have hword : word false (text ++ '\n' :: (blanks ++ rest)) = .ok text := word_append h.chars rfl
  have hstarts := h.starts ('\n' :: (blanks ++ rest)) m
  have hskip := Cursor.skip_append h.isBreak ('\n' :: (blanks ++ rest)) m
  have hgap : ∀ c ∈ '\n' :: blanks, isSpace c = true := by
    intro c hc
    rcases List.mem_cons.1 hc with rfl | hc
    · rfl
    · rw [hblanks c hc]
      rfl
  have htake := (Number.takeWhile_append hgap hrest).1
  have htab : hasEarlyTab limit ('\n' :: blanks) = false := by
    apply hasEarlyTab_eq_false
    intro c hc
    rcases List.mem_cons.1 hc with rfl | hc
    · decide
    · rw [hblanks c hc]
      decide
  have hnext := Cursor.skip_line hblanks rest (m.behind text)
  have hcolumn : (((m.behind text).after '\n').behind blanks).column = blanks.length := Nat.zero_add _
  have hbroken : ('\n' :: blanks).any Yaml.isBreak = true := rfl
  unfold scan
  rw [words, hstarts, hword]
  simp only [List.cons_append] at htake
  simp only [bind, Except.bind, Bool.false_eq_true, ↓reduceIte, hskip, htake, htab, List.length_cons, hnext,
    Cursor.column, hcolumn, hlimit, hbroken]
  rfl

end Word

end Plain

namespace Quoted

/-- In single quotes a quote is written twice. -/
def doubled : List Char → List Char
  | [] => []
  | c :: rest => if c = '\'' then '\'' :: '\'' :: doubled rest else c :: doubled rest

theorem doubled_append (a b : List Char) : doubled (a ++ b) = doubled a ++ doubled b := by
  induction a with
  | nil => rfl
  | cons c a ih =>
    rw [List.cons_append, doubled, doubled, ih]
    split
    · rfl
    · rfl

theorem doubled_eq_self {text : List Char} (h : ∀ c ∈ text, c ≠ '\'') : doubled text = text := by
  induction text with
  | nil => rfl
  | cons c rest ih =>
    rw [doubled, if_neg (h c List.mem_cons_self), ih fun c hc => h c (List.mem_cons_of_mem _ hc)]

theorem mem_doubled {text : List Char} {c : Char} (h : c ∈ doubled text) : c ∈ text := by
  induction text with
  | nil => cases h
  | cons x rest ih =>
    rw [doubled] at h
    split at h
    · next hx =>
      rcases List.mem_cons.1 h with rfl | h
      · exact List.mem_cons.2 (.inl hx.symm)
      · rcases List.mem_cons.1 h with rfl | h
        · exact List.mem_cons.2 (.inl hx.symm)
        · exact List.mem_cons_of_mem _ (ih h)
    · rcases List.mem_cons.1 h with rfl | h
      · exact List.mem_cons_self
      · exact List.mem_cons_of_mem _ (ih h)

theorem singlePiece_cons {c : Char} (hc : c ≠ '\'') (hspace : isSpace c = false) (rest : List Char) :
    singlePiece (c :: rest) =
      { singlePiece rest with text := c :: (singlePiece rest).text, used := (singlePiece rest).used + 1 } := by
  rw [singlePiece]
  · simp [hc, hspace]
  · rintro tail rfl
    exact absurd rfl hc

/-- A word is taken up whole, whatever follows it. -/
theorem singlePiece_doubled {word : List Char} (h : ∀ c ∈ word, isSpace c = false) (rest : List Char) :
    singlePiece (doubled word ++ rest) =
      { singlePiece rest with
        text := word ++ (singlePiece rest).text
        used := (doubled word).length + (singlePiece rest).used } := by
  induction word with
  | nil => simp [doubled]
  | cons c word ih =>
    have hrest := ih fun c hc => h c (List.mem_cons_of_mem _ hc)
    by_cases hc : c = '\''
    · subst hc
      rw [doubled, if_pos rfl]
      simp only [List.cons_append, singlePiece, hrest, List.length_cons]
      congr 2
      omega
    · rw [doubled, if_neg hc, List.cons_append, singlePiece_cons hc (h c List.mem_cons_self), hrest]
      simp only [List.cons_append, List.length_cons]
      congr 2
      omega

/-- A quote that stands alone behind the word closes the scalar. -/
theorem singlePiece_closed {word rest : List Char} (h : ∀ c ∈ word, isSpace c = false)
    (hrest : rest.head? ≠ some '\'') :
    singlePiece (doubled word ++ '\'' :: rest) = ⟨⟨word, (doubled word).length + 1⟩, .closed⟩ := by
  have hquote : singlePiece ('\'' :: rest) = ⟨⟨[], 1⟩, .closed⟩ := by
    rw [singlePiece]
    · rfl
    · rintro tail - rfl
      exact absurd rfl hrest
  rw [singlePiece_doubled h, hquote, List.append_nil]

theorem singlePiece_gap {word : List Char} (h : ∀ c ∈ word, isSpace c = false) (rest : List Char) :
    singlePiece (doubled word ++ ' ' :: rest) = ⟨⟨word, (doubled word).length⟩, .gap⟩ := by
  have hblank : singlePiece (' ' :: rest) = ⟨⟨[], 0⟩, .gap⟩ := by
    rw [singlePiece]
    · rfl
    · intro tail heq
      cases heq
  rw [singlePiece_doubled h, hblank, List.append_nil, Nat.add_zero]

/-- A word, the blanks behind it, and a rest that starts with a word again. -/
theorem exists_word (text : List Char) :
    ∃ word blanks rest, text = word ++ (blanks ++ rest) ∧ (∀ c ∈ word, c ≠ ' ') ∧ (∀ c ∈ blanks, c = ' ') ∧
      (∀ c ∈ rest.head?, c ≠ ' ') ∧ (blanks = [] → rest = []) := by
  refine ⟨text.takeWhile (· != ' '), (text.dropWhile (· != ' ')).takeWhile (· == ' '),
    (text.dropWhile (· != ' ')).dropWhile (· == ' '), ?_, ?_, ?_, ?_, ?_⟩
  · rw [List.takeWhile_append_dropWhile, List.takeWhile_append_dropWhile]
  · intro c hc
    simpa using List.mem_takeWhile_imp hc
  · intro c hc
    simpa using List.mem_takeWhile_imp hc
  · intro c hc
    have hnot := List.head?_dropWhile_not (· == ' ') (text.dropWhile (· != ' '))
    rw [hc] at hnot
    simpa using hnot
  · have hnot := List.head?_dropWhile_not (· != ' ') text
    cases hrest : text.dropWhile (· != ' ') with
    | nil => simp
    | cons c rest =>
      rw [hrest] at hnot
      have hc : c = ' ' := by simpa using hnot
      simp [hc]

section Pieces

variable {fuel : Nat} {c : Cursor} {word : List Char} {used : Nat}

theorem pieces_of_closed (hmark : c.atDocumentMark = false) (hne : c.rest ≠ [])
    (hpiece : singlePiece c.rest = ⟨⟨word, used⟩, .closed⟩) :
    pieces false (fuel + 1) c = .ok ⟨word, c.skip used⟩ := by
  rw [pieces, hmark, List.isEmpty_eq_false_iff.2 hne, piece, hpiece]
  rfl

theorem pieces_of_gap (hmark : c.atDocumentMark = false) (hne : c.rest ≠ [])
    (hpiece : singlePiece c.rest = ⟨⟨word, used⟩, .gap⟩) {gap : List Char}
    (hgap : (c.skip used).rest.takeWhile isSpace = gap) {more : Scanned}
    (hmore : pieces false fuel ((c.skip used).skip gap.length) = .ok more) :
    pieces false (fuel + 1) c = .ok ⟨word ++ foldGap gap ++ more.text, more.cursor⟩ := by
  subst hgap
  rw [pieces, hmark, List.isEmpty_eq_false_iff.2 hne, piece, hpiece]
  simp only [bind, Except.bind, Bool.false_eq_true, ↓reduceIte, hmore]
  rfl

end Pieces

theorem isSpace_head_doubled {text : List Char} (printable : ∀ c ∈ text, IsPrintable c)
    (htext : ∀ c ∈ text.head?, c ≠ ' ') (rest : List Char) :
    ∀ c ∈ (doubled text ++ '\'' :: rest).head?, isSpace c = false := by
  intro c hc
  cases text with
  | nil =>
    cases hc
    rfl
  | cons x text =>
    rw [doubled] at hc
    split at hc
    · cases hc
      rfl
    · simp only [List.cons_append, List.head?_cons, Option.mem_some_iff] at hc
      subst hc
      exact (printable x List.mem_cons_self).isSpace (htext x rfl)

theorem foldGap_blanks {blanks : List Char} (h : ∀ c ∈ blanks, c = ' ') : foldGap blanks = blanks := by
  have hnone : blanks.filter isBreak = [] := by
    rw [List.filter_eq_nil_iff]
    intro c hc
    rw [h c hc]
    decide
  rw [foldGap, hnone]

/-- Words and the blanks between them are read up to the quote that stands alone. -/
theorem pieces_doubled {text rest : List Char} (printable : ∀ c ∈ text, IsPrintable c)
    (hrest : rest.head? ≠ some '\'') {fuel : Nat} (hfuel : text.length < fuel) {m : Mark} (hm : m.column ≠ 0) :
    pieces false fuel ⟨doubled text ++ '\'' :: rest, m⟩ = .ok ⟨text, rest, m.behind (doubled text ++ ['\''])⟩ := by
  -- Each piece takes up one word and the blanks behind it, so what is left of the text is shorter.
  induction fuel generalizing text m with
  | zero => omega
  | succ fuel ih =>
    have hmark : (⟨doubled text ++ '\'' :: rest, m⟩ : Cursor).atDocumentMark = false :=
      Cursor.atDocumentMark_of_column hm
    have hnonempty : doubled text ++ '\'' :: rest ≠ [] := List.append_ne_nil_of_right_ne_nil _ (List.cons_ne_nil _ _)
    obtain ⟨word, blanks, tail, rfl, hword, hblanks, htail, hlast⟩ := exists_word text
    have hspace : ∀ c ∈ word, isSpace c = false := by
      intro c hc
      exact (printable c (List.mem_append_left _ hc)).isSpace (hword c hc)
    have hline : ∀ c ∈ doubled word, isBreak c = false := by
      intro c hc
      exact (printable c (List.mem_append_left _ (mem_doubled hc))).isBreak
    cases blanks with
    | nil =>
      cases hlast rfl
      simp only [List.append_nil] at hmark hnonempty ⊢
      have hquoted : ∀ c ∈ doubled word ++ ['\''], isBreak c = false := by
        intro c hc
        rcases List.mem_append.1 hc with hc | hc
        · exact hline c hc
        · cases List.mem_singleton.1 hc
          rfl
      have hskip := Cursor.skip_append hquoted rest m
      rw [List.append_assoc, List.length_append] at hskip
      rw [pieces_of_closed hmark hnonempty (singlePiece_closed hspace hrest)]
      exact congrArg (fun cursor => Except.ok (Scanned.mk word cursor)) hskip
    | cons b blanks =>
      have hgap : ∀ c ∈ b :: blanks, isSpace c = true := by
        intro c hc
        rw [hblanks c hc]
        rfl
      have hgapLine : ∀ c ∈ b :: blanks, isBreak c = false := by
        intro c hc
        rw [hblanks c hc]
        decide
      have hdoubled : doubled (b :: blanks) = b :: blanks := by
        apply doubled_eq_self
        intro c hc
        rw [hblanks c hc]
        decide
      have htailPrintable : ∀ c ∈ tail, IsPrintable c := fun c hc =>
        printable c (List.mem_append_right _ (List.mem_append_right _ hc))
      have hshorter : tail.length < fuel := by
        simp only [List.length_append, List.length_cons] at hfuel
        omega
      simp only [doubled_append, hdoubled, List.append_assoc] at hmark hnonempty ⊢
      have hpiece := singlePiece_gap hspace (blanks ++ (doubled tail ++ '\'' :: rest))
      rw [← hblanks b List.mem_cons_self, ← List.cons_append] at hpiece
      have hskip := Cursor.skip_append hline (b :: blanks ++ (doubled tail ++ '\'' :: rest)) m
      have hskipGap := Cursor.skip_append hgapLine (doubled tail ++ '\'' :: rest) (m.behind (doubled word))
      have htake := (Number.takeWhile_append hgap (isSpace_head_doubled htailPrintable htail rest)).1
      have hmore := ih htailPrintable hshorter (m := (m.behind (doubled word)).behind (b :: blanks))
        (by rw [Mark.behind_column, Mark.behind_column]; omega)
      rw [pieces_of_gap hmark hnonempty hpiece (by rw [hskip, htake])
        (by rw [hskip, hskipGap, hmore]), foldGap_blanks hblanks, Mark.behind_append, Mark.behind_append,
        List.append_assoc]

theorem scan_doubled {text rest : List Char} (printable : ∀ c ∈ text, IsPrintable c)
    (hrest : rest.head? ≠ some '\'') (m : Mark) :
    scan false ⟨'\'' :: doubled text ++ '\'' :: rest, m⟩ =
      .ok ⟨text, rest, m.behind ('\'' :: doubled text ++ ['\''])⟩ := by
  have hlength : text.length ≤ (doubled text).length := by
    induction text with
    | nil => exact Nat.zero_le _
    | cons c text ih =>
      have htail := ih fun c hc => printable c (List.mem_cons_of_mem _ hc)
      rw [doubled]
      split <;> simp only [List.length_cons] <;> omega
  have hquote : ∀ c ∈ ['\''], isBreak c = false := by
    intro c hc
    cases List.mem_singleton.1 hc
    rfl
  have hskip := Cursor.skip_append hquote (doubled text ++ '\'' :: rest) m
  have hfuel : text.length < ('\'' :: doubled text ++ '\'' :: rest).length + 1 := by
    simp only [List.length_append, List.length_cons]
    omega
  have hcolumn : (m.behind ['\'']).column ≠ 0 := Nat.succ_ne_zero _
  have hpieces := pieces_doubled printable hrest hfuel hcolumn
  unfold scan
  simp only [List.singleton_append, List.length_singleton] at hskip
  simp only [List.cons_append] at hpieces ⊢
  rw [hskip, hpieces, Mark.behind_append]
  rfl

end Quoted

end WorkloadAtlas.Yaml
