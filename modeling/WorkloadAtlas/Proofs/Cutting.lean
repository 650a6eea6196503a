import WorkloadAtlas.Proofs.Outline
/-!
Cutting a document of two levels into tokens. What is known of a lexer between two tokens is one record, and each
token of the document takes it from one such record to the next.
-/

namespace WorkloadAtlas.Yaml

/-- A place in a document where a token starts or the text ends: what is left, the column, the innermost block with
those around it, and the tokens so far. No token before the place can still become a key. -/
structure Standing where
  rest : List Char
  column : Nat
  indent : Int
  outer : List Int
  keyAllowed : Bool
  found : List Token

namespace Standing

/-- A key in a column of its own starts a mapping. -/
def enter (s : Standing) : Standing :=
  if s.indent < s.column then
    { s with indent := s.column, outer := s.indent :: s.outer, found := s.found ++ [.blockMappingStart] }
  else s

theorem enter_of_lt {s : Standing} (h : s.indent < s.column) : s.enter =
    { s with indent := s.column, outer := s.indent :: s.outer, found := s.found ++ [.blockMappingStart] } := by
  rw [enter, if_pos h]

theorem enter_of_le {s : Standing} (h : s.column ≤ s.indent) : s.enter = s := by
  rw [enter, if_neg h.not_gt]

theorem enter_indent {s : Standing} (h : s.indent ≤ s.column) : s.enter.indent = s.column := by
  rcases h.lt_or_eq with hlt | heq
  · rw [enter_of_lt hlt]
  · rw [enter_of_le heq.ge, heq]

def closeBlocks (column : Int) : List Int → Standing → Standing
  | [], s => s
  | outer :: rest, s =>
    if s.indent ≤ column then s
    else closeBlocks column rest { s with indent := outer, outer := rest, found := s.found ++ [.blockEnd] }

def unindent (s : Standing) (column : Int) : Standing :=
  closeBlocks column s.outer s

theorem unindent_of_le {s : Standing} {column : Int} (h : s.indent ≤ column) : s.unindent column = s := by
  rw [unindent]
  cases s.outer with
  | nil => rfl
  | cons outer rest => rw [closeBlocks, if_pos h]

end Standing

namespace Lexer

/-- The tokens that one token with its number stands for. -/
def spliced (keys : List KeyStart) (number : Nat) (token : Token) : List Token :=
  match keys.find? (·.number == number) with
  | none => [token]
  | some start => if start.opensMapping then [.blockMappingStart, .key, token] else [.key, token]

theorem allTokens_eq (l : Lexer) : l.allTokens = (l.tokens.reverse.mapIdx (spliced l.keys)).flatten := rfl

theorem spliced_of_lt {keys : List KeyStart} {number : Nat} (h : ∀ k ∈ keys, k.number < number) (token : Token) :
    spliced keys number token = [token] := by
  have hnone : keys.find? (·.number == number) = none := by
    rw [List.find?_eq_none]
    intro k hk
    simpa using (h k hk).ne
  rw [spliced, hnone]

theorem spliced_cons_of_lt {start : KeyStart} {keys : List KeyStart} {number : Nat} (h : number < start.number)
    (token : Token) : spliced (start :: keys) number token = spliced keys number token := by
  have hne : (start.number == number) = false := by simpa using h.ne'
  rw [spliced, spliced, List.find?_cons, hne]

structure Stands (l : Lexer) (s : Standing) : Prop where
  rest : l.cursor.rest = s.rest
  column : l.cursor.column = s.column
  indent : l.indent = s.indent
  outer : l.outer = s.outer
  keyAllowed : l.keyAllowed = s.keyAllowed
  candidate : l.candidate = none
  around : l.around = []
  count : l.count = l.tokens.length
  keys : ∀ k ∈ l.keys, k.number < l.count
  allTokens : l.allTokens = s.found

section

variable {l : Lexer} {s : Standing}

theorem Stands.emit (h : l.Stands s) (token : Token) :
    (l.emit token).Stands { s with found := s.found ++ [token] } where
  rest := h.rest
  column := h.column
  indent := h.indent
  outer := h.outer
  keyAllowed := h.keyAllowed
  candidate := h.candidate
  around := h.around
  count := by
    simp only [Lexer.emit, List.length_cons, h.count]
  keys := by
    intro k hk
    exact Nat.lt_succ_of_lt (h.keys k hk)
  allTokens := by
    have hkeys : ∀ k ∈ l.keys, k.number < l.tokens.reverse.length := by
      intro k hk
      rw [List.length_reverse, ← h.count]
      exact h.keys k hk
    have hbefore := h.allTokens
    rw [allTokens_eq] at hbefore ⊢
    simp only [Lexer.emit, List.reverse_cons, List.mapIdx_concat, List.flatten_append, hbefore, spliced_of_lt hkeys,
      List.flatten_singleton]

theorem Stands.closeBlocks (h : l.Stands s) (column : Int) (outer : List Int) :
    (l.closeBlocks column outer).Stands (s.closeBlocks column outer) := by
  induction outer generalizing l s with
  | nil => exact h
  | cons o rest ih =>
    rw [Lexer.closeBlocks, Standing.closeBlocks, Lexer.inFlow, h.around, h.indent]
    by_cases hle : s.indent ≤ column
    · simpa [hle] using h
    · have hnext : { l.emit .blockEnd with indent := o, outer := rest }.Stands
          { s with indent := o, outer := rest, found := s.found ++ [Token.blockEnd] } :=
        { h.emit Token.blockEnd with indent := rfl, outer := rfl, allTokens := (h.emit Token.blockEnd).allTokens }
      simpa [hle] using ih hnext

theorem Stands.unindent (h : l.Stands s) (column : Int) : (l.unindent column).Stands (s.unindent column) := by
  rw [Lexer.unindent, Standing.unindent, h.outer]
  exact h.closeBlocks column s.outer

/-- The end of the text ends all blocks. -/
theorem Stands.finish (h : l.Stands s) :
    ∃ l', l.finish = .ok l' ∧ l'.allTokens = (s.unindent (-1)).found := by
  have hend := h.unindent (-1)
  refine ⟨l.unindent (-1), ?_, hend.allTokens⟩
  have hsame : { l.unindent (-1) with candidate := none } = l.unindent (-1) := by
    rw [← hend.candidate]
  rw [Lexer.finish, dropCandidate, hend.candidate, hsame]
  rfl

/-- Whether the text starts with something that is neither passed over nor a comment. -/
def Starts (text : List Char) : Prop :=
  ∀ c ∈ text.head?, isSpace c = false ∧ c ≠ '#' ∧ c ≠ '\uFEFF'

theorem starts_name {word : List Char} (h : IsName word) (text : List Char) : Starts (word ++ text) := by
  intro c hc
  obtain ⟨x, tail, rfl, hx⟩ := h.head
  obtain rfl : x = c := by simpa using hc
  have hname := h.chars x List.mem_cons_self
  exact ⟨(isPrintable_of_isNameChar hname).isSpace (ne_of_isAlphanum hx rfl), ne_of_isAlphanum hx rfl,
    ne_of_isAlphanum hx rfl⟩

theorem starts_value (v : Value) (text : List Char) : Starts (v.written ++ text) := by
  cases v with
  | plain word hword => exact starts_name hword text
  | quoted word printable =>
    intro c hc
    cases hc
    exact ⟨rfl, by decide, by decide⟩

theorem skipSpace_blanks (l : Lexer) (blanks : List Char) {text : List Char} {m : Mark}
    (hcursor : l.cursor = ⟨blanks ++ text, m⟩) (hblanks : ∀ c ∈ blanks, c = ' ') (htext : Starts text) (fuel : Nat) :
    skipSpace (fuel + 1) l = { l with cursor := ⟨text, m.behind blanks⟩ } := by
  have hmark : skipMark l.cursor = ⟨blanks ++ text, m⟩ := by
    have hpeek : (l.cursor.peek? == some '\uFEFF') = false := by
      rw [hcursor, Cursor.peek?, beq_eq_false_iff_ne]
      cases blanks with
      | nil =>
        intro heq
        exact (htext _ heq).2.2 rfl
      | cons b blanks =>
        rw [hblanks b List.mem_cons_self]
        simp
    rw [skipMark, hpeek, Bool.and_false, if_neg Bool.false_ne_true, hcursor]
  have htake : (blanks ++ text).takeWhile (fun x => x == ' ' || ((l.inFlow || !l.keyAllowed) && x == '\t')) =
      blanks := by
    refine (Number.takeWhile_append ?_ ?_).1
    · intro c hc
      rw [hblanks c hc]
      rfl
    · intro c hc
      have hspace := (htext c hc).1
      simp only [isSpace, isBlank, Bool.or_eq_false_iff] at hspace
      rw [hspace.1.1, hspace.1.2, Bool.and_false, Bool.or_false]
  have hline : ∀ c ∈ blanks, isBreak c = false := by
    intro c hc
    rw [hblanks c hc]
    decide
  have hskip := Cursor.skip_append hline text m
  have hcomment : (text.head? == some '#') = false := by
    rw [beq_eq_false_iff_ne]
    intro heq
    exact (htext _ heq).2.1 rfl
  have hbreak : text.head?.any isBreak = false := by
    rw [Option.any_eq_false]
    intro c hc
    have hspace := (htext c hc).1
    rw [isSpace, Bool.or_eq_false_iff] at hspace
    simp [hspace.2]
  rw [skipSpace]
  simp only [hmark, Cursor.skipWhile, htake, hskip, Cursor.peek?, hcomment, hbreak, Bool.false_eq_true, ↓reduceIte]

theorem skipSpace_newline {text : List Char} {m : Mark} (hcursor : l.cursor = ⟨'\n' :: text, m⟩)
    (haround : l.around = []) (fuel : Nat) :
    skipSpace (fuel + 1) l = skipSpace fuel { l with cursor := ⟨text, m.after '\n'⟩, keyAllowed := true } := by
  have hmark : skipMark l.cursor = ⟨'\n' :: text, m⟩ := by
    rw [skipMark, hcursor]
    simp [Cursor.peek?]
  rw [skipSpace]
  simp [hmark, Cursor.skipWhile, Cursor.skip, Cursor.peek?, isBreak, inFlow, haround]

/-- Passes over blanks and line ends, and ends the blocks that the place lies before. -/
def settle (l : Lexer) : Except Error Lexer := do
  let l ← (skipSpace (l.cursor.rest.length + 1) l).dropStale
  return l.unindent l.cursor.column

/-- The run from a place on where a token starts or the text ends. -/
def goOn (fuel : Nat) (l : Lexer) : Except Error Lexer :=
  match l.cursor.rest with
  | [] => l.finish
  | c :: rest => do run fuel (← l.token c rest)

theorem run_succ (fuel : Nat) (l : Lexer) : run (fuel + 1) l = l.settle >>= goOn fuel := by
  rw [run, settle, bind_assoc]
  rfl

/-- A candidate that is not stale stays one. -/
theorem settle_eq {l' : Lexer} (hskip : skipSpace (l.cursor.rest.length + 1) l = l')
    (hfresh : l'.candidate.all (!isStale l'.cursor.mark ·)) (haround : l'.around = []) :
    l.settle = .ok (l'.unindent l'.cursor.column) := by
  have hdrop : l'.dropStale = .ok l' := by
    have hrefresh : refresh l'.cursor.mark l'.candidate = .ok l'.candidate := by
      cases hcandidate : l'.candidate with
      | none => rfl
      | some candidate =>
        rw [hcandidate] at hfresh
        have hstale : isStale l'.cursor.mark candidate = false := by simpa using hfresh
        simp [refresh, hstale]
    have hnone : l'.around.mapM (refresh l'.cursor.mark) = .ok l'.around := by
      rw [haround]
      rfl
    rw [dropStale, hrefresh]
    simp only [bind, Except.bind, hnone]
    rfl
  rw [settle, hskip, hdrop]
  rfl

theorem Stands.cursor (h : l.Stands s) {text : List Char} (hrest : s.rest = text) :
    l.cursor = ⟨text, l.cursor.mark⟩ := by
  rw [← hrest, ← h.rest]

theorem Stands.settle (h : l.Stands s) (blanks : List Char) {text : List Char} (hrest : s.rest = blanks ++ text)
    (hblanks : ∀ c ∈ blanks, c = ' ') (htext : Starts text) :
    ∃ l', l.settle = .ok l' ∧
      l'.Stands ({ s with rest := text, column := s.column + blanks.length }.unindent
        (s.column + blanks.length : Nat)) := by
  have hcursor := h.cursor hrest
  have hskip := skipSpace_blanks l blanks hcursor hblanks htext l.cursor.rest.length
  have hstands : { l with cursor := ⟨text, l.cursor.mark.behind blanks⟩ }.Stands
      { s with rest := text, column := s.column + blanks.length } :=
    { h with
      rest := rfl
      column := congrArg (· + blanks.length) h.column
      allTokens := h.allTokens }
  have hsettle := settle_eq hskip (by simp [h.candidate]) h.around
  have hunindent := hstands.unindent (s.column + blanks.length : Nat)
  refine ⟨_, hsettle, ?_⟩
  rw [hstands.column]
  exact hunindent

/-- The next line is indented by its blanks. -/
theorem Stands.settle_line (h : l.Stands s) {blanks text : List Char} (hrest : s.rest = '\n' :: (blanks ++ text))
    (hblanks : ∀ c ∈ blanks, c = ' ') (htext : Starts text) :
    ∃ l', l.settle = .ok l' ∧
      l'.Stands ({ s with rest := text, column := blanks.length, keyAllowed := true }.unindent blanks.length) := by
  have hcursor := h.cursor hrest
  have hnewline := skipSpace_newline hcursor h.around l.cursor.rest.length
  have hlength : l.cursor.rest.length = (blanks ++ text).length + 1 := by
    rw [hcursor, List.length_cons]
  have hblank := skipSpace_blanks
    { l with cursor := ⟨blanks ++ text, l.cursor.mark.after '\n'⟩, keyAllowed := true } blanks rfl hblanks htext
    (blanks ++ text).length
  have hskip := hnewline.trans ((congrArg (skipSpace · _) hlength).trans hblank)
  have hcolumn : ((l.cursor.mark.after '\n').behind blanks).column = blanks.length := Nat.zero_add _
  have hstands : { l with
      cursor := ⟨text, (l.cursor.mark.after '\n').behind blanks⟩, keyAllowed := true }.Stands
        { s with rest := text, column := blanks.length, keyAllowed := true } :=
    { h with
      rest := rfl
      column := hcolumn
      keyAllowed := rfl
      allTokens := h.allTokens }
  have hsettle := settle_eq hskip (by simp [h.candidate]) h.around
  have hunindent := hstands.unindent blanks.length
  refine ⟨_, hsettle, ?_⟩
  rw [hstands.column]
  exact hunindent

theorem token_name {c : Char} {rest : List Char} (hc : c.isAlphanum = true) (hrest : l.cursor.rest = c :: rest) :
    l.token c rest = l.plainScalar := by
  have hne : ∀ x : Char, x.isAlphanum = false → (c == x) = false := by
    intro x hx
    exact beq_eq_false_iff_ne.2 (ne_of_isAlphanum hc hx)
  have hmark (x y z : Char) (hx : x.isAlphanum = false) : l.cursor.startsWithMark [x, y, z] = false := by
    simp [Cursor.startsWithMark, hrest, (ne_of_isAlphanum hc hx).symm]
  have hspace : isSpace c = false := by
    simp only [isSpace, isBlank, isBreak]
    simp (disch := decide) only [hne]
    rfl
  have hindicator : isIndicator c = false := by
    simp only [isIndicator, List.contains_cons, List.contains_nil]
    simp (disch := decide) only [hne, Bool.or_false]
  have hplain : startsPlain l.inFlow c rest = true := by
    simp [startsPlain, hspace, hindicator]
  rw [token]
  simp (disch := decide) only [hne, hmark, Bool.and_false, Bool.false_and, Bool.false_eq_true, ↓reduceIte, hplain]

theorem token_colon {rest : List Char} (hrest : l.cursor.rest = ':' :: rest) (hword : endsWord rest = true) :
    l.token ':' rest = l.value := by
  simp [token, Cursor.startsWithMark, hrest, hword]

theorem token_quote {rest : List Char} (hrest : l.cursor.rest = '\'' :: rest) :
    l.token '\'' rest = l.quotedScalar false := by
  simp [token, Cursor.startsWithMark, hrest]

/-- What a word leaves behind that a colon may make a key of. -/
def afterWord (l : Lexer) (word rest : List Char) : Lexer :=
  { l.emit (.scalar .plain word) with
    candidate := some ⟨l.count, l.indent == l.cursor.column, l.cursor.mark⟩
    keyAllowed := false
    cursor := ⟨rest, l.cursor.mark.behind word⟩ }

theorem unindent_of_le {column : Int} (h : l.indent ≤ column) : l.unindent column = l := by
  rw [unindent]
  cases l.outer with
  | nil => rfl
  | cons o rest => rw [closeBlocks, decide_eq_true h, Bool.or_true, if_pos rfl]

theorem Stands.plainScalar_key (h : l.Stands s) {word text : List Char} (hword : IsName word)
    (hrest : s.rest = word ++ ':' :: text) (htext : endsWord text = true) (hallowed : s.keyAllowed = true) :
    l.plainScalar = .ok (l.afterWord word (':' :: text)) := by
  have hcursor := h.cursor hrest
  have hflow : l.inFlow = false := by
    rw [inFlow, h.around]
    rfl
  have hsave : l.saveCandidate =
      .ok { l with candidate := some ⟨l.count, l.indent == l.cursor.column, l.cursor.mark⟩ } := by
    simp [saveCandidate, dropCandidate, h.keyAllowed, hallowed, h.candidate, inFlow, h.around, bind, Except.bind,
      pure, Except.pure]
  have hscan (limit : Int) : Plain.scan false limit l.cursor =
      .ok ⟨word, ⟨':' :: text, l.cursor.mark.behind word⟩, false⟩ := by
    rw [hcursor]
    exact Plain.scan_colon hword.isWord htext
  have hflow' : { l with candidate := some ⟨l.count, l.indent == l.cursor.column, l.cursor.mark⟩ }.inFlow = false :=
    hflow
  rw [plainScalar, hsave]
  simp only [bind, Except.bind, hflow', hscan]
  rfl

theorem Stands.settle_word (h : l.Stands s) {word text : List Char} (hlength : word.length ≤ 1024)
    (hindent : s.indent ≤ s.column) :
    (l.afterWord word (':' :: text)).settle = .ok (l.afterWord word (':' :: text)) := by
  have hstarts : Starts (':' :: text) := by
    intro c hc
    cases hc
    exact ⟨rfl, by decide, by decide⟩
  have hskip : skipSpace ((':' :: text).length + 1) (l.afterWord word (':' :: text)) =
      l.afterWord word (':' :: text) :=
    skipSpace_blanks (l.afterWord word (':' :: text)) [] rfl (List.forall_mem_nil _) hstarts (':' :: text).length
  have hfresh : (l.afterWord word (':' :: text)).candidate.all
      (!isStale (l.afterWord word (':' :: text)).cursor.mark ·) := by
    simp [afterWord, isStale]
    omega
  have hcolumn : (l.afterWord word (':' :: text)).indent ≤ (l.afterWord word (':' :: text)).cursor.column := by
    have hmark : l.cursor.mark.column = s.column := h.column
    change l.indent ≤ (l.cursor.mark.column + word.length : Nat)
    rw [h.indent, hmark]
    omega
  rw [settle_eq hskip hfresh h.around]
  exact congrArg Except.ok (unindent_of_le hcolumn)

/-- The token that a colon makes a key of is spliced, and the tokens before it stay as they are. -/
theorem Stands.splice (h : l.Stands s) (opens : Bool) (token colon : Token) :
    ((colon :: token :: l.tokens).reverse.mapIdx (spliced (⟨l.count, opens⟩ :: l.keys))).flatten =
      s.found ++ (if opens then [.blockMappingStart, .key, token] else [.key, token]) ++ [colon] := by
  have hbefore : l.tokens.reverse.mapIdx (spliced (⟨l.count, opens⟩ :: l.keys)) =
      l.tokens.reverse.mapIdx (spliced l.keys) := by
    rw [List.mapIdx_eq_mapIdx_iff]
    intro i hi
    apply spliced_cons_of_lt
    rw [List.length_reverse, ← h.count] at hi
    exact hi
  have htoken : spliced (⟨l.count, opens⟩ :: l.keys) l.tokens.reverse.length token =
      if opens then [.blockMappingStart, .key, token] else [.key, token] := by
    simp [spliced, h.count]
  have hcolon : spliced (⟨l.count, opens⟩ :: l.keys) (l.tokens.reverse.length + 1) colon = [colon] := by
    apply spliced_of_lt
    intro k hk
    rw [List.length_reverse, ← h.count]
    rcases List.mem_cons.1 hk with rfl | hk
    · exact Nat.lt_succ_self _
    · exact Nat.lt_succ_of_lt (h.keys k hk)
  have hall := h.allTokens
  rw [allTokens_eq] at hall
  simp only [List.reverse_cons, List.mapIdx_concat, List.length_append, List.length_singleton, hbefore, htoken, hcolon,
    List.flatten_append, List.flatten_singleton, hall]

/-- What a colon leaves behind that makes a key of a candidate. -/
def afterColon (l : Lexer) (c : Candidate) (opens : Bool) : Lexer :=
  { (if opens then l.enter c.mark.column else l) with
    candidate := none, keyAllowed := false, keys := ⟨c.number, opens⟩ :: l.keys }.take 1 .value

theorem value_of_candidate {c : Candidate} (h : l.candidate = some c) :
    l.value = .ok (l.afterColon c (l.opensBlock c.mark.column)) := by
  rw [value, h]
  cases hopens : l.opensBlock c.mark.column with
  | true => simp only [hopens, ↓reduceIte, afterColon, enter]
  | false => simp only [hopens, Bool.false_eq_true, ↓reduceIte, afterColon]

theorem Stands.value_word (h : l.Stands s) (word text : List Char) :
    ∃ l', (l.afterWord word (':' :: text)).value = .ok l' ∧
      l'.Stands { s.enter with
        rest := text
        column := s.column + word.length + 1
        keyAllowed := false
        found := s.enter.found ++ [.key, .scalar .plain word, .value] } := by
  have hmark : l.cursor.mark.column = s.column := h.column
  have hopens : (l.afterWord word (':' :: text)).opensBlock l.cursor.mark.column = decide (s.indent < s.column) := by
    simp [opensBlock, afterWord, inFlow, Lexer.emit, h.around, h.indent, hmark]
  have hcolumn : (l.cursor.mark.behind word).column + 1 = s.column + word.length + 1 :=
    congrArg (· + word.length + 1) h.column
  have hcount : l.count + 1 + 1 = l.tokens.length + 1 + 1 := congrArg (· + 1 + 1) h.count
  have hkeys (opens : Bool) : ∀ k ∈ KeyStart.mk l.count opens :: l.keys, k.number < l.count + 1 + 1 := by
    intro k hk
    rcases List.mem_cons.1 hk with rfl | hk
    · exact Nat.lt_succ_of_lt (Nat.lt_succ_self _)
    · exact Nat.lt_succ_of_lt (Nat.lt_succ_of_lt (h.keys k hk))
  have hspliced (opens : Bool) := h.splice opens (.scalar .plain word) .value
  refine ⟨_, value_of_candidate rfl, ?_⟩
  rw [hopens]
  by_cases hlt : s.indent < s.column
  · rw [decide_eq_true hlt, Standing.enter, if_pos hlt]
    exact {
      rest := rfl
      column := hcolumn
      indent := congrArg Int.ofNat hmark
      outer := congrArg₂ List.cons h.indent h.outer
      keyAllowed := rfl
      candidate := rfl
      around := h.around
      count := hcount
      keys := hkeys true
      allTokens := (hspliced true).trans (by simp) }
  · rw [decide_eq_false hlt, Standing.enter, if_neg hlt]
    exact {
      rest := rfl
      column := hcolumn
      indent := h.indent
      outer := h.outer
      keyAllowed := rfl
      candidate := rfl
      around := h.around
      count := hcount
      keys := hkeys false
      allTokens := (hspliced false).trans (by simp) }

/-- A word and the colon behind it are a key. -/
theorem Stands.key (h : l.Stands s) (k : Key) {text : List Char} (hrest : s.rest = k.text ++ ':' :: text)
    (hword : endsWord text = true) (hallowed : s.keyAllowed = true) (hindent : s.indent ≤ s.column) (fuel : Nat) :
    ∃ l', goOn (fuel + 1) l = run fuel l' ∧
      l'.Stands { s.enter with
        rest := text
        column := s.column + k.text.length + 1
        keyAllowed := false
        found := s.enter.found ++ k.tokens } := by
  obtain ⟨l', hvalue, hstands⟩ := h.value_word k.text text
  refine ⟨l', ?_, hstands⟩
  obtain ⟨c, tail, htext, hc⟩ := k.isName.head
  have hleft : l.cursor.rest = c :: (tail ++ ':' :: text) := by
    rw [h.rest, hrest, htext, List.cons_append]
  have hcolon : (l.afterWord k.text (':' :: text)).cursor.rest = ':' :: text := rfl
  rw [goOn, hleft]
  simp only [token_name hc hleft, h.plainScalar_key k.isName hrest hword hallowed, bind, Except.bind, run_succ,
    h.settle_word k.length_le hindent]
  rw [goOn, hcolon]
  simp only [token_colon hcolon hword, hvalue, bind, Except.bind]

theorem saveCandidate_of_not_allowed (h : l.keyAllowed = false) : l.saveCandidate = .ok l := by
  simp [saveCandidate, h]

theorem goOn_token {l₁ l₂ : Lexer} {c : Char} {rest : List Char} (hrest : l.cursor.rest = c :: rest)
    (htoken : l.token c rest = .ok l₁) (hsettle : l₁.settle = .ok l₂) (fuel : Nat) :
    goOn (fuel + 1) l = goOn fuel l₂ := by
  rw [goOn, hrest]
  simp only [htoken, bind, Except.bind, run_succ, hsettle]

/-- A word is read, and the blanks of the next line are taken up together with it. -/
theorem Stands.plain (h : l.Stands s) {word : List Char} (hword : IsName word) {blanks text : List Char}
    (hrest : s.rest = word ++ '\n' :: (blanks ++ text)) (hallowed : s.keyAllowed = false)
    (hblanks : ∀ c ∈ blanks, c = ' ') (htext : Starts text) (hindent : (blanks.length : Int) ≤ s.indent)
    (fuel : Nat) :
    ∃ l', goOn (fuel + 1) l = goOn fuel l' ∧
      l'.Stands ({ s with
        rest := text
        column := blanks.length
        keyAllowed := true
        found := s.found ++ [Token.scalar .plain word] }.unindent blanks.length) := by
  have hflow : l.inFlow = false := by
    rw [inFlow, h.around]
    rfl
  have hsave : l.saveCandidate = .ok l := saveCandidate_of_not_allowed (h.keyAllowed.trans hallowed)
  have hcursor := h.cursor hrest
  obtain ⟨c, tail, rfl, hc⟩ := hword.head
  have hlimit : (blanks.length : Int) < l.indent + 1 := by
    rw [h.indent]
    omega
  have hscan := Plain.scan_line (m := l.cursor.mark) hword.isWord hblanks (fun c hc => (htext c hc).1) hlimit
  have hscalar : l.plainScalar = .ok { l.emit (.scalar .plain (c :: tail)) with
      keyAllowed := true
      cursor := ⟨text, ((l.cursor.mark.behind (c :: tail)).after '\n').behind blanks⟩ } := by
    rw [plainScalar, hsave]
    simp only [bind, Except.bind, hflow]
    rw [hcursor, hscan]
    rfl
  have hstands : { l.emit (.scalar .plain (c :: tail)) with
      keyAllowed := true
      cursor := ⟨text, ((l.cursor.mark.behind (c :: tail)).after '\n').behind blanks⟩ }.Stands
        { s with
          rest := text
          column := blanks.length
          keyAllowed := true
          found := s.found ++ [Token.scalar .plain (c :: tail)] } :=
    { h.emit (Token.scalar .plain (c :: tail)) with
      rest := rfl
      column := Nat.zero_add _
      keyAllowed := rfl
      allTokens := (h.emit _).allTokens }
  obtain ⟨l', hsettle, hnext⟩ := hstands.settle [] rfl (List.forall_mem_nil _) htext
  have hleft : l.cursor.rest = c :: (tail ++ '\n' :: (blanks ++ text)) := by
    rw [hcursor]
    rfl
  exact ⟨l', goOn_token hleft ((token_name hc hleft).trans hscalar) hsettle fuel, hnext⟩

/-- A text in single quotes is read, and then the line end behind it. -/
theorem Stands.quoted (h : l.Stands s) {word : List Char} (printable : ∀ c ∈ word, IsPrintable c)
    {blanks text : List Char} (hrest : s.rest = '\'' :: Quoted.doubled word ++ ['\''] ++ '\n' :: (blanks ++ text))
    (hallowed : s.keyAllowed = false) (hblanks : ∀ c ∈ blanks, c = ' ') (htext : Starts text) (fuel : Nat) :
    ∃ l', goOn (fuel + 1) l = goOn fuel l' ∧
      l'.Stands ({ s with
        rest := text
        column := blanks.length
        keyAllowed := true
        found := s.found ++ [Token.scalar .singleQuoted word] }.unindent blanks.length) := by
  have hsave : l.saveCandidate = .ok l := saveCandidate_of_not_allowed (h.keyAllowed.trans hallowed)
  have hcursor := h.cursor hrest
  have hquote : ('\n' :: (blanks ++ text)).head? ≠ some '\'' := by simp
  have hscan := Quoted.scan_doubled printable hquote l.cursor.mark
  have hscalar : l.quotedScalar false = .ok { l.emit (.scalar .singleQuoted word) with
      keyAllowed := false
      cursor := ⟨'\n' :: (blanks ++ text), l.cursor.mark.behind ('\'' :: Quoted.doubled word ++ ['\''])⟩ } := by
    rw [quotedScalar, hsave]
    simp only [bind, Except.bind]
    rw [hcursor, List.append_assoc, List.singleton_append, hscan]
    rfl
  have hstands : { l.emit (.scalar .singleQuoted word) with
      keyAllowed := false
      cursor := ⟨'\n' :: (blanks ++ text), l.cursor.mark.behind ('\'' :: Quoted.doubled word ++ ['\''])⟩ }.Stands
        { s with
          rest := '\n' :: (blanks ++ text)
          column := s.column + ('\'' :: Quoted.doubled word ++ ['\'']).length
          keyAllowed := false
          found := s.found ++ [Token.scalar .singleQuoted word] } :=
    { h.emit (Token.scalar .singleQuoted word) with
      rest := rfl
      column := congrArg (· + ('\'' :: Quoted.doubled word ++ ['\'']).length) h.column
      keyAllowed := rfl
      allTokens := (h.emit _).allTokens }
  obtain ⟨l', hsettle, hnext⟩ := hstands.settle_line rfl hblanks htext
  have hleft : l.cursor.rest =
      '\'' :: (Quoted.doubled word ++ ['\''] ++ '\n' :: (blanks ++ text)) := by
    rw [hcursor]
    rfl
  exact ⟨l', goOn_token hleft ((token_quote hleft).trans hscalar) hsettle fuel, hnext⟩

/-- A scalar behind a colon is read, and then the line end behind it. -/
theorem Stands.scalar (h : l.Stands s) (v : Value) {blanks text : List Char}
    (hrest : s.rest = v.written ++ '\n' :: (blanks ++ text)) (hallowed : s.keyAllowed = false)
    (hblanks : ∀ c ∈ blanks, c = ' ') (htext : Starts text) (hindent : (blanks.length : Int) ≤ s.indent)
    (fuel : Nat) :
    ∃ l', goOn (fuel + 1) l = goOn fuel l' ∧
      l'.Stands ({ s with
        rest := text
        column := blanks.length
        keyAllowed := true
        found := s.found ++ [v.token] }.unindent blanks.length) := by
  cases v with
  | plain word hword => exact h.plain hword hrest hallowed hblanks htext hindent fuel
  | quoted word printable => exact h.quoted printable hrest hallowed hblanks htext fuel

/-- A scalar behind a colon and a blank is read, and then the line end behind it. -/
theorem Stands.value (h : l.Stands s) (v : Value) {blanks text : List Char}
    (hrest : s.rest = ' ' :: (v.written ++ '\n' :: (blanks ++ text))) (hallowed : s.keyAllowed = false)
    (hblanks : ∀ c ∈ blanks, c = ' ') (htext : Starts text) (hindent : (blanks.length : Int) ≤ s.indent)
    (hcolumn : s.indent ≤ s.column) (fuel : Nat) :
    ∃ l', run (fuel + 2) l = goOn fuel l' ∧
      l'.Stands ({ s with
        rest := text
        column := blanks.length
        keyAllowed := true
        found := s.found ++ [v.token] }.unindent blanks.length) := by
  obtain ⟨l₁, hsettle, hstands⟩ := h.settle [' '] hrest (by simp) (starts_value v _)
  rw [Standing.unindent_of_le (by simp only [List.length_singleton]; omega)] at hstands
  obtain ⟨l', hgo, hnext⟩ := hstands.scalar v rfl hallowed hblanks htext hindent fuel
  refine ⟨l', ?_, hnext⟩
  rw [run_succ, hsettle]
  exact hgo

/-- The header of a section, with the line end behind it. -/
theorem Stands.header (h : l.Stands s) (k : Key) {blanks text : List Char}
    (hrest : s.rest = k.text ++ ':' :: '\n' :: (blanks ++ text)) (hallowed : s.keyAllowed = true)
    (hindent : s.indent ≤ s.column) (hblanks : ∀ c ∈ blanks, c = ' ') (htext : Starts text) (fuel : Nat) :
    ∃ l', goOn (fuel + 2) l = goOn fuel l' ∧
      l'.Stands ({ s.enter with
        rest := text
        column := blanks.length
        keyAllowed := true
        found := s.enter.found ++ k.tokens }.unindent blanks.length) := by
  obtain ⟨l₁, hkey, hstands⟩ := h.key k hrest rfl hallowed hindent (fuel + 1)
  obtain ⟨l', hsettle, hnext⟩ := hstands.settle_line rfl hblanks htext
  refine ⟨l', ?_, hnext⟩
  rw [hkey, run_succ, hsettle]
  rfl

theorem Stands.field (h : l.Stands s) (f : Field) (blanks : List Char) {text : List Char}
    (hrest : s.rest = f.line ++ (blanks ++ text)) (hallowed : s.keyAllowed = true)
    (hindent : s.indent ≤ s.column) (hblanks : ∀ c ∈ blanks, c = ' ') (htext : Starts text)
    (hcolumn : blanks.length ≤ s.column) (fuel : Nat) :
    ∃ l', goOn (fuel + 3) l = goOn fuel l' ∧
      l'.Stands ({ s.enter with
        rest := text
        column := blanks.length
        keyAllowed := true
        found := s.enter.found ++ f.tokens }.unindent blanks.length) := by
  have hline : s.rest = f.key.text ++ ':' :: ' ' :: (f.value.written ++ '\n' :: (blanks ++ text)) := by
    rw [hrest, Field.line]
    simp
  obtain ⟨l₁, hkey, hstands⟩ := h.key f.key hline rfl hallowed hindent (fuel + 2)
  have hentered := Standing.enter_indent hindent
  obtain ⟨l', hvalue, hnext⟩ := hstands.value f.value rfl rfl hblanks htext (by simp only [hentered]; omega)
    (by simp only [hentered]; omega) fuel
  refine ⟨l', hkey.trans hvalue, ?_⟩
  rw [Field.tokens, ← List.append_assoc]
  exact hnext

/-- The fields of a section, up to the next section or the end of the text. -/
theorem Stands.fields (h : l.Stands s) (f : Field) (fields : List Field) {text : List Char}
    (hrest : s.rest = f.line ++ (fields.flatMap Field.written ++ text)) (hallowed : s.keyAllowed = true)
    (hcolumn : s.column = 2) (hindent : s.indent ≤ s.column) (houter : s.enter.outer = [0, -1])
    (htext : Starts text) (fuel : Nat) :
    ∃ l', goOn (fuel + 3 * (f :: fields).length) l = goOn fuel l' ∧
      l'.Stands ⟨text, 0, 0, [-1], true,
        s.enter.found ++ (f :: fields).flatMap Field.tokens ++ [.blockEnd]⟩ := by
  induction fields generalizing l s f with
  | nil =>
    obtain ⟨l', hgo, hnext⟩ := h.field f [] hrest hallowed hindent (List.forall_mem_nil _) htext (Nat.zero_le _) fuel
    refine ⟨l', hgo, ?_⟩
    have hentered := Standing.enter_indent hindent
    simpa [Standing.unindent, houter, Standing.closeBlocks, hentered, hcolumn] using hnext
  | cons f' fields ih =>
    have hline : s.rest = f.line ++ ([' ', ' '] ++ (f'.line ++ (fields.flatMap Field.written ++ text))) := by
      rw [hrest, List.flatMap_cons, Field.written]
      simp
    have hstarts : Starts (f'.line ++ (fields.flatMap Field.written ++ text)) := by
      rw [Field.line, List.append_assoc]
      exact starts_name f'.key.isName _
    obtain ⟨l₁, hgo, hstands⟩ := h.field f [' ', ' '] hline hallowed hindent (by simp) hstarts hcolumn.ge
      (fuel + 3 * (f' :: fields).length)
    have hentered := Standing.enter_indent hindent
    rw [Standing.unindent_of_le (by simp [hentered, hcolumn])] at hstands
    obtain ⟨l', hmore, hnext⟩ := ih hstands f' rfl rfl rfl (by simp [hentered, hcolumn])
      (by rw [Standing.enter_of_le (by simp [hentered, hcolumn]), houter])
    rw [Standing.enter_of_le (by simp [hentered, hcolumn])] at hnext
    refine ⟨l', hgo.trans hmore, ?_⟩
    simpa using hnext

theorem Stands.section (h : l.Stands s) (part : Section) {text : List Char} (hrest : s.rest = part.written ++ text)
    (hallowed : s.keyAllowed = true) (hcolumn : s.column = 0) (hindent : s.indent ≤ s.column)
    (houter : s.enter.outer = [-1]) (htext : Starts text) (fuel : Nat) :
    ∃ l', goOn (fuel + (3 * part.fields.length + 2)) l = goOn fuel l' ∧
      l'.Stands ⟨text, 0, 0, [-1], true, s.enter.found ++ part.tokens⟩ := by
  obtain ⟨f, fields, hfields⟩ := List.exists_cons_of_ne_nil part.fields_ne_nil
  have hline : s.rest = part.key.text ++ ':' :: '\n' ::
      ([' ', ' '] ++ (f.line ++ (fields.flatMap Field.written ++ text))) := by
    rw [hrest, Section.written, hfields, List.flatMap_cons, Field.written]
    simp
  have hstarts : Starts (f.line ++ (fields.flatMap Field.written ++ text)) := by
    rw [Field.line, List.append_assoc]
    exact starts_name f.key.isName _
  obtain ⟨l₁, hgo, hstands⟩ := h.header part.key hline hallowed hindent (by simp) hstarts
    (fuel + 3 * part.fields.length)
  have hentered := Standing.enter_indent hindent
  rw [Standing.unindent_of_le (by simp [hentered, hcolumn])] at hstands
  obtain ⟨l', hmore, hnext⟩ := hstands.fields f fields rfl rfl rfl (by simp [hentered, hcolumn])
    (by rw [Standing.enter_of_lt (by simp [hentered, hcolumn]), houter, hentered, hcolumn]; rfl) htext fuel
  rw [Standing.enter_of_lt (by simp [hentered, hcolumn])] at hnext
  rw [hfields] at hgo
  refine ⟨l', hfields ▸ hgo.trans hmore, ?_⟩
  simpa [Section.tokens, hfields] using hnext

/-- How many tokens of the text one section takes. -/
def turns (sections : List Section) : Nat :=
  (sections.map fun part => 3 * part.fields.length + 2).sum

theorem starts_sections (sections : List Section) : Starts (Outline.written sections) := by
  cases sections with
  | nil =>
    intro c hc
    cases hc
  | cons part sections =>
    rw [Outline.written, List.flatMap_cons, Section.written, List.append_assoc]
    exact starts_name part.key.isName _

theorem Stands.sections (h : l.Stands s) (part : Section) (sections : List Section)
    (hrest : s.rest = Outline.written (part :: sections)) (hallowed : s.keyAllowed = true) (hcolumn : s.column = 0)
    (hindent : s.indent ≤ s.column) (houter : s.enter.outer = [-1]) (fuel : Nat) :
    ∃ l', goOn (fuel + turns (part :: sections)) l = goOn fuel l' ∧
      l'.Stands ⟨[], 0, 0, [-1], true, s.enter.found ++ (part :: sections).flatMap Section.tokens⟩ := by
  induction sections generalizing l s part with
  | nil =>
    obtain ⟨l', hgo, hnext⟩ := h.section part hrest hallowed hcolumn hindent houter (starts_sections []) fuel
    refine ⟨l', hgo, ?_⟩
    simpa using hnext
  | cons part' sections ih =>
    obtain ⟨l₁, hgo, hstands⟩ := h.section part hrest hallowed hcolumn hindent houter
      (starts_sections (part' :: sections)) (fuel + turns (part' :: sections))
    obtain ⟨l', hmore, hnext⟩ := ih hstands part' rfl rfl rfl le_rfl rfl
    refine ⟨l', ?_, ?_⟩
    · rw [← hmore, ← hgo, turns, turns, List.map_cons, List.sum_cons, Nat.add_comm (3 * _ + 2), Nat.add_assoc]
    · simpa [Standing.enter] using hnext

end

end Lexer

theorem Field.mem_written {f : Field} {c : Char} (h : c ∈ f.written) : IsPrintable c ∨ c = '\n' := by
  have hprintable (x : Char) (hx : 0x20 ≤ x.toNat ∧ x.toNat ≤ 0x7E) (heq : c = x) : IsPrintable c ∨ c = '\n' := by
    rw [heq]
    exact .inl hx
  have hvalue : c ∈ f.value.written → IsPrintable c ∨ c = '\n' := by
    intro hc
    cases hv : f.value with
    | plain text isName =>
      rw [hv] at hc
      exact .inl (isPrintable_of_isNameChar (isName.chars c hc))
    | quoted text printable =>
      rw [hv, Value.written] at hc
      simp only [List.cons_append, List.mem_cons, List.mem_append, List.not_mem_nil, or_false] at hc
      rcases hc with hc | hc | hc
      · exact hprintable _ (by decide) hc
      · exact .inl (printable c (Quoted.mem_doubled hc))
      · exact hprintable _ (by decide) hc
  simp only [Field.written, Field.line, List.mem_cons, List.mem_append, List.not_mem_nil, or_false] at h
  rcases h with h | h | h | h | h | h | h
  · exact hprintable _ (by decide) h
  · exact hprintable _ (by decide) h
  · exact .inl (isPrintable_of_isNameChar (f.key.isName.chars c h))
  · exact hprintable _ (by decide) h
  · exact hprintable _ (by decide) h
  · exact hvalue h
  · exact .inr h

theorem Section.mem_written {part : Section} {c : Char} (h : c ∈ part.written) : IsPrintable c ∨ c = '\n' := by
  simp only [Section.written, List.mem_append, List.mem_cons, List.mem_flatMap] at h
  rcases h with h | h | h | ⟨f, -, h⟩
  · exact .inl (isPrintable_of_isNameChar (part.key.isName.chars c h))
  · exact .inl (h ▸ ⟨by decide, by decide⟩)
  · exact .inr h
  · exact f.mem_written h

theorem isAllowed_of_isPrintable {c : Char} (h : IsPrintable c) : isAllowed c = true := by
  simp [isAllowed, h.1, h.2]

theorem joinBreaks_eq_self {text : List Char} (h : ∀ c ∈ text, IsPrintable c ∨ c = '\n') : joinBreaks text = text := by
  induction text with
  | nil => rfl
  | cons c text ih =>
    have hreturn : c ≠ '\r' := by
      rcases h c List.mem_cons_self with hc | rfl
      · exact hc.ne (by decide)
      · decide
    have hnext : c ≠ '\u0085' := by
      rcases h c List.mem_cons_self with hc | rfl
      · exact hc.ne (by decide)
      · decide
    rw [joinBreaks, ih fun c hc => h c (List.mem_cons_of_mem _ hc)]
    · simp [hreturn, hnext]
    · rintro rest heq -
      exact absurd heq hreturn

theorem Section.length_written (part : Section) : 3 * part.fields.length + 2 ≤ part.written.length := by
  have hfield : ∀ f ∈ part.fields, 3 ≤ f.written.length := by
    intro f _
    simp only [Field.written, Field.line, List.length_cons, List.length_append]
    omega
  have hsum := List.card_nsmul_le_sum (part.fields.map fun f => f.written.length) 3 (by simpa using hfield)
  rw [List.length_map, smul_eq_mul] at hsum
  simp only [Section.written, List.length_append, List.length_cons, List.length_flatMap]
  omega

theorem turns_le (sections : List Section) : Lexer.turns sections ≤ (Outline.written sections).length := by
  rw [Outline.written, List.length_flatMap]
  exact List.sum_le_sum fun part _ => part.length_written

/-- The whole text is cut into the tokens of its sections. -/
theorem tokens_written {sections : List Section} (hne : sections ≠ []) :
    tokens (Outline.written sections) = .ok (Outline.tokens sections) := by
  obtain ⟨part, sections, rfl⟩ := List.exists_cons_of_ne_nil hne
  have hchars : ∀ c ∈ Outline.written (part :: sections), IsPrintable c ∨ c = '\n' := by
    intro c hc
    obtain ⟨part', -, hpart⟩ := List.mem_flatMap.1 hc
    exact part'.mem_written hpart
  have hallowed : (Outline.written (part :: sections)).all isAllowed = true := by
    rw [List.all_eq_true]
    intro c hc
    rcases hchars c hc with hprintable | rfl
    · exact isAllowed_of_isPrintable hprintable
    · rfl
  have hstart : (Lexer.ofText (Outline.written (part :: sections))).Stands
      ⟨Outline.written (part :: sections), 0, -1, [], true, []⟩ :=
    ⟨rfl, rfl, rfl, rfl, rfl, rfl, rfl, rfl, List.forall_mem_nil _, rfl⟩
  obtain ⟨l₁, hsettle, hsettled⟩ := hstart.settle [] rfl (List.forall_mem_nil _)
    (Lexer.starts_sections (part :: sections))
  have hstands : l₁.Stands ⟨Outline.written (part :: sections), 0, -1, [], true, []⟩ := hsettled
  obtain ⟨fuel, hfuel⟩ := Nat.exists_eq_add_of_le' (turns_le (part :: sections))
  obtain ⟨l₂, hgo, hlast⟩ := hstands.sections part sections rfl rfl rfl (by simp) rfl fuel
  obtain ⟨l₃, hfinish, hall⟩ := hlast.finish
  have hrun : Lexer.run ((Outline.written (part :: sections)).length + 1)
      (.ofText (Outline.written (part :: sections))) = .ok l₃ := by
    rw [Lexer.run_succ, hsettle]
    change Lexer.goOn _ l₁ = _
    rw [hfuel, hgo, Lexer.goOn, hlast.rest]
    exact hfinish
  rw [tokens, hallowed, joinBreaks_eq_self hchars]
  simp only [hrun, bind, Except.bind]
  exact congrArg Except.ok hall

theorem parse_written {sections : List Section} (hne : sections ≠ []) :
    parse (String.ofList (Outline.written sections)) = .ok (Outline.node sections) := by
  rw [parse, String.toList_ofList, tokens_written hne]
  exact Outline.parse sections

end WorkloadAtlas.Yaml
