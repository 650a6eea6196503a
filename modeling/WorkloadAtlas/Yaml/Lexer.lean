import WorkloadAtlas.Yaml.FlowScalar
import WorkloadAtlas.Yaml.Tag
/-!
Cutting a document into tokens. A key is known as one only when its colon is found, so tokens are appended in
the order of the text, and the tokens that may start a key are remembered by their number; what a colon makes
of such a token is spliced in at the end.
-/

namespace WorkloadAtlas.Yaml

/-- A token that a colon on the same line would make the start of a key. -/
structure Candidate where
  number : Nat
  /-- The place can hold nothing but a key. -/
  required : Bool
  mark : Mark

/-- What a colon made of a token: the start of a key, and maybe of a block mapping before it. -/
structure KeyStart where
  number : Nat
  opensMapping : Bool

structure Lexer where
  cursor : Cursor
  /-- The column of the innermost block, or -1 outside of all blocks. -/
  indent : Int
  /-- The columns of the blocks around it. -/
  outer : List Int
  /-- The candidate of the place itself, then those of the flow collections around it. -/
  candidate : Option Candidate
  around : List (Option Candidate)
  /-- Whether a key may start here. -/
  keyAllowed : Bool
  /-- The tokens so far, the last one first, and their number. -/
  tokens : List Token
  count : Nat
  keys : List KeyStart
  /-- The names of anchors so far with their slots, each name once. -/
  names : List (List Char × Nat)

namespace Lexer

def ofText (text : List Char) : Lexer :=
  { cursor := .ofText text, indent := -1, outer := [], candidate := none, around := [], keyAllowed := true,
    tokens := [], count := 0, keys := [], names := [] }

def inFlow (l : Lexer) : Bool :=
  !l.around.isEmpty

def emit (l : Lexer) (token : Token) : Lexer :=
  { l with tokens := token :: l.tokens, count := l.count + 1 }

/-- Appends a token that takes `width` characters. -/
def take (l : Lexer) (width : Nat) (token : Token) : Lexer :=
  { l.emit token with cursor := l.cursor.skip width }

/-- Skips one byte order mark in front of everything. -/
def skipMark (c : Cursor) : Cursor :=
  if c.mark.index == 0 && c.peek? == some '\uFEFF' then c.skip 1 else c

/-- Skips blanks, comments and breaks. A tab is a blank only where no key may start. After a break outside of
flow collections a key may start. -/
def skipSpace : Nat → Lexer → Lexer
  | 0, l => l
  | fuel + 1, l =>
    let tabs := l.inFlow || !l.keyAllowed
    let c := (skipMark l.cursor).skipWhile fun x => x == ' ' || (tabs && x == '\t')
    let c := if c.peek? == some '#' then c.skipWhile fun x => !isBreak x else c
    if c.peek?.any isBreak then
      skipSpace fuel { l with cursor := c.skip 1, keyAllowed := l.keyAllowed || !l.inFlow }
    else { l with cursor := c }

/-- A candidate is none any more on a later line, or after 1024 characters. -/
def isStale (now : Mark) (candidate : Candidate) : Bool :=
  candidate.mark.line < now.line || candidate.mark.index + 1024 < now.index

def refresh (now : Mark) : Option Candidate → Except Error (Option Candidate)
  | none => .ok none
  | some candidate =>
    if isStale now candidate then
      if candidate.required then .error .keyWithoutValue else .ok none
    else .ok (some candidate)

def dropStale (l : Lexer) : Except Error Lexer := do
  let now := l.cursor.mark
  return { l with candidate := ← refresh now l.candidate, around := ← l.around.mapM (refresh now) }

def dropCandidate (l : Lexer) : Except Error Lexer :=
  if l.candidate.any (·.required) then .error .keyWithoutValue else .ok { l with candidate := none }

/-- The next token may start a key, if one is allowed here. In the column of a block nothing else can stand. -/
def saveCandidate (l : Lexer) : Except Error Lexer :=
  if l.keyAllowed then do
    let l ← l.dropCandidate
    let required := !l.inFlow && l.indent == l.cursor.column
    return { l with candidate := some ⟨l.count, required, l.cursor.mark⟩ }
  else .ok l

/-- Ends the blocks that are indented farther than `column`. -/
def closeBlocks (column : Int) : List Int → Lexer → Lexer
  | [], l => l
  | outer :: rest, l =>
    if l.inFlow || l.indent ≤ column then l
    else closeBlocks column rest { l.emit .blockEnd with indent := outer, outer := rest }

def unindent (l : Lexer) (column : Int) : Lexer :=
  closeBlocks column l.outer l

/-- Whether a block that starts at `column` is a new one. -/
def opensBlock (l : Lexer) (column : Nat) : Bool :=
  !l.inFlow && l.indent < column

/-- The block at `column` becomes the innermost one. -/
def enter (l : Lexer) (column : Nat) : Lexer :=
  { l with indent := column, outer := l.indent :: l.outer }

/-- Starts a block at the place itself, unless it stands in one already. -/
def openBlock (l : Lexer) (start : Token) : Lexer :=
  if l.opensBlock l.cursor.column then (l.enter l.cursor.column).emit start else l

/-- A mark between documents ends all blocks. -/
def documentMark (l : Lexer) (token : Token) : Except Error Lexer := do
  let l ← (l.unindent (-1)).dropCandidate
  return { l with keyAllowed := false }.take 3 token

def directive (l : Lexer) : Except Error Lexer := do
  let l ← (l.unindent (-1)).dropCandidate
  let (token, cursor) ← Directive.scan l.cursor
  return { l.emit token with keyAllowed := false, cursor }

def openFlow (l : Lexer) (token : Token) : Except Error Lexer := do
  let l ← l.saveCandidate
  return { l with candidate := none, around := l.candidate :: l.around, keyAllowed := true }.take 1 token

def closeFlow (l : Lexer) (token : Token) : Except Error Lexer := do
  let l ← l.dropCandidate
  let l := match l.around with
    | candidate :: around => { l with candidate, around }
    | [] => l
  return { l with keyAllowed := false }.take 1 token

def flowEntry (l : Lexer) : Except Error Lexer := do
  let l ← l.dropCandidate
  return { l with keyAllowed := true }.take 1 .flowEntry

def blockEntry (l : Lexer) : Except Error Lexer := do
  if !l.inFlow && !l.keyAllowed then throw .entryOutOfPlace
  let l ← (l.openBlock .blockSequenceStart).dropCandidate
  return { l with keyAllowed := true }.take 1 .blockEntry

def markedKey (l : Lexer) : Except Error Lexer := do
  if !l.inFlow && !l.keyAllowed then throw .keyOutOfPlace
  let l ← (l.openBlock .blockMappingStart).dropCandidate
  return { l with keyAllowed := !l.inFlow }.take 1 .key

/-- A colon makes the candidate a key; without one it follows a marked key. -/
def value (l : Lexer) : Except Error Lexer :=
  match l.candidate with
  | some candidate =>
    let opens := l.opensBlock candidate.mark.column
    let l := if opens then l.enter candidate.mark.column else l
    .ok ({ l with candidate := none, keyAllowed := false, keys := ⟨candidate.number, opens⟩ :: l.keys }.take 1
      .value)
  | none =>
    if !l.inFlow && !l.keyAllowed then .error .valueOutOfPlace
    else
      let l := l.openBlock .blockMappingStart
      .ok ({ l with keyAllowed := !l.inFlow }.take 1 .value)

/-- A new anchor gets the slot after as many as there are names; a name that is given again moves there. -/
def anchor (l : Lexer) : Except Error Lexer := do
  let l ← l.saveCandidate
  let name ← Anchor.scan l.cursor
  let slot := l.names.length
  let names := (name.text, slot) :: l.names.filter (·.1 != name.text)
  return { l.emit (.anchor slot) with keyAllowed := false, cursor := name.cursor, names }

/-- An alias stands for the slot that its name has at this place. -/
def reference (l : Lexer) : Except Error Lexer := do
  let l ← l.saveCandidate
  let name ← Anchor.scan l.cursor
  match l.names.lookup name.text with
  | none => throw .undefinedAnchor
  | some slot => return { l.emit (.reference slot) with keyAllowed := false, cursor := name.cursor }

def tag (l : Lexer) : Except Error Lexer := do
  let l ← l.saveCandidate
  let tag ← Tag.scan l.inFlow l.cursor
  return { l.emit (.tag tag.handle tag.suffix) with keyAllowed := false, cursor := tag.cursor }

def blockScalar (l : Lexer) (folded : Bool) : Except Error Lexer := do
  let l ← l.dropCandidate
  let scalar ← BlockScalar.scan folded l.indent l.cursor
  let style := if folded then .folded else .literal
  return { l.emit (.scalar style scalar.text) with keyAllowed := true, cursor := scalar.cursor }

def quotedScalar (l : Lexer) (double : Bool) : Except Error Lexer := do
  let l ← l.saveCandidate
  let scalar ← Quoted.scan double l.cursor
  let style := if double then .doubleQuoted else .singleQuoted
  return { l.emit (.scalar style scalar.text) with keyAllowed := false, cursor := scalar.cursor }

/-- After a plain scalar a key may start only if the blanks behind it break the line. -/
def plainScalar (l : Lexer) : Except Error Lexer := do
  let l ← l.saveCandidate
  let scalar ← Plain.scan l.inFlow (l.indent + 1) l.cursor
  return { l.emit (.scalar .plain scalar.text) with keyAllowed := scalar.broken, cursor := scalar.cursor }

/-- Characters that no plain scalar starts with. -/
def isIndicator (c : Char) : Bool :=
  ['-', '?', ':', ',', '[', ']', '\x7b', '\x7d', '#', '&', '*', '!', '|', '>', '\'', '"', '%', '@', '\x60'].contains c

/-- Some indicators start a plain scalar when a word goes on after them. -/
def startsPlain (inFlow : Bool) (c : Char) (rest : List Char) : Bool :=
  (!isSpace c && !isIndicator c) || (c == '-' && !rest.head?.any isBlank)
    || (!inFlow && (c == '?' || c == ':') && !endsWord rest)

/-- The token that starts with the character `c`. -/
def token (l : Lexer) (c : Char) (rest : List Char) : Except Error Lexer :=
  if l.cursor.column == 0 && c == '%' then l.directive
  else if l.cursor.startsWithMark ['-', '-', '-'] then l.documentMark .documentStart
  else if l.cursor.startsWithMark ['.', '.', '.'] then l.documentMark .documentEnd
  else if c == '[' then l.openFlow .flowSequenceStart
  else if c == '\x7b' then l.openFlow .flowMappingStart
  else if c == ']' then l.closeFlow .flowSequenceEnd
  else if c == '\x7d' then l.closeFlow .flowMappingEnd
  else if c == ',' then l.flowEntry
  else if c == '-' && endsWord rest then l.blockEntry
  else if c == '?' && (l.inFlow || endsWord rest) then l.markedKey
  else if c == ':' && (l.inFlow || endsWord rest) then l.value
  else if c == '*' then l.reference
  else if c == '&' then l.anchor
  else if c == '!' then l.tag
  else if c == '|' && !l.inFlow then l.blockScalar false
  else if c == '>' && !l.inFlow then l.blockScalar true
  else if c == '\'' then l.quotedScalar false
  else if c == '"' then l.quotedScalar true
  else if startsPlain l.inFlow c rest then l.plainScalar
  else .error .noToken

/-- The end of the text ends all blocks, and no key may be open. -/
def finish (l : Lexer) : Except Error Lexer :=
  (l.unindent (-1)).dropCandidate

def run : Nat → Lexer → Except Error Lexer
  | 0, l => l.finish
  | fuel + 1, l => do
    let l ← (skipSpace (l.cursor.rest.length + 1) l).dropStale
    let l := l.unindent l.cursor.column
    match l.cursor.rest with
    | [] => l.finish
    | c :: rest => run fuel (← l.token c rest)

/-- The tokens in order, with the starts of keys where colons were found for them. -/
def allTokens (l : Lexer) : List Token :=
  (l.tokens.reverse.mapIdx fun number token =>
    match l.keys.find? (·.number == number) with
    | none => [token]
    | some start => if start.opensMapping then [.blockMappingStart, .key, token] else [.key, token]).flatten

end Lexer

def tokens (text : List Char) : Except Error (List Token) :=
  if !text.all isAllowed then .error .characterNotAllowed
  else do
    let text := joinBreaks text
    return (← Lexer.run (text.length + 1) (.ofText text)).allTokens

end WorkloadAtlas.Yaml
