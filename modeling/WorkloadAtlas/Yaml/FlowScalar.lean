import WorkloadAtlas.Yaml.Cursor
import WorkloadAtlas.Yaml.Token
/-!
Scalars that may run over several lines inside of a line's flow: plain and quoted ones. A gap of blanks without
a break is kept, and a gap with breaks is folded.
-/

namespace WorkloadAtlas.Yaml

/-- What a gap of blanks and breaks stands for. A single break is a space, and of more breaks the first one is
dropped; only a break that is no line feed is always kept. -/
def foldGap (gap : List Char) : List Char :=
  match gap.filter isBreak with
  | [] => gap
  | '\n' :: [] => [' ']
  | '\n' :: more => more
  | breaks => breaks

/-- What a gap stands for whose first break was escaped before it. -/
def foldEscapedGap (gap : List Char) : List Char :=
  gap.filter isBreak

/-- A stretch of text without gaps: what it stands for, and how many characters it takes. -/
structure Stretch where
  text : List Char
  used : Nat

namespace Plain

/-- Characters that follow a colon in a flow collection only by mistake. -/
def isMistakenAfterColon (c : Char) : Bool :=
  c == ',' || c == '?' || c == '[' || c == ']' || c == '{' || c == '}'

def isFlowEnd (c : Char) : Bool :=
  c == ',' || c == '[' || c == ']' || c == '{' || c == '}'

/-- The word at the front. A colon ends it before a blank, and the indicators of flow collections end it
inside of them. -/
def word (inFlow : Bool) : List Char → Except Error (List Char)
  | [] => .ok []
  | c :: rest =>
    if isSpace c then .ok []
    else if inFlow && c == ':' && rest.head?.any isMistakenAfterColon then .error .strangeColon
    else if c == ':' && endsWord rest then .ok []
    else if inFlow && isFlowEnd c then .ok []
    else (word inFlow rest).map (c :: ·)

/-- A tab that stands before column `limit` of a line after the first break of a gap. -/
def hasEarlyTab (limit : Int) (gap : List Char) : Bool :=
  let later := (gap.dropWhile isBlank).foldl
    (fun (found, column) c =>
      if isBreak c then (found, 0) else (found || (c == '\t' && (column : Int) < limit), column + 1))
    (false, (0 : Nat))
  later.1

/-- A plain scalar: its text, the place after it and the blanks that follow it, and whether these break the
line. -/
structure Scanned where
  text : List Char
  cursor : Cursor
  broken : Bool

/-- Words and the gaps between them. The scalar ends before a comment, before a document mark, and in a block
before a line that is indented less than `limit`. -/
def words (inFlow : Bool) (limit : Int) : Nat → Cursor → Except Error Scanned
  | 0, c => .ok ⟨[], c, false⟩
  | fuel + 1, c => do
    if c.atDocumentMark || c.peek? == some '#' then return ⟨[], c, false⟩
    let word ← word inFlow c.rest
    let next := c.skip word.length
    let gap := next.rest.takeWhile isSpace
    if gap.isEmpty then return ⟨word, next, false⟩
    if hasEarlyTab limit gap then throw .tabInIndentation
    let after := next.skip gap.length
    if !inFlow && (after.column : Int) < limit then return ⟨word, after, gap.any isBreak⟩
    let more ← words inFlow limit fuel after
    if more.text.isEmpty then return ⟨word, more.cursor, gap.any isBreak⟩
    return ⟨word ++ foldGap gap ++ more.text, more.cursor, more.broken⟩

def scan (inFlow : Bool) (limit : Int) (c : Cursor) : Except Error Scanned :=
  words inFlow limit (c.rest.length + 1) c

end Plain

namespace Quoted

inductive Ending
  | closed
  | gap
  | escapedBreak
deriving DecidableEq, Repr

/-- A stretch that ends at a gap, at the closing quote or at an escaped break, which it takes in. -/
structure Piece extends Stretch where
  ending : Ending

/-- In single quotes only the quote is escaped, by a second one. -/
def singlePiece : List Char → Piece
  | [] => ⟨⟨[], 0⟩, .gap⟩
  | '\'' :: '\'' :: rest =>
    let p := singlePiece rest
    { p with text := '\'' :: p.text, used := p.used + 2 }
  | c :: rest =>
    if c == '\'' then ⟨⟨[], 1⟩, .closed⟩
    else if isSpace c then ⟨⟨[], 0⟩, .gap⟩
    else
      let p := singlePiece rest
      { p with text := c :: p.text, used := p.used + 1 }

def simpleEscape? : Char → Option Char
  | '0' => some '\x00'
  | 'a' => some '\x07'
  | 'b' => some '\x08'
  | 't' | '\t' => some '\t'
  | 'n' => some '\n'
  | 'v' => some '\x0B'
  | 'f' => some '\x0C'
  | 'r' => some '\r'
  | 'e' => some '\x1B'
  | ' ' => some ' '
  | '"' => some '"'
  | '/' => some '/'
  | '\\' => some '\\'
  | 'N' => some '\u0085'
  | '_' => some '\u00A0'
  | 'L' => some '\u2028'
  | 'P' => some '\u2029'
  | _ => none

def escapeDigits? : Char → Option Nat
  | 'x' => some 2
  | 'u' => some 4
  | 'U' => some 8
  | _ => none

/-- The character of an escape, and how many characters it takes after the backslash. -/
def escape? (mark : Char) (rest : List Char) : Option (Char × Nat) :=
  match simpleEscape? mark with
  | some c => some (c, 1)
  | none => do
    let digits ← escapeDigits? mark
    let code ← hexNumber? digits rest
    if h : code.isValidChar then some (Char.ofNatAux code h, 1 + digits) else none

/-- In double quotes the backslash escapes. -/
def doublePiece (text : List Char) : Except Error Piece :=
  match text with
  | [] => .ok ⟨⟨[], 0⟩, .gap⟩
  | c :: rest =>
    if isSpace c then .ok ⟨⟨[], 0⟩, .gap⟩
    else if c == '"' then .ok ⟨⟨[], 1⟩, .closed⟩
    else if c == '\\' then
      match rest with
      | [] => .error .strangeEscape
      | mark :: after =>
        if isBreak mark then .ok ⟨⟨[], 2⟩, .escapedBreak⟩
        else match escape? mark after with
          | none => .error .strangeEscape
          | some (x, used) => do
            let p ← doublePiece ((mark :: after).drop used)
            return { p with text := x :: p.text, used := p.used + 1 + used }
    else do
      let p ← doublePiece rest
      return { p with text := c :: p.text, used := p.used + 1 }
termination_by text.length
decreasing_by all_goals simp only [List.length_drop, List.length_cons]; omega

def piece (double : Bool) (text : List Char) : Except Error Piece :=
  if double then doublePiece text else .ok (singlePiece text)

structure Scanned where
  text : List Char
  cursor : Cursor

/-- Pieces and the gaps between them, up to the closing quote. -/
def pieces (double : Bool) : Nat → Cursor → Except Error Scanned
  | 0, _ => .error .unexpectedEnd
  | fuel + 1, c => do
    if c.atDocumentMark then throw .unexpectedDocumentMark
    if c.rest.isEmpty then throw .unexpectedEnd
    let p ← piece double c.rest
    let next := c.skip p.used
    match p.ending with
    | .closed => return ⟨p.text, next⟩
    | ending =>
      let gap := next.rest.takeWhile isSpace
      let folded := if ending = .escapedBreak then foldEscapedGap gap else foldGap gap
      -- A quote right after an escaped break closes the scalar.
      let more ← pieces double fuel (next.skip gap.length)
      return ⟨p.text ++ folded ++ more.text, more.cursor⟩

def scan (double : Bool) (c : Cursor) : Except Error Scanned :=
  pieces double (c.rest.length + 1) (c.skip 1)

end Quoted

end WorkloadAtlas.Yaml
