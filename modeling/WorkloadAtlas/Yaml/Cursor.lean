import WorkloadAtlas.Yaml.Character
/-!
A place in a document and the text from there on.
-/

namespace WorkloadAtlas.Yaml

/-- How many characters and lines lie before a place, and how many characters of its own line. -/
structure Mark where
  index : Nat
  line : Nat
  column : Nat
deriving DecidableEq, Repr

def Mark.after (m : Mark) (c : Char) : Mark :=
  if isBreak c then ⟨m.index + 1, m.line + 1, 0⟩ else ⟨m.index + 1, m.line, m.column + 1⟩

/-- The text that is still to be read, and where it starts. -/
structure Cursor where
  rest : List Char
  mark : Mark
deriving Repr

namespace Cursor

def ofText (text : List Char) : Cursor :=
  ⟨text, ⟨0, 0, 0⟩⟩

/-- Moves over at most `count` characters. -/
def skip : Nat → Cursor → Cursor
  | 0, c => c
  | _ + 1, ⟨[], mark⟩ => ⟨[], mark⟩
  | count + 1, ⟨x :: rest, mark⟩ => skip count ⟨rest, mark.after x⟩

/-- Moves over the characters at the front that satisfy `p`. -/
def skipWhile (p : Char → Bool) (c : Cursor) : Cursor :=
  c.skip (c.rest.takeWhile p).length

def column (c : Cursor) : Nat :=
  c.mark.column

def peek? (c : Cursor) : Option Char :=
  c.rest.head?

/-- The text from here on begins with the three characters of a document mark and no further word. -/
def startsWithMark (c : Cursor) (mark : List Char) : Bool :=
  c.column == 0 && mark.isPrefixOf c.rest && endsWord (c.rest.drop mark.length)

def atDocumentMark (c : Cursor) : Bool :=
  c.startsWithMark ['-', '-', '-'] || c.startsWithMark ['.', '.', '.']

end Cursor

end WorkloadAtlas.Yaml
