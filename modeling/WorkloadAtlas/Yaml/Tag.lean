import WorkloadAtlas.Yaml.BlockScalar
/-!
Tags, anchors and directives.
-/

namespace WorkloadAtlas.Yaml

structure Named where
  text : List Char
  cursor : Cursor

namespace Tag

/-- Characters of a tag; those of flow collections belong to it only between angle brackets and in directives. -/
def isUriChar (verbatim : Bool) (c : Char) : Bool :=
  isNameChar c || [';', '/', '?', ':', '@', '&', '=', '+', '$', '.', '%', '!', '~', '*', '\'', '(', ')'].contains c
    || (verbatim && [',', '[', ']'].contains c)

/-- How many bytes a character takes whose first byte is given. -/
def width? (byte : Nat) : Option Nat :=
  if byte < 0x80 then some 1
  else if byte / 0x20 = 6 then some 2
  else if byte / 0x10 = 14 then some 3
  else if byte / 8 = 30 then some 4
  else none

def escapedByte? : List Char → Option Nat
  | '%' :: a :: b :: _ => hexNumber? 2 [a, b]
  | _ => none

def escapedChar? (text : List Char) : Option (List Nat) := do
  let first ← escapedByte? text
  let width ← width? first
  let others ← (List.range (width - 1)).mapM fun i => do
    let byte ← escapedByte? (text.drop (3 * (i + 1)))
    if byte / 0x40 = 2 then some byte else none
  return first :: others

/-- The rest of a tag: what it stands for, and how many characters it takes. Escaped bytes are kept one by
one. -/
def uri (verbatim : Bool) (text : List Char) : Except Error (List Char × Nat) :=
  match text with
  | [] => .ok ([], 0)
  | c :: rest =>
    if !isUriChar verbatim c then .ok ([], 0)
    else if c == '%' then
      match escapedChar? (c :: rest) with
      | none => .error .strangeTag
      | some bytes => do
        let (more, used) ← uri verbatim (rest.drop (3 * bytes.length - 1))
        return (bytes.map Char.ofNat ++ more, used + 3 * bytes.length)
    else do
      let (more, used) ← uri verbatim rest
      return (c :: more, used + 1)
termination_by text.length
decreasing_by all_goals simp only [List.length_drop, List.length_cons]; omega

/-- An exclamation mark, a name, and maybe a second mark. -/
def handle (c : Cursor) : Except Error Named :=
  if c.peek? == some '!' then
    let name := (c.rest.drop 1).takeWhile isNameChar
    let c := c.skip (name.length + 1)
    if c.peek? == some '!' then .ok ⟨'!' :: name ++ ['!'], c.skip 1⟩ else .ok ⟨'!' :: name, c⟩
  else .error .strangeTag

/-- The handle and the suffix of a tag, and the place after it. -/
structure Scanned where
  handle : List Char
  suffix : List Char
  cursor : Cursor

/-- A tag between angle brackets stands for itself. -/
def verbatim (c : Cursor) : Except Error Scanned := do
  let c := c.skip 2
  let (text, used) ← uri true c.rest
  let c := c.skip used
  if text.isEmpty || c.peek? != some '>' then throw .strangeTag
  return ⟨[], text, c.skip 1⟩

/-- A tag with a handle, which ends in a second mark, or without one. A mark alone is the tag of that name. -/
def shorthand (c : Cursor) : Except Error Scanned := do
  let h ← handle c
  let (more, used) ← uri false h.cursor.rest
  let after := h.cursor.skip used
  if 1 < h.text.length && h.text.getLast? == some '!' then
    if used = 0 then throw .strangeTag
    return ⟨h.text, more, after⟩
  else
    let suffix := h.text.drop 1 ++ more
    if suffix.isEmpty then return ⟨[], ['!'], after⟩ else return ⟨['!'], suffix, after⟩

/-- The tag at the front. A blank or a break follows it, or a comma inside of a flow collection. -/
def scan (inFlow : Bool) (c : Cursor) : Except Error Scanned := do
  let tag ← if (c.rest.drop 1).head? == some '<' then verbatim c else shorthand c
  if endsWord tag.cursor.rest || (inFlow && tag.cursor.peek? == some ',') then return tag
  else throw .strangeTag

end Tag

namespace Anchor

/-- Characters other than blanks and breaks that may follow the name of an anchor. -/
def mayFollow (c : Char) : Bool :=
  isSpace c || ['?', ':', ',', ']', '}', '%', '@', '\x60'].contains c

/-- The name of the anchor or alias whose indicator stands at the front. -/
def scan (c : Cursor) : Except Error Named :=
  let c := c.skip 1
  let name := c.rest.takeWhile isNameChar
  let after := c.skip name.length
  if name.isEmpty || !after.rest.head?.all mayFollow then .error .strangeAnchor
  else .ok ⟨name, after⟩

end Anchor

namespace Directive

/-- One number of a version; it has at most nine digits. -/
def number (c : Cursor) : Except Error (Nat × Cursor) :=
  let digits := c.rest.takeWhile fun x => (BlockScalar.digit? x).isSome
  if digits.isEmpty || 9 < digits.length then .error .strangeDirective
  else .ok (digits.foldl (fun n d => 10 * n + (BlockScalar.digit? d).getD 0) 0, c.skip digits.length)

def version (c : Cursor) : Except Error (Token × Cursor) := do
  let (major, c) ← number (c.skipWhile isBlank)
  if c.peek? != some '.' then throw .strangeDirective
  let (minor, c) ← number (c.skip 1)
  return (.version major minor, c)

/-- A handle in a directive is a single mark or ends in a second one. -/
def tagHandle (c : Cursor) : Except Error (Token × Cursor) := do
  let h ← Tag.handle (c.skipWhile isBlank)
  if h.text != ['!'] && (h.text.length ≤ 1 || h.text.getLast? != some '!') then throw .strangeDirective
  if !h.cursor.peek?.any isBlank then throw .strangeDirective
  let c := h.cursor.skipWhile isBlank
  let (expansion, used) ← Tag.uri true c.rest
  let c := c.skip used
  if used = 0 || !endsWord c.rest then throw .strangeDirective
  return (.tagHandle h.text expansion, c)

/-- The directive whose indicator stands at the front, up to the end of its line. -/
def scan (c : Cursor) : Except Error (Token × Cursor) := do
  let c := c.skip 1
  let name := c.rest.takeWhile isNameChar
  let c := c.skip name.length
  if !endsWord c.rest then throw .strangeDirective
  let (token, c) ← if name == "YAML".toList then version c
    else if name == "TAG".toList then tagHandle c
    else throw .strangeDirective
  return (token, ← BlockScalar.endLine c .strangeDirective)

end Directive

end WorkloadAtlas.Yaml
