/-!
Tokens of a YAML document, and the faults that are found in one.
-/

namespace WorkloadAtlas.Yaml

inductive Style
  | plain
  | singleQuoted
  | doubleQuoted
  | literal
  | folded
deriving DecidableEq, Repr

/-- What a document is cut into. Starts and ends of block collections stand for changes of indentation, and
anchors and aliases have the number of their slot in place of a name. -/
inductive Token
  | version (major minor : Nat)
  | tagHandle (handle expansion : List Char)
  | documentStart
  | documentEnd
  | blockSequenceStart
  | blockMappingStart
  | blockEnd
  | flowSequenceStart
  | flowSequenceEnd
  | flowMappingStart
  | flowMappingEnd
  | blockEntry
  | flowEntry
  | key
  | value
  | reference (slot : Nat)
  | anchor (slot : Nat)
  | tag (handle suffix : List Char)
  | scalar (style : Style) (text : List Char)
deriving DecidableEq, Repr

/-- Why a text is no document. -/
inductive Error
  | characterNotAllowed
  | unexpectedEnd
  | unexpectedDocumentMark
  | strangeDirective
  | strangeVersion
  | repeatedDirective
  | strangeTag
  | undefinedHandle
  | strangeAnchor
  | undefinedAnchor
  | strangeEscape
  | strangeHeader
  | tabInIndentation
  | strangeColon
  | keyWithoutValue
  | entryOutOfPlace
  | keyOutOfPlace
  | valueOutOfPlace
  | noToken
  | contentMissing
  | structureBroken
  | noDocument
  | secondDocument
deriving DecidableEq, Repr

def Error.message : Error → String
  | .characterNotAllowed => "control characters are not allowed"
  | .unexpectedEnd => "a quoted scalar is not closed"
  | .unexpectedDocumentMark => "a document mark stands inside a quoted scalar"
  | .strangeDirective => "a directive cannot be read"
  | .strangeVersion => "the document has another version"
  | .repeatedDirective => "a directive is given twice"
  | .strangeTag => "a tag cannot be read"
  | .undefinedHandle => "a tag has an undefined handle"
  | .strangeAnchor => "an anchor or alias cannot be read"
  | .undefinedAnchor => "an alias has no anchor"
  | .strangeEscape => "an escape sequence cannot be read"
  | .strangeHeader => "the header of a block scalar cannot be read"
  | .tabInIndentation => "a tab stands where indentation is expected"
  | .strangeColon => "a colon stands before an indicator"
  | .keyWithoutValue => "a key has no colon after it"
  | .entryOutOfPlace => "a sequence entry cannot stand here"
  | .keyOutOfPlace => "a key cannot stand here"
  | .valueOutOfPlace => "a value cannot stand here"
  | .noToken => "a character cannot start a token"
  | .contentMissing => "a node has no content"
  | .structureBroken => "a collection is not continued or closed"
  | .noDocument => "there is no document"
  | .secondDocument => "there is more than one document"

end WorkloadAtlas.Yaml
