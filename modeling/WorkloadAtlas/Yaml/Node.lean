import WorkloadAtlas.Yaml.Token
/-!
Documents as trees of nodes, and their reading from tokens.
-/

namespace WorkloadAtlas.Yaml

/-- What may stand before the content of a node: the slot of its anchor, and its tag in full. -/
structure Properties where
  anchor : Option Nat
  tag : Option (List Char)
deriving DecidableEq, Repr

inductive Node
  | reference (slot : Nat)
  | scalar (properties : Properties) (style : Style) (text : List Char)
  | sequence (properties : Properties) (items : List Node)
  | mapping (properties : Properties) (entries : List (Node × Node))

namespace Node

def empty : Node :=
  .scalar ⟨none, none⟩ .plain []

def anchor? : Node → Option Nat
  | .reference _ => none
  | .scalar p _ _ | .sequence p _ | .mapping p _ => p.anchor

mutual

/-- The node and all nodes below it, each before those that it holds. -/
def all : Node → List Node
  | .reference slot => [.reference slot]
  | .scalar p style text => [.scalar p style text]
  | .sequence p items => .sequence p items :: allItems items
  | .mapping p entries => .mapping p entries :: allEntries entries

def allItems : List Node → List Node
  | [] => []
  | item :: rest => all item ++ allItems rest

def allEntries : List (Node × Node) → List Node
  | [] => []
  | (key, value) :: rest => all key ++ all value ++ allEntries rest

end

/-- The node that a slot stands for: the last one whose anchor has it. -/
def slot? (document : Node) (slot : Nat) : Option Node :=
  document.all.reverse.find? fun node => node.anchor? == some slot

/-- The node itself, or the one that it is an alias of. -/
def follow? (document node : Node) : Option Node :=
  match node with
  | .reference slot => document.slot? slot
  | other => some other

end Node

structure Parsed (α : Type) where
  value : α
  rest : List Token

abbrev Handles := List (List Char × List Char)

namespace Handles

/-- The handles that need no directive. -/
def standard : Handles :=
  [(['!'], ['!']), (['!', '!'], "tag:yaml.org,2002:".toList)]

/-- The full tag; a tag without a handle is full already. -/
def expand (handles : Handles) (handle suffix : List Char) : Except Error (List Char) :=
  if handle.isEmpty then .ok suffix
  else match handles.lookup handle with
    | none => .error .undefinedHandle
    | some expansion => .ok (expansion ++ suffix)

end Handles

namespace Parse

def properties (handles : Handles) : List Token → Except Error (Parsed Properties)
  | .anchor slot :: .tag handle suffix :: rest
  | .tag handle suffix :: .anchor slot :: rest => do
    return ⟨⟨some slot, some (← handles.expand handle suffix)⟩, rest⟩
  | .anchor slot :: rest => .ok ⟨⟨some slot, none⟩, rest⟩
  | .tag handle suffix :: rest => do return ⟨⟨none, some (← handles.expand handle suffix)⟩, rest⟩
  | rest => .ok ⟨⟨none, none⟩, rest⟩

/-- In which surroundings a node stands: inside of flow collections, in a block, or as key or value of a block
mapping, where a sequence needs no indentation of its own. -/
inductive Place
  | flow
  | block
  | mapping
deriving DecidableEq, Repr

/-- No node stands before these tokens in a block sequence. -/
def endsItem : List Token → Bool
  | .blockEntry :: _ | .blockEnd :: _ => true
  | _ => false

def endsPart : List Token → Bool
  | .key :: _ | .value :: _ | .blockEnd :: _ => true
  | _ => false

def endsFlowItem : List Token → Bool
  | .flowEntry :: _ | .flowSequenceEnd :: _ => true
  | _ => false

def endsFlowPart : List Token → Bool
  | .flowEntry :: _ | .flowMappingEnd :: _ => true
  | _ => false

/-- The separator between the entries of a flow collection; none stands before the first one. -/
def separator (isFirst : Bool) : List Token → Except Error (List Token)
  | tokens =>
    if isFirst then .ok tokens
    else match tokens with
      | .flowEntry :: rest => .ok rest
      | _ => .error .structureBroken

mutual

def node (handles : Handles) : Nat → Place → List Token → Except Error (Parsed Node)
  | 0, _, _ => .error .structureBroken
  | fuel + 1, place, tokens =>
    match tokens with
    | .reference slot :: rest => .ok ⟨.reference slot, rest⟩
    | _ => do
      let ⟨p, rest⟩ ← properties handles tokens
      match rest, place with
      | .blockEntry :: _, .mapping =>
        let ⟨items, rest⟩ ← plainItems handles fuel rest
        return ⟨.sequence p items, rest⟩
      | .scalar style text :: rest, _ => return ⟨.scalar p style text, rest⟩
      | .flowSequenceStart :: rest, _ =>
        let ⟨items, rest⟩ ← flowItems handles fuel true rest
        return ⟨.sequence p items, rest⟩
      | .flowMappingStart :: rest, _ =>
        let ⟨entries, rest⟩ ← flowEntries handles fuel true rest
        return ⟨.mapping p entries, rest⟩
      | .blockSequenceStart :: rest, .block | .blockSequenceStart :: rest, .mapping =>
        let ⟨items, rest⟩ ← blockItems handles fuel rest
        return ⟨.sequence p items, rest⟩
      | .blockMappingStart :: rest, .block | .blockMappingStart :: rest, .mapping =>
        let ⟨entries, rest⟩ ← blockEntries handles fuel rest
        return ⟨.mapping p entries, rest⟩
      | rest, _ =>
        if p.anchor.isNone && p.tag.isNone then throw .contentMissing
        return ⟨.scalar p .plain [], rest⟩

def blockItems (handles : Handles) : Nat → List Token → Except Error (Parsed (List Node))
  | 0, _ => .error .structureBroken
  | fuel + 1, tokens =>
    match tokens with
    | .blockEntry :: rest => do
      let ⟨item, rest⟩ ← if endsItem rest then pure ⟨Node.empty, rest⟩ else node handles fuel .block rest
      let ⟨items, rest⟩ ← blockItems handles fuel rest
      return ⟨item :: items, rest⟩
    | .blockEnd :: rest => .ok ⟨[], rest⟩
    | _ => .error .structureBroken

/-- The items of a sequence that is not indented; the first token that starts no item ends it. -/
def plainItems (handles : Handles) : Nat → List Token → Except Error (Parsed (List Node))
  | 0, _ => .error .structureBroken
  | fuel + 1, tokens =>
    match tokens with
    | .blockEntry :: rest => do
      let ⟨item, rest⟩ ← if endsItem rest || endsPart rest then pure ⟨Node.empty, rest⟩
        else node handles fuel .block rest
      let ⟨items, rest⟩ ← plainItems handles fuel rest
      return ⟨item :: items, rest⟩
    | rest => .ok ⟨[], rest⟩

def blockEntries (handles : Handles) : Nat → List Token → Except Error (Parsed (List (Node × Node)))
  | 0, _ => .error .structureBroken
  | fuel + 1, tokens =>
    match tokens with
    | .key :: rest => do
      let ⟨key, rest⟩ ← if endsPart rest then pure ⟨Node.empty, rest⟩ else node handles fuel .mapping rest
      let ⟨value, rest⟩ ← match rest with
        | .value :: rest =>
          if endsPart rest then pure ⟨Node.empty, rest⟩ else node handles fuel .mapping rest
        | rest => pure ⟨Node.empty, rest⟩
      let ⟨entries, rest⟩ ← blockEntries handles fuel rest
      return ⟨(key, value) :: entries, rest⟩
    | .blockEnd :: rest => .ok ⟨[], rest⟩
    | _ => .error .structureBroken

def flowItems (handles : Handles) : Nat → Bool → List Token → Except Error (Parsed (List Node))
  | 0, _, _ => .error .structureBroken
  | fuel + 1, isFirst, tokens =>
    match tokens with
    | .flowSequenceEnd :: rest => .ok ⟨[], rest⟩
    | _ => do
      match ← separator isFirst tokens with
      | .flowSequenceEnd :: rest => return ⟨[], rest⟩
      | .key :: rest =>
        let ⟨item, rest⟩ ← pair handles fuel rest
        let ⟨items, rest⟩ ← flowItems handles fuel false rest
        return ⟨item :: items, rest⟩
      | rest =>
        let ⟨item, rest⟩ ← node handles fuel .flow rest
        let ⟨items, rest⟩ ← flowItems handles fuel false rest
        return ⟨item :: items, rest⟩

/-- A single key with its value as an item of a flow sequence. A token right after the key that ends it is
taken up with it. -/
def pair (handles : Handles) : Nat → List Token → Except Error (Parsed Node)
  | 0, _ => .error .structureBroken
  | fuel + 1, tokens => do
    let ⟨key, rest⟩ ← match tokens with
      | .value :: rest | .flowEntry :: rest | .flowSequenceEnd :: rest => pure ⟨Node.empty, rest⟩
      | _ => node handles fuel .flow tokens
    let ⟨value, rest⟩ ← match rest with
      | .value :: rest =>
        if endsFlowItem rest then pure ⟨Node.empty, rest⟩ else node handles fuel .flow rest
      | rest => pure ⟨Node.empty, rest⟩
    return ⟨.mapping ⟨none, none⟩ [(key, value)], rest⟩

/-- The entries of a flow mapping up to its end. An entry that is not marked as a key has no value. -/
def flowEntries (handles : Handles) : Nat → Bool → List Token → Except Error (Parsed (List (Node × Node)))
  | 0, _, _ => .error .structureBroken
  | fuel + 1, isFirst, tokens =>
    match tokens with
    | .flowMappingEnd :: rest => .ok ⟨[], rest⟩
    | _ => do
      match ← separator isFirst tokens with
      | .flowMappingEnd :: rest => return ⟨[], rest⟩
      | .key :: rest =>
        let isLeftOut := match rest with
          | .value :: _ => true
          | rest => endsFlowPart rest
        let ⟨key, rest⟩ ← if isLeftOut then pure ⟨Node.empty, rest⟩ else node handles fuel .flow rest
        let ⟨value, rest⟩ ← match rest with
          | .value :: rest =>
            if endsFlowPart rest then pure ⟨Node.empty, rest⟩ else node handles fuel .flow rest
          | rest => pure ⟨Node.empty, rest⟩
        let ⟨entries, rest⟩ ← flowEntries handles fuel false rest
        return ⟨(key, value) :: entries, rest⟩
      | rest =>
        let ⟨key, rest⟩ ← node handles fuel .flow rest
        let ⟨entries, rest⟩ ← flowEntries handles fuel false rest
        return ⟨(key, .empty) :: entries, rest⟩

end

/-- The directives before a document. A version is given at most once, and a handle too. -/
def directives : Bool → Handles → List Token → Except Error (Parsed Handles)
  | hasVersion, handles, .version major minor :: rest =>
    if hasVersion then .error .repeatedDirective
    else if major = 1 ∧ (minor = 1 ∨ minor = 2) then directives true handles rest
    else .error .strangeVersion
  | hasVersion, handles, .tagHandle handle expansion :: rest =>
    if (handles.lookup handle).isSome then .error .repeatedDirective
    else directives hasVersion ((handle, expansion) :: handles) rest
  | _, handles, rest => .ok ⟨handles, rest⟩

/-- No node stands before these tokens in a document that starts with a mark. -/
def endsDocument : List Token → Bool
  | [] | .version .. :: _ | .tagHandle .. :: _ | .documentStart :: _ | .documentEnd :: _ => true
  | _ => false

def isDocumentEnd : Token → Bool
  | .documentEnd => true
  | _ => false

/-- The only document of a stream of tokens. Directives need a mark before the document. -/
def document (tokens : List Token) : Except Error Node := do
  let fuel := 4 * tokens.length + 4
  let ⟨root, rest⟩ ← match tokens with
    | [] => throw .noDocument
    | .version .. :: _ | .tagHandle .. :: _ | .documentStart :: _ =>
      let ⟨handles, rest⟩ ← directives false [] tokens
      match rest with
      | .documentStart :: rest =>
        if endsDocument rest then pure ⟨Node.empty, rest⟩ else node (handles ++ .standard) fuel .block rest
      | _ => throw .structureBroken
    | _ => node .standard fuel .block tokens
  if rest.all isDocumentEnd then return root else throw .secondDocument

end Parse

end WorkloadAtlas.Yaml
