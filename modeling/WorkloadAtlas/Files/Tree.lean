import WorkloadAtlas.Files.Document
import WorkloadAtlas.Files.Error
import WorkloadAtlas.Path
/-!
Trees of files and directories, and the walk from a path text to a place in one. A walk needs a directory at
every step, also for `.`, `..` and a separator at the end.
-/

namespace WorkloadAtlas.Files

inductive Entry
  | directory
  | file (content : Document)

/-- A place: the names from the working directory down. The directories above the working directory have
the key `..`, `../..` and so on, and the root has the key `/`. -/
abbrev Key := List String

/-- Files and directories by their place; the first of several entries counts. -/
structure Tree where
  entries : List (Key × Entry)

namespace Tree

def empty : Tree := ⟨[]⟩

/-- The working directory, those above it and the root are always there. -/
def isGround (key : Key) : Bool :=
  key.all (· == "..") || key == ["/"]

def get? (tree : Tree) (key : Key) : Option Entry :=
  if isGround key then some .directory else tree.entries.lookup key

def insert (tree : Tree) (key : Key) (entry : Entry) : Tree :=
  ⟨(key, entry) :: tree.entries.filter (·.1 != key)⟩

/-- Removes what stands at a place, and everything below it. -/
def erase (tree : Tree) (key : Key) : Tree :=
  ⟨tree.entries.filter fun entry => !key.isPrefixOf entry.1⟩

/-- The place above; above the working directory lies one more `..`. -/
def parent (key : Key) : Key :=
  if key.all (· == "..") then ".." :: key
  else if key == ["/"] then key
  else key.dropLast

def nameLimit : Nat := 255

def walk (tree : Tree) : Key → List String → Except Error Key
  | key, [] => .ok key
  | key, name :: rest =>
    match tree.get? key with
    | none => .error .notFound
    | some (.file _) => .error .notDirectory
    | some .directory =>
      if name = "" ∨ name = "." then walk tree key rest
      else if name = ".." then walk tree (parent key) rest
      else if nameLimit < name.utf8ByteSize then .error .nameTooLong
      else walk tree (key ++ [name]) rest

def start (path : Path) : Key :=
  if path.isAbsolute then ["/"] else []

/-- The names in a path text, which are empty beside a separator that nothing stands next to. -/
def names (path : Path) : List String :=
  (path.text.toList.splitOn '/').map String.ofList

/-- Texts that no walk begins with. -/
def check (path : Path) : Except Error Unit :=
  if path.text.isEmpty then .error .notFound
  else if path.text.toList.contains '\x00' then .error .nulInName
  else if 4096 ≤ path.text.utf8ByteSize then .error .nameTooLong
  else .ok ()

def find (tree : Tree) (path : Path) : Except Error (Key × Entry) := do
  check path
  let key ← tree.walk (start path) (names path)
  match tree.get? key with
  | none => .error .notFound
  | some entry => .ok (key, entry)

def isFile (tree : Tree) (path : Path) : Bool :=
  match tree.find path with
  | .ok (_, .file _) => true
  | _ => false

def isDirectory (tree : Tree) (path : Path) : Bool :=
  match tree.find path with
  | .ok (_, .directory) => true
  | _ => false

def read (tree : Tree) (path : Path) : Except Error Document := do
  match ← tree.find path with
  | (_, .directory) => .error .isDirectory
  | (_, .file content) => .ok content

/-- Writes a file, which may be there already. Its directory must be there, and the path must end in a name. -/
def write (tree : Tree) (path : Path) (content : Document) : Except Error Tree := do
  check path
  let key ← tree.walk (start path) (names path).dropLast
  match tree.get? key with
  | none => .error .notFound
  | some (.file _) => .error .notDirectory
  | some .directory =>
    let name := (names path).getLastD ""
    if name = "" ∨ name = "." ∨ name = ".." then .error .isDirectory
    else if nameLimit < name.utf8ByteSize then .error .nameTooLong
    else match tree.get? (key ++ [name]) with
      | some .directory => .error .isDirectory
      | _ => .ok (tree.insert (key ++ [name]) (.file content))

/-- Makes one directory below a place, whose own directory must be there. Separators at the end do not
count. -/
def makeOne (tree : Tree) (start : Key) (names : List String) : Except Error Tree := do
  let names := (names.reverse.dropWhile (· == "")).reverse
  let key ← tree.walk start names.dropLast
  match tree.get? key with
  | none => .error .notFound
  | some (.file _) => .error .notDirectory
  | some .directory =>
    let name := names.getLastD ""
    if name = "" ∨ name = "." ∨ name = ".." then .error .alreadyExists
    else if nameLimit < name.utf8ByteSize then .error .nameTooLong
    else match tree.get? (key ++ [name]) with
      | some _ => .error .alreadyExists
      | none => .ok (tree.insert (key ++ [name]) .directory)

/-- The tree after an attempt, and how the attempt ended. -/
abbrev Attempt := Tree × Except Error Unit

/-- Makes one directory; if the one above it is missing, makes that one with `above` and tries again. A
directory that is there already is no failure. -/
def makeWith (tree : Tree) (start : Key) (names : List String) (above : Tree → Attempt) : Attempt :=
  let settle (tree : Tree) (error : Error) : Attempt :=
    match tree.walk start names with
    | .ok key => match tree.get? key with
      | some .directory => (tree, .ok ())
      | _ => (tree, .error error)
    | .error _ => (tree, .error error)
  match tree.makeOne start names with
  | .ok tree => (tree, .ok ())
  | .error .notFound =>
    match above tree with
    | (tree, .error error) => (tree, .error error)
    | (tree, .ok ()) => match tree.makeOne start names with
      | .ok tree => (tree, .ok ())
      | .error error => settle tree error
  | .error error => settle tree error

/-- Makes the directories along names, which are given from the last one back. -/
def makeChain (tree : Tree) (start : Key) : List String → Attempt
  | [] => (tree, .ok ())
  | name :: above => tree.makeWith start (name :: above).reverse fun tree => makeChain tree start above

/-- Makes a directory and all that are missing above it. The directories above are those of the path
without its empty names and its dots. -/
def makeAll (tree : Tree) (path : Path) : Attempt :=
  if path.text.isEmpty then (tree, .ok ())
  else match check path with
    | .error error => (tree, .error error)
    | .ok () =>
      let plain := (names path).filter fun name => name != "" && name != "."
      tree.makeWith (start path) (names path) fun tree =>
        makeChain tree (start path) (plain.reverse.drop 1)

/-- The names of what stands right below a place. -/
def below (tree : Tree) (key : Key) : List String :=
  tree.entries.filterMap fun entry =>
    if entry.1.dropLast == key && entry.1 != key then entry.1.getLast? else none

/-- The names in a directory, in ascending order of their bytes. -/
def list (tree : Tree) (path : Path) : List String :=
  match tree.find path with
  | .ok (key, .directory) => (tree.below key).mergeSort fun a b => Text.encode a ≤ Text.encode b
  | _ => []

end Tree

end WorkloadAtlas.Files
