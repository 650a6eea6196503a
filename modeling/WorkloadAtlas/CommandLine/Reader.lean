import WorkloadAtlas.CommandLine.Setting
/-!
Reading the words of a command line one by one. The value of a setting follows its name, either behind `=` in
the same word or as the next word; a value of its own word is only read when the next setting begins or the
line ends.
-/

namespace WorkloadAtlas.CommandLine

inductive Word
  | stop
  | long (name : String) (value : Option String)
  | short (letter : Char)
  | plain

namespace Word

/-- The name before the first `=` and the value behind it. -/
def named (text : List Char) : Word :=
  let name := String.ofList (text.takeWhile (· != '='))
  match text.dropWhile (· != '=') with
  | [] => .long name none
  | _ :: value => .long name (some (String.ofList value))

/-- A single dash is a word like any other; letters behind the first one do not matter. -/
def ofText (text : String) : Word :=
  match text.toList with
  | ['-', '-'] => .stop
  | '-' :: '-' :: rest => named rest
  | '-' :: letter :: _ => .short letter
  | _ => .plain

end Word

/-- The settings read so far, and the setting named last if it is not settled, with its value if that has been
seen. -/
structure Reader where
  given : Given := {}
  open? : Option (Setting × Option String) := none

namespace Reader

/-- Settles the setting named last. -/
def settle (r : Reader) : Except Refusal Given :=
  match r.open? with
  | none => .ok r.given
  | some (setting, none) => .error (.noValue setting.name)
  | some (setting, some value) => r.given.take setting value

/-- A call for help, which comes after the setting named last. -/
def help (r : Reader) : Except Refusal Reader := do
  let _ ← r.settle
  throw .help

/-- A name with or without a value in the same word. -/
def named (r : Reader) (name : String) (value : Option String) : Except Refusal Reader :=
  match Setting.ofName? name with
  | some setting => do
    let given ← r.settle
    match value with
    | some value => return ⟨← given.take setting value, none⟩
    | none => return ⟨given, some (setting, none)⟩
  | none =>
    if name = "help" then
      match value with
      | none => r.help
      | some _ => .error (.unwantedValue "--help")
    else .error (.unknownWord ("--" ++ name))

/-- A word that stands for itself is the value of the setting named last, if that has none yet. -/
def bare (r : Reader) (text : String) : Except Refusal Reader :=
  match r.open? with
  | some (setting, none) => .ok { r with open? := some (setting, some text) }
  | _ => .error (.unknownWord text)

/-- All words. Behind `--` there are only words that stand for themselves, and none of them is known. -/
def read (r : Reader) : List String → Except Refusal Given
  | [] => r.settle
  | text :: rest =>
    match Word.ofText text with
    | .stop => match rest with
      | [] => r.settle
      | next :: _ => .error (.unknownWord next)
    | .long name value => do (← r.named name value).read rest
    | .short letter =>
      if letter = 'h' then do (← r.help).read rest
      else .error (.unknownWord (String.ofList ['-', letter]))
    | .plain => do (← r.bare text).read rest

end Reader

end WorkloadAtlas.CommandLine
