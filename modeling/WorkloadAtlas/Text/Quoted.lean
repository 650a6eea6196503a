import WorkloadAtlas.Text.CombiningMark
import WorkloadAtlas.Text.Unprintable
/-!
Text in double quotes, in a form that shows every character: what has no visible form of its own is written
as its code in braces.
-/

namespace WorkloadAtlas.Text

def hexCode (code : Nat) : List Char :=
  Nat.toDigits 16 code

def quoteChar (c : Char) : List Char :=
  if c == '"' || c == '\\' then ['\\', c]
  else if c == '\t' then ['\\', 't']
  else if c == '\n' then ['\\', 'n']
  else if c == '\r' then ['\\', 'r']
  else if c.toNat == 0 then ['\\', '0']
  else if isCombining c || isUnprintable c then ['\\', 'u', '\x7b'] ++ hexCode c.toNat ++ ['\x7d']
  else [c]

def quoted (s : String) : String :=
  String.ofList ('"' :: s.toList.flatMap quoteChar ++ ['"'])

end WorkloadAtlas.Text
