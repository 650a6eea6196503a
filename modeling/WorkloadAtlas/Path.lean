/-!
Path texts and how one is put below another. Nothing is normalised: repeated separators, `.` and `..`
stay as they are written.
-/

namespace WorkloadAtlas

/-- The text of a path, with `/` between its components. -/
structure Path where
  text : String
deriving DecidableEq, Repr, Inhabited

namespace Path

/-- An absolute path starts with the separator. -/
def isAbsolute (p : Path) : Bool :=
  p.text.toList.head? == some '/'

/-- The text ends where a further component can follow at once. -/
def endsOpen (p : Path) : Bool :=
  p.text.toList.getLast? == some '/'

/-- The path `file` seen from `dir`. An absolute `file` replaces `dir`, and an empty `dir` adds nothing;
otherwise exactly one separator is put between the two unless `dir` already ends in one. -/
def join (dir file : Path) : Path :=
  if file.isAbsolute || dir.text.isEmpty then file
  else if dir.endsOpen then ⟨dir.text ++ file.text⟩
  else ⟨dir.text ++ "/" ++ file.text⟩

end Path

end WorkloadAtlas
