import WorkloadAtlas.Files.Tree
import WorkloadAtlas.Host
/-!
Surroundings as a plain value: a tree of files and the log so far.
-/

namespace WorkloadAtlas

structure Workspace where
  files : Files.Tree
  /-- The lines of the log, the last one first. -/
  journal : List Log.Entry

namespace Workspace

/-- Files without a log. -/
def ofFiles (files : Files.Tree) : Workspace :=
  ⟨files, []⟩

def log (w : Workspace) : List Log.Entry :=
  w.journal.reverse

end Workspace

abbrev Desk := StateM Workspace

instance : Host Desk where
  isFile path := fun w => (w.files.isFile path, w)
  read path := fun w => ((w.files.read path).map Files.Document.toBytes, w)
  write path content := fun w =>
    match w.files.write path content with
    | .ok files => (.ok (), { w with files })
    | .error error => (.error error, w)
  makeDirectories path := fun w =>
    let (files, outcome) := w.files.makeAll path
    (outcome, { w with files })
  log entry := fun w => ((), { w with journal := entry :: w.journal })

end WorkloadAtlas
