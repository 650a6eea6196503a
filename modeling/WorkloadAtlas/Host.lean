import WorkloadAtlas.Files.Document
import WorkloadAtlas.Files.Error
import WorkloadAtlas.Log
import WorkloadAtlas.Path
/-!
What a run needs of its surroundings: files, directories and a log.
-/

namespace WorkloadAtlas

class Host (m : Type → Type) where
  /-- Whether a regular file stands at the path. -/
  isFile : Path → m Bool
  read : Path → m (Except Files.Error (List UInt8))
  write : Path → Files.Document → m (Except Files.Error Unit)
  /-- Makes a directory and all that are missing above it. -/
  makeDirectories : Path → m (Except Files.Error Unit)
  log : Log.Entry → m Unit

namespace Host

variable {m : Type → Type}

def info [Host m] (message : String) : m Unit :=
  log ⟨.info, .program, message⟩

def debug [Host m] (source : Log.Source) (message : String) : m Unit :=
  log ⟨.debug, source, message⟩

end Host

/-- Further state that the surroundings do not see. -/
instance {m : Type → Type} {σ : Type} [Monad m] [Host m] : Host (StateT σ m) where
  isFile path := StateT.lift (Host.isFile path)
  read path := StateT.lift (Host.read path)
  write path content := StateT.lift (Host.write path content)
  makeDirectories path := StateT.lift (Host.makeDirectories path)
  log entry := StateT.lift (Host.log entry)

end WorkloadAtlas
