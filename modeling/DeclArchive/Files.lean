import DeclArchive.Container.Save

/-!
# Files

`Files` lists what is asked of a file system. A request is granted, or refused with a reason. A file
is replaced in two steps: the new content goes to a temporary file beside it, which then takes its
name. The file itself is never open for writing, so it holds its old content or the new one.
-/

namespace DeclArchive

/-- What is asked of a file system. -/
class Files (m : Type → Type) where
  /-- The content of a file. -/
  read (path : String) : m (Except String (Array UInt8))
  /-- Creates an empty file beside `path`, under a name that nothing has. -/
  createBeside (path : String) : m (Except String String)
  /-- Writes the content of a temporary file; a refused request may leave a part of it. -/
  fill (temporary : String) (content : Array UInt8) : m (Except String Unit)
  /-- Gives a temporary file the name `path`, and removes what had that name. A refused request
  changes nothing. -/
  persist (temporary path : String) : m (Except String Unit)
  /-- Removes a temporary file. -/
  discard (temporary : String) : m Unit

namespace Files

variable {m : Type → Type} [Monad m] [Files m]

/-- Fills a temporary file and gives it the name `path`. -/
def fillAndPersist (temporary path : String) (content : Array UInt8) :
    m (Except String Unit) := do
  match ← fill temporary content with
  | .error reason => return .error reason
  | .ok () => persist temporary path

/-- Replaces the content of a file, or changes nothing. -/
def replace (path : String) (content : Array UInt8) : m (Except String Unit) := do
  match ← createBeside path with
  | .error reason => return .error reason
  | .ok temporary =>
    match ← fillAndPersist temporary path content with
    | .ok () => return .ok ()
    | .error reason =>
      discard temporary
      return .error reason

end Files

/-- Saves a forest to a file. The container is complete before the file system is asked. -/
def Forest.saveTo {m : Type → Type} [Monad m] [Files m] (forest : Forest) (widths : Widths)
    (path : String) : m (Except Error Summary × Log) := do
  let outcome := forest.save widths .empty
  match outcome.result with
  | .error e => return (.error e, outcome.log)
  | .ok summary =>
    match ← Files.replace path outcome.stream.content with
    | .error reason => return (.error (.refused (.system reason)), outcome.log)
    | .ok () => return (.ok summary, outcome.log)

end DeclArchive
