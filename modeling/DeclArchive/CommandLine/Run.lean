import DeclArchive.CommandLine.Arguments
import DeclArchive.Container.Json
import DeclArchive.Declaration.Forest.Json
import DeclArchive.Files
import DeclArchive.Json.Print

/-!
# Commands

What each command does, up to the bytes it prints. The outcome of a run is a status with two texts:
`0` if all went well, `1` if the command failed, `2` if the arguments name no command. A dump prints
nothing until all of it is known.
-/

namespace DeclArchive.CommandLine

/-! ## Outcomes -/

/-- What a run leaves. -/
structure Outcome where
  status : UInt8
  stdout : String := ""
  stderr : String := ""
  deriving DecidableEq, Repr

/-- Why a command failed: a message and what lies behind it. -/
structure Failure where
  message : String
  cause? : Option String := none
  deriving DecidableEq, Repr

namespace Failure

/-- A failure without a context. -/
def ofError (e : Error) : Failure := { message := e.message }

/-- The lines of a text, each after the first four blanks further in. -/
def indent (s : String) : String :=
  String.ofList (s.toList.flatMap fun c =>
    if c = '\n' then ['\n', ' ', ' ', ' ', ' '] else [c])

/-- The text of a failure. -/
def text (f : Failure) : String :=
  match f.cause? with
  | none => s!"Error: {f.message}\n"
  | some cause => s!"Error: {f.message}\n\nCaused by:\n    {indent cause}\n"

end Failure

/-- The text to print, or a failure, and what happened meanwhile. -/
structure Report where
  result : Except Failure String
  log : Log := #[]

/-- The lines of an event. -/
def eventText (e : Event) : String := s!"{e.level.text}:\n{e.text}\n"

/-- The lines of the events that are severe enough. -/
def logText (rank : Int) (log : Log) : String :=
  String.join ((log.toList.filter fun e => e.level.rank ≤ rank).map eventText)

/-- What a report prints. -/
def Report.outcome (rank : Int) (r : Report) : Outcome :=
  match r.result with
  | .ok stdout => { status := 0, stdout, stderr := logText rank r.log }
  | .error failure => { status := 1, stderr := logText rank r.log ++ failure.text }

/-! ## Writing -/

/-- The forest in a file with this content. -/
def forestOf (input : String) (content : Array UInt8) : Except Failure Forest :=
  match Utf8.decode content.toList with
  | .error flaw => .error ⟨s!"Could not read forest {input}", some flaw.message⟩
  | .ok text =>
    match Forest.ofText text with
    | .error mismatch => .error ⟨s!"Could not parse forest {input}", some mismatch.message⟩
    | .ok forest => .ok forest

section

variable {m : Type → Type} [Monad m] [Files m]

/-- Saves the forest in `input` to `output`. The widths are looked at before any file. -/
def write (input output : String) (widths : Widths) : m Report := do
  match widths.check with
  | .error e => return ⟨.error (.ofError e), #[]⟩
  | .ok _ =>
    match ← Files.read input with
    | .error reason => return ⟨.error ⟨s!"Could not read forest {input}", some reason⟩, #[]⟩
    | .ok content =>
      match forestOf input content with
      | .error failure => return ⟨.error failure, #[]⟩
      | .ok forest =>
        let opened := Event.forestRead forest.listedCount forest.modules.size input
        match ← forest.saveTo widths output with
        | (.error e, log) =>
          return ⟨.error ⟨s!"Could not write {output}", some e.message⟩, #[opened] ++ log⟩
        | (.ok _, log) => return ⟨.ok "", #[opened] ++ log⟩

end

/-! ## Dumping -/

/-- An error of the container as a failure. -/
def orFail {α : Type} (x : Except Error α) : Except Failure α := x.mapError .ofError

/-- The value to print for a container. -/
def dumpValue (file : String) (lookup? : Option String) (verify : Bool) (c : Container) :
    Except Failure Json := do
  if verify then orFail c.checkReferences
  match lookup? with
  | none => return c.toJson (← orFail c.declarations)
  | some name =>
    match ← orFail (c.find name) with
    | some d => return d.toJson
    | none => throw ⟨s!"`{name}` is not registered in {file}", none⟩

section

variable {m : Type → Type} [Monad m] [Files m]

/-- Prints the container in `file`. -/
def dump (file : String) (lookup? : Option String) (verify : Bool) : m Report := do
  match ← Files.read file with
  | .error reason => return ⟨.error ⟨s!"Could not read {file}", some reason⟩, #[]⟩
  | .ok content =>
    match Container.load content with
    | (.error e, log) =>
      return ⟨.error ⟨s!"{file} is not a metadata container", some e.message⟩, log⟩
    | (.ok c, log) =>
      return ⟨(dumpValue file lookup? verify c).map fun v => v.print ++ "\n", log⟩

/-! ## Runs -/

def versionText : String := "metagen 0.4.0\n"

def usageText : String :=
  "Usage: metagen [-v|-q] write -i FILE -o FILE [--pointer-size N] [--array-count-size N]\n" ++
  "       metagen [-v|-q] dump FILE [--lookup NAME] [--verify]\n"

/-- Carries out a command. -/
def Command.run : Command → m Report
  | .write input output widths => CommandLine.write input output widths
  | .dump file lookup? verify => CommandLine.dump file lookup? verify

/-- Carries out what the arguments ask for. -/
def run (args : List String) : m Outcome :=
  match parse args with
  | .error .usage => return { status := 2, stderr := usageText }
  | .error .help => return { status := 0, stdout := usageText }
  | .error .version => return { status := 0, stdout := versionText }
  | .ok request => return (← request.command.run).outcome request.rank

end

end DeclArchive.CommandLine
