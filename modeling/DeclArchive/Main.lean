import DeclArchive.CommandLine.Run

/-!
# The program

The file system of the machine as `Files`, and the entry point.
-/

namespace DeclArchive.CommandLine

/-- The result of an action, or the reason of its failure. -/
def attempt {α : Type} (action : IO α) : IO (Except String α) := do
  try
    return .ok (← action)
  catch e =>
    return .error (toString e)

/-- The part of a path before its last name. -/
def directoryPart (path : String) : String :=
  let trimmed := path.toList.reverse.dropWhile (· == '/')
  String.ofList (trimmed.dropWhile (· != '/')).reverse

/-- Creates an empty file with a new name in the directory of `path`. A few names are tried, in case
one of them is taken. -/
def createTemporary (path : String) : (attempts : Nat) → IO (Except String String)
  | 0 => return .error "no free name for a temporary file"
  | attempts + 1 => do
    let tag ← IO.rand 0 (2 ^ 48)
    let name := s!"{directoryPart path}.tmp{tag}"
    match ← attempt (IO.FS.Handle.mk name .writeNew) with
    | .ok _ => return .ok name
    | .error reason => if attempts = 0 then return .error reason else createTemporary path attempts

instance : Files IO where
  read path := attempt do
    let content ← IO.FS.readBinFile path
    return content.data
  createBeside path := createTemporary path 8
  fill temporary content := attempt (IO.FS.writeBinFile temporary ⟨content⟩)
  persist temporary path := attempt (IO.FS.rename temporary path)
  discard temporary := do let _ ← attempt (IO.FS.removeFile temporary)

end DeclArchive.CommandLine

/-- Carries out the arguments, prints what they lead to and returns the status. -/
def main (args : List String) : IO UInt32 := do
  let outcome : DeclArchive.CommandLine.Outcome ← DeclArchive.CommandLine.run args
  (← IO.getStderr).putStr outcome.stderr
  (← IO.getStdout).putStr outcome.stdout
  return outcome.status.toUInt32
