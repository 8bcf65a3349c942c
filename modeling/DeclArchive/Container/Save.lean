import DeclArchive.Container.Build
import DeclArchive.Container.Header
import DeclArchive.Container.Stream

/-!
# Saving a container

The header is the last thing written. Its place is first filled with zeros, which no reader takes
for a header, so a save that stops on the way leaves nothing that opens. All places are counted from
where the stream was at the start.
-/

namespace DeclArchive

/-- What a save reports. -/
structure Summary where
  modules : Nat
  declarations : Nat
  buckets : Nat
  heapSize : Nat
  fileSize : Nat
  deriving DecidableEq, Repr

/-- The event that reports a save. -/
def Summary.event (s : Summary) : Event :=
  .containerSaved s.declarations s.modules s.fileSize s.heapSize s.buckets

/-- A result of either kind as a computation. -/
def Streaming.of {α : Type} : Except Error α → Streaming α
  | .ok x => return x
  | .error e => throw e

/-- Writes the parts at the position of the stream. -/
def Parts.save (parts : Parts) : Streaming Summary := do
  let widths := parts.format.toWidths
  let start ← Stream.tell
  Stream.write (Array.replicate (Header.size widths) 0)
  let moduleTable := (← Stream.tell) - start
  Stream.write (← Streaming.of (sectionBytes parts.format parts.modules)).toArray
  let globalTable := (← Stream.tell) - start
  Stream.write (← Streaming.of (sectionBytes parts.format parts.slots)).toArray
  let heap := (← Stream.tell) - start
  Stream.write parts.heap.bytes
  let stop ← Stream.tell
  Stream.seek start
  let header : Header := { widths, moduleTable, globalTable, heap }
  Stream.write (← Streaming.of header.encode).toArray
  Stream.seek stop
  return {
    modules := parts.modules.length
    declarations := parts.declarations
    buckets := parts.slots.length
    heapSize := parts.heap.size
    fileSize := stop - start }

/-- What became of a save: the report, the stream and the log. -/
structure SaveOutcome where
  result : Except Error Summary
  stream : Stream
  log : Log

/-- Saves a forest to a stream. -/
def Forest.save (forest : Forest) (widths : Widths) (stream : Stream) : SaveOutcome :=
  match forest.build widths with
  | (.error e, log) => ⟨.error e, stream, log⟩
  | (.ok parts, log) =>
    match parts.save.run.run stream with
    | (.error e, stream) => ⟨.error e, stream, log⟩
    | (.ok summary, stream) => ⟨.ok summary, stream, log.push summary.event⟩

/-- The container for a forest. -/
def Forest.toBytes (forest : Forest) (widths : Widths) : Except Error (Array UInt8) :=
  let outcome := forest.save widths .empty
  outcome.result.map fun _ => outcome.stream.content

end DeclArchive
