import DeclArchive.Declaration
import DeclArchive.Heap

/-!
# Log

What a run reports beside its result, as data. `Event.level` and `Event.text` give the severity and
the wording of an event; a `Log` holds events in the order in which they happened.
-/

namespace DeclArchive

inductive Level where
  | error
  | warn
  | info
  | debug
  | trace
  deriving DecidableEq, Repr

def Level.text : Level → String
  | .error => "ERROR"
  | .warn => "WARN"
  | .info => "INFO"
  | .debug => "DEBUG"
  | .trace => "TRACE"

/-- Larger for less severe levels. -/
def Level.rank : Level → Int
  | .error => 0
  | .warn => 1
  | .info => 2
  | .debug => 3
  | .trace => 4

inductive Event where
  /-- A public name was registered that is already in the index. -/
  | duplicateName (name : String)
  /-- The initializers of a class are not one block; the first block holds `run` of `total`. -/
  | scatteredInitializers (run total : Nat)
  /-- The record of a declaration is complete. -/
  | recordWritten (kind : Kind) (name : String) (record : Offset)
  /-- The index was written to the heap. -/
  | indexWritten (entries buckets occupied longest : Nat)
  /-- A container was saved. -/
  | containerSaved (declarations modules fileSize heapSize buckets : Nat)
  /-- A container was opened. -/
  | containerOpened (modules buckets heapSize : Nat)
  /-- A forest was read from `source`. -/
  | forestRead (declarations modules : Nat) (source : String)
  deriving DecidableEq, Repr

namespace Event

def level : Event → Level
  | .duplicateName _ => .warn
  | .scatteredInitializers _ _ => .warn
  | .recordWritten _ _ _ => .debug
  | .indexWritten _ _ _ _ => .trace
  | .containerSaved _ _ _ _ _ => .info
  | .containerOpened _ _ _ => .debug
  | .forestRead _ _ _ => .debug

def text : Event → String
  | .duplicateName name => s!"duplicate global symbol `{name}`; lookups return the first"
  | .scatteredInitializers run total =>
    s!"initializers are not contiguous after sorting ({run} of {total} in the first run)"
  | .recordWritten kind name record =>
    s!"serialized {kind.text} `{name}` at {record.text}"
  | .indexWritten entries buckets occupied longest =>
    s!"global table: {entries} entries in {buckets} buckets, {occupied} occupied, longest chain " ++
      s!"{longest}"
  | .containerSaved declarations modules fileSize heapSize buckets =>
    s!"wrote {declarations} declarations from {modules} modules: {fileSize} bytes " ++
      s!"({heapSize} heap, {buckets} buckets)"
  | .containerOpened modules buckets heapSize =>
    s!"loaded container: {modules} modules, {buckets} buckets, {heapSize} heap bytes"
  | .forestRead declarations modules source =>
    s!"read {declarations} declarations in {modules} modules from {source}"

end Event

/-- Events in the order in which they happened. -/
abbrev Log := Array Event

end DeclArchive
