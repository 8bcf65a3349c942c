import DeclArchive.Text.Utf8

/-!
# Causes of failure

Every operation that can stop returns an `Error`, which holds the cause and its numbers.
`Error.message` is the only place that words it. The last constructor is set apart: a `Fault` is an
operation applied where it has no result, never an answer about the data.
-/

namespace DeclArchive

/-- The two widths a container fixes. -/
inductive WidthName where
  | pointer
  | count
  deriving DecidableEq, Repr

def WidthName.text : WidthName → String
  | .pointer => "pointer_size"
  | .count => "array_count_size"

/-- What a forest owes to the writer. -/
inductive Broken where
  /-- A category was not merged into the interface it extends. -/
  | unmergedCategory (name extended : String)
  /-- A module lists a declaration that the forest does not hold. -/
  | missingDeclaration (module : String)
  /-- A module is not in the module table. -/
  | unlistedModule (name : String)
  /-- The second pass over a type asked for more offsets than the first one left. -/
  | missingReference
  deriving DecidableEq, Repr

def Broken.text : Broken → String
  | .unmergedCategory name extended =>
    s!"category `{name}` on `{extended}` must be merged before serialization"
  | .missingDeclaration module => s!"module `{module}` references a missing declaration"
  | .unlistedModule name => s!"module `{name}` missing from module table"
  | .missingReference => "type encoding consumed more references than it produced"

/-- What makes bytes unreadable. -/
inductive Malformed where
  | shortHeader
  | heapPastEnd
  | tooFewBytes (needed present : Nat)
  | nullText
  | unterminatedText
  | notUtf8 (flaw : Utf8.Flaw)
  | unknownTypeTag (byte : UInt8)
  | nestingTooDeep
  | fieldMismatch (names types : Nat)
  | unknownModule (index : UInt16)
  | untaggedRecord
  deriving DecidableEq, Repr

def Malformed.text : Malformed → String
  | .shortHeader => "file too short for a header"
  | .heapPastEnd => "heap offset past end of file"
  | .tooFewBytes needed present => s!"need {needed} byte(s), heap is {present} bytes"
  | .nullText => "null string offset"
  | .unterminatedText => "unterminated string"
  | .notUtf8 flaw => s!"invalid UTF-8: {flaw.message}"
  | .unknownTypeTag byte => s!"unknown type tag {byte}"
  | .nestingTooDeep => "type nesting too deep"
  | .fieldMismatch names types => s!"{names} field names but {types} field types"
  | .unknownModule index => s!"module index {index} out of range"
  | .untaggedRecord => "record has no kind tag"

/-- What a stream or a directory refused to do. -/
inductive Refusal where
  /-- The stream is full. -/
  | streamFull
  /-- A step on the directory failed; `reason` is the system's own text. -/
  | system (reason : String)
  deriving DecidableEq, Repr

def Refusal.text : Refusal → String
  | .streamFull => "failed to write whole buffer"
  | .system reason => reason

/-- An operation applied where it has no result. -/
inductive Fault where
  /-- A number of more than eight bytes. -/
  | wideNumber
  /-- A position past the largest one. -/
  | positionOverflow
  /-- A bucket in a table that has none. -/
  | emptyTable
  /-- A place past the end of a table or of the bytes. -/
  | outOfRange
  /-- A module that was never added. -/
  | unknownModule
  /-- More memory than one block can have. -/
  | blockTooLarge
  deriving DecidableEq, Repr

def Fault.text : Fault → String
  | .wideNumber => "number wider than eight bytes"
  | .positionOverflow => "position overflow"
  | .emptyTable => "table without buckets"
  | .outOfRange => "place out of range"
  | .unknownModule => "no such module"
  | .blockTooLarge => "block of memory too large"

/-- Why an operation stopped. -/
inductive Error where
  /-- An offset does not fit the width of a pointer. -/
  | offsetOverflow (offset : Nat) (width : UInt8)
  /-- A count does not fit its field. -/
  | countOverflow (count : Nat) (width : UInt8)
  /-- A width is not between one and eight. -/
  | invalidWidth (name : WidthName) (value : UInt8)
  /-- The forest breaks its contract. -/
  | broken (what : Broken)
  /-- No declaration has this public name. -/
  | unresolved (name : String)
  /-- The bytes at `position` cannot be read. -/
  | malformed (position : Nat) (reason : Malformed)
  /-- A stream or directory step failed. -/
  | refused (reason : Refusal)
  /-- The operation has no result here. -/
  | fault (what : Fault)
  deriving DecidableEq, Repr

/-- The wording of an error. -/
def Error.message : Error → String
  | .offsetOverflow offset width => s!"offset {offset} does not fit in a {width}-byte pointer"
  | .countOverflow count width => s!"count {count} does not fit in {width} byte(s)"
  | .invalidWidth name value => s!"{name.text} must be between 1 and 8, got {value}"
  | .broken what => s!"invariant violation: {what.text}"
  | .unresolved name => s!"unresolved declaration reference: {name}"
  | .malformed position reason => s!"malformed metadata at {position}: {reason.text}"
  | .refused reason => s!"I/O error: {reason.text}"
  | .fault what => what.text

end DeclArchive
