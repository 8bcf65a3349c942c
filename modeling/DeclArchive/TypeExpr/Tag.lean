import DeclArchive.TypeExpr

/-!
# Type tags

The outermost constructor of a type, without its payload, and the byte that stands for it. The
bytes run from `0` to `32`; `Tag.ofByte?_byte` says that a byte determines its tag.
-/

namespace DeclArchive

/-- The outermost constructor of a type. -/
inductive Tag where
  | scalar (kind : Scalar)
  | object (kind : ObjectKind)
  | indirect (kind : IndirectKind)
  | sized (kind : SizedKind)
  | callable (kind : CallableKind)
  | named (kind : NamedKind)
  | anonymous (kind : RecordKind)
  deriving DecidableEq, Repr

namespace Tag

/-- All tags in the order of their bytes. -/
def all : List Tag := [
  .scalar .void, .scalar .bool, .scalar .short, .scalar .uShort, .scalar .int, .scalar .uInt,
  .scalar .long, .scalar .uLong, .scalar .longLong, .scalar .uLongLong, .scalar .char,
  .scalar .uChar, .scalar .unichar, .scalar .cString, .scalar .float, .scalar .double,
  .named .interface, .named .struct, .named .union, .indirect .pointer, .scalar .vaList,
  .scalar .selector, .object .metaclass, .scalar .protocol, .scalar .instanceType, .object .id,
  .sized .constantArray, .indirect .incompleteArray, .callable .functionPointer, .callable .block,
  .anonymous .struct, .anonymous .union, .sized .extVector]

/-- The byte that stands for a tag: its place among all tags. -/
def byte (t : Tag) : UInt8 := UInt8.ofNat (all.idxOf t)

/-- The tag that a byte stands for. -/
def ofByte? (b : UInt8) : Option Tag := all[b.toNat]?

theorem ofByte?_byte (t : Tag) : ofByte? t.byte = some t := by
  cases t with
  | scalar k => cases k <;> decide
  | object k => cases k <;> decide
  | indirect k => cases k <;> decide
  | sized k => cases k <;> decide
  | callable k => cases k <;> decide
  | named k => cases k <;> decide
  | anonymous k => cases k <;> decide

end Tag

/-- The tag of a type. -/
def TypeExpr.tag : TypeExpr → Tag
  | .scalar kind => .scalar kind
  | .object kind _ => .object kind
  | .indirect kind _ => .indirect kind
  | .sized kind _ _ => .sized kind
  | .callable kind _ => .callable kind
  | .named kind _ => .named kind
  | .anonymous kind _ => .anonymous kind

end DeclArchive
