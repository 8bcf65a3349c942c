import DeclArchive.LittleEndian

/-!
# JSON values

A value keeps what a reader may need to tell apart: whole numbers from other numbers, every key of an
object in the order written, repeated ones included, and what is well written but stands for nothing.
The second part reads values as numbers, texts, lists and fields; a `Mismatch` says which expectation
failed.
-/

namespace DeclArchive

inductive Json where
  | null
  | bool (value : Bool)
  /-- A number without fraction and exponent. -/
  | integer (value : Int)
  /-- Any other number, as written. -/
  | decimal (literal : String)
  | text (value : String)
  | list (values : List Json)
  | object (fields : List (String × Json))
  /-- Well written, but without a value: half of a surrogate pair in a text or key, a number out of
  range, or nesting too deep. Harmless where nobody reads it. -/
  | unreadable

instance : Inhabited Json := ⟨.null⟩

/-! ## Depth -/

mutual

/-- The number of levels of a value. -/
def Json.depth : Json → Nat
  | .null | .bool _ | .integer _ | .decimal _ | .text _ | .unreadable => 1
  | .list values => depthOfValues values + 1
  | .object fields => depthOfMembers fields + 1

/-- The depth of the deepest of these values. -/
def depthOfValues : List Json → Nat
  | [] => 0
  | v :: vs => max v.depth (depthOfValues vs)

/-- The depth of the deepest value among these fields. -/
def depthOfMembers : List (String × Json) → Nat
  | [] => 0
  | (_, v) :: vs => max v.depth (depthOfMembers vs)

end

/-! ## Readable values -/

mutual

/-- Whether no part of a value is unreadable. -/
def Json.isReadable : Json → Bool
  | .null | .bool _ | .integer _ | .decimal _ | .text _ => true
  | .list values => allReadable values
  | .object fields => allMembersReadable fields
  | .unreadable => false

/-- Whether all of these values are readable. -/
def allReadable : List Json → Bool
  | [] => true
  | v :: vs => v.isReadable && allReadable vs

/-- Whether the values of all of these fields are readable. -/
def allMembersReadable : List (String × Json) → Bool
  | [] => true
  | (_, v) :: vs => v.isReadable && allMembersReadable vs

end

/-! ## Expectations -/

/-- Why a value is not what it is taken for. -/
inductive Mismatch where
  | wrongKind (expected : String)
  | outOfRange (value : Int)
  | missing (key : String)
  | repeated (key : String)
  | unknownName (name : String)
  | tooDeep
  | unreadable
  deriving DecidableEq, Repr

def Mismatch.message : Mismatch → String
  | .wrongKind expected => s!"expected {expected}"
  | .outOfRange value => s!"number {value} is out of range"
  | .missing key => s!"missing field `{key}`"
  | .repeated key => s!"duplicate field `{key}`"
  | .unknownName name => s!"unknown variant `{name}`"
  | .tooDeep => "nesting too deep"
  | .unreadable => "unreadable value"

namespace Json

/-- A way to take a value for something. -/
abbrev As (α : Type) := Json → Except Mismatch α

/-- A value of which every part is readable. -/
def whole : As Json := fun v => if v.isReadable then .ok v else .error .unreadable

def asBool : As Bool
  | .bool b => .ok b
  | _ => .error (.wrongKind "a boolean")

def asText : As String
  | .text s => .ok s
  | _ => .error (.wrongKind "a string")

/-- A whole number from `low` to `high`. -/
def asInteger (low high : Int) : As Int
  | .integer n => if low ≤ n ∧ n ≤ high then .ok n else .error (.outOfRange n)
  | _ => .error (.wrongKind "an integer")

/-- A natural number that `bytes` bytes hold. -/
def asNat (bytes : Nat) : As Nat := fun v =>
  return (← v.asInteger 0 (LittleEndian.span bytes - 1 : Nat)).toNat

def asUInt32 : As UInt32 := fun v => return UInt32.ofNat (← v.asNat 4)

def asInt32 : As Int32 := fun v => return Int32.ofInt (← v.asInteger (-0x80000000) 0x7FFFFFFF)

/-- A list of things of one kind. -/
def asList {α : Type} (read : As α) : As (List α)
  | .list values => values.mapM read
  | _ => .error (.wrongKind "a list")

/-- A thing or null. -/
def orNull {α : Type} (read : As α) : As (Option α)
  | .null => .ok none
  | v => return some (← read v)

/-! ## Fields -/

/-- Keys with values, in the order written. -/
abbrev Fields := List (String × Json)

def asObject : As Fields
  | .object fields => .ok fields
  | _ => .error (.wrongKind "an object")

/-- The value under `key`, which may be there once. -/
def field? (fields : Fields) (key : String) : Except Mismatch (Option Json) :=
  match fields.filter (·.1 == key) with
  | [] => .ok none
  | [(_, v)] => .ok (some v)
  | _ => .error (.repeated key)

/-- The thing under `key`, which has to be there. -/
def required {α : Type} (fields : Fields) (key : String) (read : As α) : Except Mismatch α := do
  match ← field? fields key with
  | none => throw (.missing key)
  | some v => read v

/-- The thing under `key`, or `default` if the key is not there. -/
def withDefault {α : Type} (fields : Fields) (key : String) (default : α) (read : As α) :
    Except Mismatch α := do
  match ← field? fields key with
  | none => return default
  | some v => read v

end Json

end DeclArchive
