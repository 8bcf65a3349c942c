import DeclArchive.Json
import DeclArchive.TypeExpr.Tag

/-!
# Types as JSON

A type is an object whose `kind` names its tag, with the payload of the tag in further fields. Keys
that the tag does not use are ignored; protocols may be left out.
-/

namespace DeclArchive

/-! ## Names of tags -/

def Scalar.text : Scalar → String
  | .void => "void"
  | .bool => "bool"
  | .short => "short"
  | .uShort => "uShort"
  | .int => "int"
  | .uInt => "uInt"
  | .long => "long"
  | .uLong => "uLong"
  | .longLong => "longLong"
  | .uLongLong => "uLongLong"
  | .char => "char"
  | .uChar => "uChar"
  | .unichar => "unichar"
  | .cString => "cString"
  | .float => "float"
  | .double => "double"
  | .vaList => "vaList"
  | .selector => "selector"
  | .instanceType => "instanceType"
  | .protocol => "protocol"

/-- The word for a tag. -/
def Tag.text : Tag → String
  | .scalar kind => kind.text
  | .object .id => "id"
  | .object .metaclass => "class"
  | .indirect .pointer => "pointer"
  | .indirect .incompleteArray => "incompleteArray"
  | .sized .constantArray => "constantArray"
  | .sized .extVector => "extVector"
  | .callable .block => "block"
  | .callable .functionPointer => "functionPointer"
  | .named .struct => "struct"
  | .named .union => "union"
  | .named .interface => "interface"
  | .anonymous .struct => "anonymousStruct"
  | .anonymous .union => "anonymousUnion"

/-- The tag with this word. -/
def Tag.ofText? (s : String) : Option Tag := all.find? fun t => t.text == s

/-- The key of what a type of this kind holds. -/
def IndirectKind.key : IndirectKind → String
  | .pointer => "pointee"
  | .incompleteArray => "element"

/-! ## Writing -/

mutual

/-- A type as a value. -/
def TypeExpr.toJson (t : TypeExpr) : Json :=
  let kind : String × Json := ("kind", .text t.tag.text)
  match t with
  | .scalar _ => .object [kind]
  | .object _ protocols => .object [kind, ("protocols", .list (protocols.map .text))]
  | .indirect k target => .object [kind, (k.key, target.toJson)]
  | .sized _ element size =>
    .object [kind, ("element", element.toJson), ("size", .integer size.toNat)]
  | .callable _ signature => .object [kind, ("signature", .list (typesToJson signature))]
  | .named _ name => .object [kind, ("name", .text name)]
  | .anonymous _ fields => .object [kind, ("fields", .list (fieldsToJson fields))]

/-- Types as values. -/
def typesToJson : List TypeExpr → List Json
  | [] => []
  | t :: ts => t.toJson :: typesToJson ts

/-- Fields as values. -/
def fieldsToJson : List Field → List Json
  | [] => []
  | ⟨name, t⟩ :: fs => .object [("name", .text name), ("type", t.toJson)] :: fieldsToJson fs

end

/-! ## Reading -/

/-- Takes a value for a field whose type is read by `asType`. -/
def Field.ofJsonWith (asType : Json.As TypeExpr) : Json.As Field := fun v => do
  let fields ← v.asObject
  let name ← Json.required fields "name" Json.asText
  let type ← Json.required fields "type" asType
  return ⟨name, type⟩

/-- Takes a value of at most `levels` levels for a type. -/
def TypeExpr.ofJsonWithin : (levels : Nat) → Json.As TypeExpr
  | 0 => fun _ => .error .tooDeep
  | levels + 1 => fun v => do
    let fields ← v.asObject
    let kind ← Json.required fields "kind" Json.asText
    let some tag := Tag.ofText? kind | throw (.unknownName kind)
    match tag with
    | .scalar k => return .scalar k
    | .object k =>
      return .object k (← Json.withDefault fields "protocols" [] (Json.asList Json.asText))
    | .indirect k => return .indirect k (← Json.required fields k.key (ofJsonWithin levels))
    | .sized k =>
      let element ← Json.required fields "element" (ofJsonWithin levels)
      let size ← Json.required fields "size" Json.asUInt32
      return .sized k element size
    | .callable k =>
      return .callable k (← Json.required fields "signature" (Json.asList (ofJsonWithin levels)))
    | .named k => return .named k (← Json.required fields "name" Json.asText)
    | .anonymous k =>
      let asField := Field.ofJsonWith (ofJsonWithin levels)
      return .anonymous k (← Json.required fields "fields" (Json.asList asField))

/-- Takes a value for a type. -/
def TypeExpr.ofJson : Json.As TypeExpr := fun v => ofJsonWithin v.depth v

/-- Takes a value for a field. -/
def Field.ofJson : Json.As Field := Field.ofJsonWith TypeExpr.ofJson

/-- Takes a value for a signature. -/
def signatureOfJson : Json.As (List TypeExpr) := Json.asList TypeExpr.ofJson

end DeclArchive
