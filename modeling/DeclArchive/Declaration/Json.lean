import DeclArchive.Declaration
import DeclArchive.TypeExpr.Json

/-!
# Declarations as JSON

Every part of a declaration is an object. What has a default may be left out, but is always written,
save the public name, which is written only where one is given. Keys without a meaning are ignored,
but within a body the values under them have to be readable.
-/

namespace DeclArchive

/-! ## Versions and names -/

def Version.toJson (v : Version) : Json := .object [
  ("major", .integer v.major.toInt),
  ("minor", .integer v.minor.toInt),
  ("sub_minor", .integer v.subMinor.toInt)]

def Version.ofJson : Json.As Version := fun v => do
  let fields ← v.asObject
  return {
    major := ← Json.required fields "major" Json.asInt32
    minor := ← Json.withDefault fields "minor" (-1) Json.asInt32
    subMinor := ← Json.withDefault fields "sub_minor" (-1) Json.asInt32 }

def Info.toJson (i : Info) : Json := .object (
  [("name", .text i.name)] ++
  (i.alias?.map fun s => ("public_name", Json.text s)).toList ++
  [("introduced", i.introduced.toJson), ("ios_app_extension_available", .bool i.appExtension)])

def Info.ofJson : Json.As Info := fun v => do
  let fields ← v.asObject
  return {
    name := ← Json.required fields "name" Json.asText
    alias? := ← Json.withDefault fields "public_name" none (Json.orNull Json.asText)
    introduced := ← Json.withDefault fields "introduced" .unknown Version.ofJson
    appExtension := ← Json.withDefault fields "ios_app_extension_available" false Json.asBool }

/-! ## Flags -/

def MethodFlags.toJson (f : MethodFlags) : Json := .object [
  ("optional", .bool f.optional),
  ("initializer", .bool f.initializer),
  ("variadic", .bool f.variadic),
  ("null_terminated_variadic", .bool f.nullTerminated),
  ("owns_returned_cocoa_object", .bool f.ownsResult),
  ("has_error_out_parameter", .bool f.errorOut)]

def MethodFlags.ofJson : Json.As MethodFlags := fun v => do
  let fields ← v.asObject
  let flag (key : String) := Json.withDefault fields key false Json.asBool
  return {
    optional := ← flag "optional"
    initializer := ← flag "initializer"
    variadic := ← flag "variadic"
    nullTerminated := ← flag "null_terminated_variadic"
    ownsResult := ← flag "owns_returned_cocoa_object"
    errorOut := ← flag "has_error_out_parameter" }

def FunctionFlags.toJson (f : FunctionFlags) : Json := .object [
  ("variadic", .bool f.variadic),
  ("owns_returned_cocoa_object", .bool f.ownsResult),
  ("returns_unmanaged", .bool f.unmanagedResult)]

def FunctionFlags.ofJson : Json.As FunctionFlags := fun v => do
  let fields ← v.asObject
  let flag (key : String) := Json.withDefault fields key false Json.asBool
  return {
    variadic := ← flag "variadic"
    ownsResult := ← flag "owns_returned_cocoa_object"
    unmanagedResult := ← flag "returns_unmanaged" }

/-! ## Members -/

def Method.toJson (m : Method) : Json := .object [
  ("info", m.info.toJson),
  ("flags", m.flags.toJson),
  ("signature", .list (typesToJson m.signature)),
  ("type_encoding", .text m.encoding)]

def Method.ofJson : Json.As Method := fun v => do
  let fields ← v.asObject
  return {
    info := ← Json.required fields "info" Info.ofJson
    flags := ← Json.withDefault fields "flags" {} MethodFlags.ofJson
    signature := ← Json.required fields "signature" signatureOfJson
    encoding := ← Json.withDefault fields "type_encoding" "" Json.asText }

/-- A value for something that may be absent. -/
def optionToJson {α : Type} (toJson : α → Json) : Option α → Json
  | none => .null
  | some x => toJson x

def Property.toJson (p : Property) : Json := .object [
  ("info", p.info.toJson),
  ("optional", .bool p.optional),
  ("getter", optionToJson Method.toJson p.getter?),
  ("setter", optionToJson Method.toJson p.setter?)]

def Property.ofJson : Json.As Property := fun v => do
  let fields ← v.asObject
  return {
    info := ← Json.required fields "info" Info.ofJson
    optional := ← Json.withDefault fields "optional" false Json.asBool
    getter? := ← Json.withDefault fields "getter" none (Json.orNull Method.ofJson)
    setter? := ← Json.withDefault fields "setter" none (Json.orNull Method.ofJson) }

def Members.toJson (m : Members) : Json := .object [
  ("instance_methods", .list (m.instanceMethods.map Method.toJson)),
  ("static_methods", .list (m.staticMethods.map Method.toJson)),
  ("properties", .list (m.properties.map Property.toJson)),
  ("protocols", .list (m.protocols.map .text))]

def Members.ofJson : Json.As Members := fun v => do
  let fields ← v.asObject
  return {
    instanceMethods := ← Json.withDefault fields "instance_methods" [] (Json.asList Method.ofJson)
    staticMethods := ← Json.withDefault fields "static_methods" [] (Json.asList Method.ofJson)
    properties := ← Json.withDefault fields "properties" [] (Json.asList Property.ofJson)
    protocols := ← Json.withDefault fields "protocols" [] (Json.asList Json.asText) }

/-! ## Declarations -/

/-- The fields of a body beside its `type`. -/
def Body.payload : Body → Json.Fields
  | .function signature flags =>
    [("signature", .list (typesToJson signature)), ("flags", flags.toJson)]
  | .record _ fields => [("fields", .list (fieldsToJson fields))]
  | .code text => [("code", .text text)]
  | .global type => [("varType", type.toJson)]
  | .interface base? members =>
    [("base_name", optionToJson .text base?), ("class", members.toJson)]
  | .protocol members => [("class", members.toJson)]
  | .category extended members =>
    [("extended_interface", .text extended), ("class", members.toJson)]

def Body.toJson (b : Body) : Json := .object (("type", .text b.kind.text) :: b.payload)

/-- All kinds of declarations. -/
def Kind.all : List Kind :=
  [.function, .struct, .union, .jsCode, .var, .interface, .protocol, .category]

/-- The kind with this word. -/
def Kind.ofText? (s : String) : Option Kind := all.find? fun k => k.text == s

/-- The kind decides which fields have a meaning and may come last, so the value is read whole. -/
def Body.ofJson : Json.As Body := fun v => do
  let fields ← (← v.whole).asObject
  let type ← Json.required fields "type" Json.asText
  let some kind := Kind.ofText? type | throw (.unknownName type)
  let members := Json.withDefault fields "class" {} Members.ofJson
  let recordFields := Json.required fields "fields" (Json.asList Field.ofJson)
  match kind with
  | .function =>
    let signature ← Json.required fields "signature" signatureOfJson
    let flags ← Json.withDefault fields "flags" {} FunctionFlags.ofJson
    return .function signature flags
  | .struct => return .record .struct (← recordFields)
  | .union => return .record .union (← recordFields)
  | .jsCode => return .code (← Json.required fields "code" Json.asText)
  | .var => return .global (← Json.required fields "varType" TypeExpr.ofJson)
  | .interface =>
    let base? ← Json.withDefault fields "base_name" none (Json.orNull Json.asText)
    return .interface base? (← members)
  | .protocol => return .protocol (← members)
  | .category =>
    let extended ← Json.required fields "extended_interface" Json.asText
    return .category extended (← members)

def Declaration.toJson (d : Declaration) : Json :=
  .object [("info", d.info.toJson), ("decl", d.body.toJson)]

def Declaration.ofJson : Json.As Declaration := fun v => do
  let fields ← v.asObject
  return {
    info := ← Json.required fields "info" Info.ofJson
    body := ← Json.required fields "decl" Body.ofJson }

end DeclArchive
