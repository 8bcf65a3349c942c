import DeclArchive.Declaration.Json
import DeclArchive.Stored

/-!
# Stored declarations as JSON

The fields of a base come first, then what the flag byte says, then what the record holds. Members
of a class stand beside the fields of the declaration.
-/

namespace DeclArchive

/-! ## Flags and bases -/

def StoredFlags.toJson (f : StoredFlags) : Json := .object [
  ("has_name", .bool f.hasName),
  ("ios_app_extension_available", .bool f.appExtension),
  ("function", optionToJson FunctionFlags.toJson f.function?),
  ("method", optionToJson MethodFlags.toJson f.method?),
  ("property_optional", .bool f.optional),
  ("property_has_getter", .bool f.hasGetter),
  ("property_has_setter", .bool f.hasSetter)]

/-- The fields of a base. -/
def StoredBase.toFields (b : StoredBase) : Json.Fields := [
  ("public_name", .text b.publicName),
  ("name", .text b.name),
  ("raw_flags", .integer b.flagByte.toNat),
  ("module_index", .integer b.moduleIndex.toNat),
  ("introduced", b.introduced.toJson)]

/-! ## Members -/

def StoredMethod.toJson (m : StoredMethod) : Json := .object (m.base.toFields ++ [
  ("flags", m.flags.toJson),
  ("signature", .list (typesToJson m.signature)),
  ("type_encoding", optionToJson .text m.encoding?)])

def StoredProperty.toJson (p : StoredProperty) : Json := .object (p.base.toFields ++ [
  ("flags", p.flags.toJson),
  ("getter", optionToJson StoredMethod.toJson p.getter?),
  ("setter", optionToJson StoredMethod.toJson p.setter?)])

/-- The fields of members. -/
def StoredMembers.toFields (m : StoredMembers) : Json.Fields := [
  ("instance_methods", .list (m.instanceMethods.map StoredMethod.toJson)),
  ("static_methods", .list (m.staticMethods.map StoredMethod.toJson)),
  ("properties", .list (m.properties.map StoredProperty.toJson)),
  ("protocols", .list (m.protocols.map .text)),
  ("first_initializer_index", .integer m.firstInitializer.toInt)]

/-! ## Declarations -/

/-- The fields of a body, the kind first. -/
def StoredBody.toFields : StoredBody → Json.Fields
  | .function signature =>
    [("type", .text Kind.function.text), ("signature", .list (typesToJson signature))]
  | .record .struct fields =>
    [("type", .text Kind.struct.text), ("fields", .list (fieldsToJson fields))]
  | .record .union fields =>
    [("type", .text Kind.union.text), ("fields", .list (fieldsToJson fields))]
  | .code text => [("type", .text Kind.jsCode.text), ("code", .text text)]
  | .global type => [("type", .text Kind.var.text), ("varType", type.toJson)]
  | .interface base? members =>
    [("type", .text Kind.interface.text), ("base_name", optionToJson .text base?)] ++
      members.toFields
  | .protocol members => ("type", .text Kind.protocol.text) :: members.toFields

def StoredDeclaration.toJson (d : StoredDeclaration) : Json := .object (
  [("offset", .integer d.offset)] ++ d.base.toFields ++
  [("module", .text d.module), ("flags", d.flags.toJson)] ++ d.body.toFields)

end DeclArchive
