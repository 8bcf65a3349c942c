import DeclArchive.Heap
import DeclArchive.Record.Flags

/-!
# Stored declarations

What a reader finds in a record. A stored declaration knows less than the declared one: of the
version only what fits a byte, no empty texts, and of a class its members in sorted order.
-/

namespace DeclArchive

/-- The part of a record that all kinds share. -/
structure StoredBase where
  publicName : String
  name : String
  flagByte : UInt8
  moduleIndex : UInt16
  introduced : Version
  deriving DecidableEq, Repr

structure StoredMethod where
  base : StoredBase
  signature : List TypeExpr
  encoding? : Option String

/-- What the flag byte of a method says. -/
def StoredMethod.flags (m : StoredMethod) : StoredFlags := StoredFlags.ofByte .method m.base.flagByte

structure StoredProperty where
  base : StoredBase
  getter? : Option StoredMethod
  setter? : Option StoredMethod

/-- What the flag byte of a property says. -/
def StoredProperty.flags (p : StoredProperty) : StoredFlags :=
  StoredFlags.ofByte .property p.base.flagByte

structure StoredMembers where
  instanceMethods : List StoredMethod
  staticMethods : List StoredMethod
  properties : List StoredProperty
  protocols : List String
  /-- The place of the first initializer among the instance methods, `-1` if there is none. -/
  firstInitializer : Int16

/-- What a record holds beyond its base. -/
inductive StoredBody where
  | function (signature : List TypeExpr)
  | record (kind : RecordKind) (fields : List Field)
  | code (text : String)
  | global (type : TypeExpr)
  | interface (base? : Option String) (members : StoredMembers)
  | protocol (members : StoredMembers)

structure StoredDeclaration where
  /-- Where the record is. -/
  offset : Offset
  base : StoredBase
  /-- The top-level module. -/
  module : String
  body : StoredBody

/-- What the flag byte of a declaration says. -/
def StoredDeclaration.flags (d : StoredDeclaration) : StoredFlags :=
  StoredFlags.ofByte .declaration d.base.flagByte

/-! ## Types -/

/-- The types of an accessor, if there is one. -/
def storedAccessorTypes (m? : Option StoredMethod) : List TypeExpr :=
  (m?.map StoredMethod.signature).getD []

/-- Every type in stored members. -/
def StoredMembers.types (m : StoredMembers) : List TypeExpr :=
  m.instanceMethods.flatMap StoredMethod.signature ++
    m.staticMethods.flatMap StoredMethod.signature ++
    m.properties.flatMap fun p => storedAccessorTypes p.getter? ++ storedAccessorTypes p.setter?

/-- Every type in a stored declaration, members included. -/
def StoredDeclaration.types (d : StoredDeclaration) : List TypeExpr :=
  match d.body with
  | .function signature => signature
  | .record _ fields => fields.map Field.type
  | .code _ => []
  | .global type => [type]
  | .interface _ members | .protocol members => members.types

end DeclArchive
