import DeclArchive.TypeExpr

/-!
# Declarations

What a header declares: functions, structs, unions, variables, code, classes, protocols and
categories, with names, availability and members. Public names are chosen and types are complete;
nothing here depends on how a declaration is stored.
-/

namespace DeclArchive

/-! ## Versions -/

/-- An availability version. A negative component means "unknown". -/
structure Version where
  major : Int32
  minor : Int32
  subMinor : Int32
  deriving DecidableEq, Repr

namespace Version

/-- Nothing is known. -/
def unknown : Version := ⟨-1, -1, -1⟩

instance : Inhabited Version := ⟨unknown⟩

/-- Whether the major component is known. -/
def isKnown (v : Version) : Bool := decide (0 ≤ v.major)

end Version

/-! ## Names and availability -/

/-- What every declaration and every member carries. -/
structure Info where
  /-- The internal name: a C identifier or a selector. -/
  name : String
  /-- The name shown outside, where one is given. -/
  alias? : Option String := none
  introduced : Version := .unknown
  appExtension : Bool := false
  deriving DecidableEq, Repr

namespace Info

/-- The name shown outside. -/
def publicName (i : Info) : String := i.alias?.getD i.name

/-- Whether the name shown outside differs from the internal one. -/
def hasDistinctName (i : Info) : Bool := i.publicName != i.name

end Info

/-! ## Members -/

structure MethodFlags where
  optional : Bool := false
  initializer : Bool := false
  variadic : Bool := false
  nullTerminated : Bool := false
  ownsResult : Bool := false
  errorOut : Bool := false
  deriving DecidableEq, Repr, Inhabited

structure FunctionFlags where
  variadic : Bool := false
  ownsResult : Bool := false
  unmanagedResult : Bool := false
  deriving DecidableEq, Repr, Inhabited

/-- A method; its internal name is its selector. -/
structure Method where
  info : Info
  flags : MethodFlags := {}
  signature : List TypeExpr
  /-- The runtime's own text for the signature; empty if there is none. -/
  encoding : String := ""

/-- Whether the selector belongs to the `init` family. -/
def Method.isInitializer (m : Method) : Bool :=
  "init".toList.isPrefixOf m.info.name.toList

/-- A property with its accessors. -/
structure Property where
  info : Info
  optional : Bool := false
  getter? : Option Method := none
  setter? : Option Method := none

/-- What interfaces, protocols and categories hold. -/
structure Members where
  instanceMethods : List Method := []
  staticMethods : List Method := []
  properties : List Property := []
  protocols : List String := []

/-! ## Declarations -/

/-- What is declared, beyond names and availability. -/
inductive Body where
  | function (signature : List TypeExpr) (flags : FunctionFlags)
  | record (kind : RecordKind) (fields : List Field)
  | code (text : String)
  | global (type : TypeExpr)
  | interface (base? : Option String) (members : Members)
  | protocol (members : Members)
  | category (extended : String) (members : Members)

structure Declaration where
  info : Info
  body : Body

/-- The kinds of declarations. -/
inductive Kind where
  | function
  | struct
  | union
  | jsCode
  | var
  | interface
  | protocol
  | category
  deriving DecidableEq, Repr

/-- The word for a kind. -/
def Kind.text : Kind → String
  | .function => "function"
  | .struct => "struct"
  | .union => "union"
  | .jsCode => "jsCode"
  | .var => "var"
  | .interface => "interface"
  | .protocol => "protocol"
  | .category => "category"

/-- The kind of a declaration. -/
def Body.kind : Body → Kind
  | .function _ _ => .function
  | .record .struct _ => .struct
  | .record .union _ => .union
  | .code _ => .jsCode
  | .global _ => .var
  | .interface _ _ => .interface
  | .protocol _ => .protocol
  | .category _ _ => .category

/-- Whether the declaration only extends another one. -/
def Declaration.isCategory (d : Declaration) : Bool := d.body.kind = .category

/-! ## Types in declarations -/

/-- The types of an accessor, if there is one. -/
def accessorTypes (m? : Option Method) : List TypeExpr :=
  (m?.map Method.signature).getD []

/-- Every type in a list of members. -/
def Members.types (m : Members) : List TypeExpr :=
  m.instanceMethods.flatMap Method.signature ++ m.staticMethods.flatMap Method.signature ++
    m.properties.flatMap fun p => accessorTypes p.getter? ++ accessorTypes p.setter?

/-- Every type in a declaration, members included. -/
def Body.types : Body → List TypeExpr
  | .function signature _ => signature
  | .record _ fields => fields.map Field.type
  | .code _ => []
  | .global type => [type]
  | .interface _ members | .protocol members | .category _ members => members.types

end DeclArchive
