import DeclArchive.Declaration

/-!
# Flag bytes

Each record has one byte of flags. Its bits mean different things in records of different kinds,
and a reader knows the kind before it looks:

```text
bit  declaration            method            property
 7   distinct public name   (the same)        (the same)
 6   app extensions         (the same)        (the same)
 5   variadic function      error parameter
 4   owns its result        owns its result
 3   unmanaged result       null-terminated   has a setter
 2   kind                   variadic          has a getter
 1   kind                   initializer
 0   kind                   optional          optional
```
-/

namespace DeclArchive

/-! ## Kind tags -/

/-- The kind of a stored declaration, as its flag byte tells it. -/
inductive RecordTag where
  | undefined
  | struct
  | union
  | function
  | jsCode
  | var
  | interface
  | protocol
  deriving DecidableEq, Repr

/-- The three low bits of a flag byte. -/
def RecordTag.bits : RecordTag → UInt8
  | .undefined => 0
  | .struct => 1
  | .union => 2
  | .function => 3
  | .jsCode => 4
  | .var => 5
  | .interface => 6
  | .protocol => 7

/-- The tag in the three low bits of a flag byte. -/
def RecordTag.ofByte (b : UInt8) : RecordTag :=
  match (b &&& 7).toNat with
  | 1 => .struct
  | 2 => .union
  | 3 => .function
  | 4 => .jsCode
  | 5 => .var
  | 6 => .interface
  | 7 => .protocol
  | _ => .undefined

/-- The tag of a struct or union. -/
def RecordTag.ofRecord : RecordKind → RecordTag
  | .struct => .struct
  | .union => .union

/-! ## Packing -/

namespace FlagByte

/-- The bits of `mask` if `set`. -/
def bit (set : Bool) (mask : UInt8) : UInt8 := if set then mask else 0

/-- Whether any bit of `mask` is set. -/
def has (b mask : UInt8) : Bool := b &&& mask != 0

def distinctName : UInt8 := 0x80
def appExtension : UInt8 := 0x40

/-- The two bits that all records share. -/
def common (info : Info) : UInt8 :=
  bit info.hasDistinctName distinctName ||| bit info.appExtension appExtension

/-- The flags of a declaration that is no function. -/
def ofDeclaration (info : Info) (tag : RecordTag) : UInt8 :=
  common info ||| tag.bits

/-- The flags of a function. -/
def ofFunction (info : Info) (flags : FunctionFlags) : UInt8 :=
  ofDeclaration info .function ||| bit flags.variadic 0x20 ||| bit flags.ownsResult 0x10 |||
    bit flags.unmanagedResult 0x08

/-- The flags of a method. -/
def ofMethod (info : Info) (flags : MethodFlags) : UInt8 :=
  common info ||| bit flags.optional 0x01 ||| bit flags.initializer 0x02 |||
    bit flags.variadic 0x04 ||| bit flags.nullTerminated 0x08 ||| bit flags.ownsResult 0x10 |||
    bit flags.errorOut 0x20

/-- The flags of a property. -/
def ofProperty (info : Info) (optional hasGetter hasSetter : Bool) : UInt8 :=
  common info ||| bit optional 0x01 ||| bit hasGetter 0x04 ||| bit hasSetter 0x08

end FlagByte

/-! ## Unpacking -/

/-- The kind of record that a flag byte is read from. -/
inductive RecordContext where
  | declaration
  | method
  | property
  deriving DecidableEq, Repr

/-- What a flag byte says. -/
structure StoredFlags where
  hasName : Bool
  appExtension : Bool
  function? : Option FunctionFlags := none
  method? : Option MethodFlags := none
  optional : Bool := false
  hasGetter : Bool := false
  hasSetter : Bool := false
  deriving DecidableEq, Repr

namespace FlagByte

/-- The function flags in a flag byte. -/
def functionFlags (b : UInt8) : FunctionFlags where
  variadic := has b 0x20
  ownsResult := has b 0x10
  unmanagedResult := has b 0x08

/-- The method flags in a flag byte. -/
def methodFlags (b : UInt8) : MethodFlags where
  optional := has b 0x01
  initializer := has b 0x02
  variadic := has b 0x04
  nullTerminated := has b 0x08
  ownsResult := has b 0x10
  errorOut := has b 0x20

end FlagByte

/-- What a flag byte says in a record of the given kind. -/
def StoredFlags.ofByte (context : RecordContext) (b : UInt8) : StoredFlags :=
  let common : StoredFlags := {
    hasName := FlagByte.has b FlagByte.distinctName
    appExtension := FlagByte.has b FlagByte.appExtension }
  match context with
  | .declaration =>
    if RecordTag.ofByte b = .function then
      { common with function? := some (FlagByte.functionFlags b) }
    else common
  | .method => { common with method? := some (FlagByte.methodFlags b) }
  | .property => { common with
      optional := FlagByte.has b 0x01
      hasGetter := FlagByte.has b 0x04
      hasSetter := FlagByte.has b 0x08 }

end DeclArchive
