import DeclArchive.Record.Register

/-!
# Sessions

A session applies steps to one builder, one after another. A step that fails leaves what it wrote,
and the session goes on from there.
-/

namespace DeclArchive

/-- One operation on a builder. -/
inductive Step where
  | byte (v : UInt8)
  | uint16 (v : UInt16)
  | int16 (v : Int16)
  | uint32 (v : UInt32)
  | uint64 (v : UInt64)
  | text (s : String)
  | freshText (s : String)
  | pointer (target : Offset)
  | count (n : Nat)
  | array (targets : List Offset)
  | type (t : TypeExpr)
  | signature (ts : List TypeExpr)
  | method (module : UInt16) (m : Method)
  | property (module : UInt16) (p : Property)
  | declaration (module : UInt16) (d : Declaration)
  | addName (name : String) (o : Offset)
  | writeIndex

/-- What a step returns. -/
inductive Answer where
  | offset (o : Offset)
  | slots (os : List Offset)
  | nothing
  deriving DecidableEq, Repr

namespace Step

/-- A step that only writes, and returns where. -/
def writing (x : Write Offset) : Build Answer := return .offset (← Build.write x)

/-- Applies a step. -/
def run : Step → Build Answer
  | .byte v => writing (Write.byte v)
  | .uint16 v => writing (Write.uint16 v)
  | .int16 v => writing (Write.int16 v)
  | .uint32 v => writing (Write.uint32 v)
  | .uint64 v => writing (Write.uint64 v)
  | .text s => writing (Write.text s)
  | .freshText s => writing (Write.freshText s)
  | .pointer target => writing (Write.pointer target)
  | .count n => writing (Write.count n)
  | .array targets => writing (Write.array targets)
  | .type t => writing t.write
  | .signature ts => writing (writeSignature ts)
  | .method module m => writing (m.write module)
  | .property module p => writing (p.write module)
  | .declaration module d => return .offset (← Build.declare module d)
  | .addName name o => do
    Build.addName name o
    return .nothing
  | .writeIndex => return .slots (← Build.writeIndex)

end Step

namespace Builder

/-- Applies a step; the builder keeps what a failing step wrote. -/
def apply (b : Builder) (step : Step) : Except Error Answer × Builder :=
  step.run.run.run b

/-- Applies steps one after another. -/
def applyAll (b : Builder) : List Step → List (Except Error Answer) × Builder
  | [] => ([], b)
  | step :: rest =>
    let (answer, next) := b.apply step
    let (answers, last) := next.applyAll rest
    (answer :: answers, last)

end Builder

end DeclArchive
