import DeclArchive.Heap.Writer
import DeclArchive.TypeExpr.Tag

/-!
# Writing types

A type is written as one contiguous run of bytes, node by node: the tag, then what the node holds.

* a scalar holds nothing;
* a pointer or an array without a size holds its target;
* a sized array or vector holds its size in four bytes, then its element;
* a block or function pointer holds a count in one byte, then its signature;
* a named type holds a pointer to its name;
* an object type holds a pointer to an array of protocol names, null if there are none;
* an anonymous record holds a count in one byte, pointers to the names of its fields, then their
  types.

Names and protocol arrays live elsewhere, and must not land inside the run. So a first pass,
`writeParts`, writes them all and lists their offsets in depth-first order, and a second pass,
`writeNode`, writes the run and takes the offsets from the front of that list.
-/

namespace DeclArchive

/-! ## Names and protocol arrays -/

/-- Writes the names of the protocols and an array of them; the null offset if there are none. -/
def writeProtocolNames (protocols : List String) : Write Offset := do
  let names ← Write.texts protocols
  Write.arrayOrNull names

mutual

/-- Writes the names and protocol arrays of a type and lists where they are. -/
def TypeExpr.writeParts : TypeExpr → Write (List Offset)
  | .scalar _ => return []
  | .named _ name => return [← Write.text name]
  | .object _ protocols => return [← writeProtocolNames protocols]
  | .indirect _ target => target.writeParts
  | .sized _ element _ => element.writeParts
  | .callable _ signature => writePartsOfTypes signature
  | .anonymous _ fields => do
    let names ← Write.texts (fields.map Field.name)
    let inner ← writePartsOfFields fields
    return names ++ inner

/-- Writes the names and protocol arrays of these types and lists where they are. -/
def writePartsOfTypes : List TypeExpr → Write (List Offset)
  | [] => return []
  | t :: ts => do
    let first ← t.writeParts
    let others ← writePartsOfTypes ts
    return first ++ others

/-- Writes the names and protocol arrays of the types of these fields and lists where they are. -/
def writePartsOfFields : List Field → Write (List Offset)
  | [] => return []
  | ⟨_, t⟩ :: fs => do
    let first ← t.writeParts
    let others ← writePartsOfFields fs
    return first ++ others

end

/-! ## Nodes -/

/-- Writes a count that has one byte. -/
def writeSmallCount (n : Nat) : Write Unit := do
  if 255 < n then throw (.countOverflow n 1)
  let _ ← Write.byte (UInt8.ofNat n)

/-- Writes the first of these offsets as a pointer and returns the others. -/
def writeReference : List Offset → Write (List Offset)
  | [] => throw (.broken .missingReference)
  | o :: rest => do
    let _ ← Write.pointer o
    return rest

/-- Writes the first `n` of these offsets as pointers and returns the others. -/
def writeReferences : (n : Nat) → List Offset → Write (List Offset)
  | 0, refs => return refs
  | n + 1, refs => do
    let rest ← writeReference refs
    writeReferences n rest

mutual

/-- Writes the run of a type and returns the offsets that it did not take. -/
def TypeExpr.writeNode (t : TypeExpr) (refs : List Offset) : Write (List Offset) := do
  let _ ← Write.byte t.tag.byte
  match t with
  | .scalar _ => return refs
  | .named _ _ | .object _ _ => writeReference refs
  | .indirect _ target => target.writeNode refs
  | .sized _ element size =>
    let _ ← Write.uint32 size
    element.writeNode refs
  | .callable _ signature =>
    writeSmallCount signature.length
    writeNodes signature refs
  | .anonymous _ fields =>
    writeSmallCount fields.length
    let refs ← writeReferences fields.length refs
    writeFieldNodes fields refs

/-- Writes the runs of these types one after another. -/
def writeNodes : List TypeExpr → List Offset → Write (List Offset)
  | [], refs => return refs
  | t :: ts, refs => do
    let refs ← t.writeNode refs
    writeNodes ts refs

/-- Writes the runs of the types of these fields one after another. -/
def writeFieldNodes : List Field → List Offset → Write (List Offset)
  | [], refs => return refs
  | ⟨_, t⟩ :: fs, refs => do
    let refs ← t.writeNode refs
    writeFieldNodes fs refs

end

/-! ## Types and signatures -/

/-- Writes a type and returns where its run begins. -/
def TypeExpr.write (t : TypeExpr) : Write Offset := do
  let refs ← t.writeParts
  let start ← Write.position
  let _ ← t.writeNode refs
  return start

/-- Writes a signature: an array count, then the runs of its types. Returns where the count is. -/
def writeSignature (signature : List TypeExpr) : Write Offset := do
  let refs ← writePartsOfTypes signature
  let start ← Write.count signature.length
  let _ ← writeNodes signature refs
  return start

/-! ## Sizes -/

mutual

/-- The length of the run of a type. -/
def TypeExpr.runSize (f : Format) : TypeExpr → Nat
  | .scalar _ => 1
  | .named _ _ | .object _ _ => 1 + f.pointerWidth
  | .indirect _ target => 1 + target.runSize f
  | .sized _ element _ => 5 + element.runSize f
  | .callable _ signature => 2 + runSizeOfTypes f signature
  | .anonymous _ fields => 2 + f.pointerWidth * fields.length + runSizeOfFields f fields

/-- The length of the runs of these types together. -/
def runSizeOfTypes (f : Format) : List TypeExpr → Nat
  | [] => 0
  | t :: ts => t.runSize f + runSizeOfTypes f ts

/-- The length of the runs of the types of these fields together. -/
def runSizeOfFields (f : Format) : List Field → Nat
  | [] => 0
  | ⟨_, t⟩ :: fs => t.runSize f + runSizeOfFields f fs

end

end DeclArchive
