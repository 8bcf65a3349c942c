import DeclArchive.Heap.Image
import DeclArchive.TypeExpr.Tag

/-!
# Reading types

`readType` reads the run of bytes that a type was written as, and returns the position past it. A
type may nest at most `deepestType` levels; the limit is what makes the reader end on bytes that
lead it in circles or down without bound. The room for the types of a signature is left out, as that for
the elements of an array is (`Image`).
-/

namespace DeclArchive

/-- The most levels of a type that is read. -/
def deepestType : Nat := 256

/-- Reads `n` values one after another from `o` on; `read` holds those before `o` in reverse. -/
def readMany {α : Type} (step : Offset → Except Error (α × Offset)) :
    (n : Nat) → Offset → (read : List α) → Except Error (List α × Offset)
  | 0, o, read => .ok (read.reverse, o)
  | n + 1, o, read => do
    let (x, next) ← step o
    readMany step n next (x :: read)

/-- Reads the text that the pointer at `o` leads to. -/
def readName (im : Image) (o : Offset) : Except Error (String × Offset) := do
  let name ← im.text (← im.pointer o)
  return (name, ← im.pastPointer o)

/-- Reads the names in the array that the pointer at `o` leads to. -/
def readProtocolNames (im : Image) (o : Offset) : Except Error (List String × Offset) := do
  let names ← im.arrayOrEmpty (← im.pointer o)
  let next ← im.pastPointer o
  return (← im.texts names, next)

/-- Reads a count that has one byte. -/
def readSmallCount (im : Image) (o : Offset) : Except Error (Nat × Offset) := do
  let n ← im.byte o
  return (n.toNat, ← positionAfter o 1)

/-- Reads the node at `o` and the `levels - 1` levels below it. -/
def readTypeWithin (im : Image) : (levels : Nat) → Offset → Except Error (TypeExpr × Offset)
  | 0, o => .error (.malformed o .nestingTooDeep)
  | levels + 1, o => do
    let b ← im.byte o
    let some tag := Tag.ofByte? b | throw (.malformed o (.unknownTypeTag b))
    let o ← positionAfter o 1
    match tag with
    | .scalar kind => return (.scalar kind, o)
    | .named kind =>
      let (name, next) ← readName im o
      return (.named kind name, next)
    | .object kind =>
      let (protocols, next) ← readProtocolNames im o
      return (.object kind protocols, next)
    | .indirect kind =>
      let (target, next) ← readTypeWithin im levels o
      return (.indirect kind target, next)
    | .sized kind =>
      let size ← im.uint32 o
      let (element, next) ← readTypeWithin im levels (← positionAfter o 4)
      return (.sized kind element size, next)
    | .callable kind =>
      let (n, first) ← readSmallCount im o
      let (signature, next) ← readMany (readTypeWithin im levels) n first []
      return (.callable kind signature, next)
    | .anonymous kind =>
      let (n, first) ← readSmallCount im o
      let (names, first) ← readMany (readName im) n first []
      let (types, next) ← readMany (readTypeWithin im levels) n first []
      return (.anonymous kind (names.zipWith Field.mk types), next)

/-- Reads the type at `o` and returns the position past it. -/
def readType (im : Image) (o : Offset) : Except Error (TypeExpr × Offset) :=
  readTypeWithin im deepestType o

/-- Reads the signature at `o`. -/
def readSignature (im : Image) (o : Offset) : Except Error (List TypeExpr) := do
  let n ← im.count o
  let first ← positionAfter o im.format.countWidth
  return (← readMany (readType im) n first []).1

end DeclArchive
