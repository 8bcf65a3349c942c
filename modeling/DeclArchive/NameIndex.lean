import DeclArchive.Heap.Writer
import DeclArchive.NameIndex.Capacity
import DeclArchive.NameIndex.Hash

/-!
# Name index

A hash table with chains, from names to offsets. A name may be added more than once: its first
entry is the one found, and all are stored. The stored form keeps the offsets only; a reader tells
the names of a bucket apart by looking at the records the offsets address.
-/

namespace DeclArchive

/-- Buckets of entries in the order in which they were added. -/
structure NameIndex where
  buckets : Array (List (String × Offset))
  buckets_pos : 0 < buckets.size
  /-- The number of entries. -/
  size : Nat

namespace NameIndex

/-- An index with this many buckets, and at least one. -/
def empty (capacity : Nat) : NameIndex :=
  ⟨Array.replicate (max capacity 1) [],
    by rw [Array.size_replicate]; exact Nat.le_max_right capacity 1, 0⟩

/-- The bytes that a bucket takes while the index is built. -/
def bucketBytes : Nat := 24

/-- An index with this many buckets, where there can be room for them. -/
def reserve (capacity : Nat) : Except Error NameIndex :=
  if Heap.largestBlock < bucketBytes * capacity then .error (.fault .blockTooLarge)
  else .ok (empty capacity)

/-- An index for this many entries. -/
def emptyFor (expected : Nat) : NameIndex :=
  empty (bucketCountFor expected)

/-- The number of buckets. -/
def capacity (t : NameIndex) : Nat := t.buckets.size

/-- The entries that share the bucket of `name`. -/
def chain (t : NameIndex) (name : String) : List (String × Offset) :=
  have bound : bucketOf name t.capacity < t.buckets.size := bucketOf_lt t.buckets_pos name
  t.buckets[bucketOf name t.capacity]

/-- Adds an entry at the end of its chain. -/
def add (t : NameIndex) (name : String) (o : Offset) : NameIndex :=
  ⟨t.buckets.modify (bucketOf name t.capacity) (· ++ [(name, o)]),
    by simpa using t.buckets_pos, t.size + 1⟩

/-- The first offset added for `name`. -/
def find? (t : NameIndex) (name : String) : Option Offset :=
  ((t.chain name).find? (·.1 == name)).map Prod.snd

/-- Whether there is an entry for `name`. -/
def contains (t : NameIndex) (name : String) : Bool :=
  (t.chain name).any (·.1 == name)

/-! ## Stored form -/

/-- Writes the offsets of one bucket; an empty bucket is the null offset. -/
def writeChain (entries : List (String × Offset)) : Write Offset :=
  Write.arrayOrNull (entries.map Prod.snd)

/-- The event that sums up an index. -/
def summary (t : NameIndex) : Event :=
  .indexWritten t.size t.capacity
    (t.buckets.toList.countP fun entries => !entries.isEmpty)
    ((t.buckets.toList.map List.length).foldl max 0)

/-- Writes every bucket and returns one slot for each, in order. -/
def write (t : NameIndex) : Write (List Offset) := do
  let slots ← t.buckets.toList.mapM writeChain
  Write.note t.summary
  return slots

end NameIndex

end DeclArchive
