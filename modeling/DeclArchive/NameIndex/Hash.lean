import DeclArchive.Error

/-!
# Name hash

Names are spread over buckets by the 32-bit FNV-1a hash of their bytes. The hash is part of the
stored form: whoever looks a name up has to hash it the same way.
-/

namespace DeclArchive

/-- One byte of the hash. -/
def hashStep (hash : UInt32) (b : UInt8) : UInt32 :=
  (hash ^^^ b.toUInt32) * 0x01000193

/-- The FNV-1a hash of a name. -/
def nameHash (name : String) : UInt32 :=
  (Utf8.encode name).foldl hashStep 0x811c9dc5

/-- The bucket of a name among `buckets` buckets. -/
def bucketOf (name : String) (buckets : Nat) : Nat :=
  (nameHash name).toNat % buckets

/-- The bucket of a name, where there is any bucket. -/
def bucketIn (name : String) (buckets : Nat) : Except Error Nat :=
  if buckets = 0 then .error (.fault .emptyTable) else .ok (bucketOf name buckets)

theorem bucketOf_lt {buckets : Nat} (h : 0 < buckets) (name : String) :
    bucketOf name buckets < buckets :=
  Nat.mod_lt _ h

end DeclArchive
