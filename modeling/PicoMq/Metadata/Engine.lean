import Mathlib.Algebra.Group.Int.Defs
import Mathlib.Algebra.Group.Nat.Defs

/-!
# The types of the stream engine

The records exchanged with the stream engine. Unsigned machine words are natural numbers and signed
ones integers.
-/

namespace PicoMq.Metadata

abbrev Bytes := List UInt8

/-- The cast `as u64` of an `i64`. -/
def asU64 (x : ℤ) : ℕ := (x % 2 ^ 64).toNat

/-- The value an `i64` holds after arithmetic whose exact result is `x`. -/
def wrapI64 (x : ℤ) : ℤ := x.bmod (2 ^ 64)

def asI64 (n : ℕ) : ℤ := wrapI64 n

inductive StreamState where
  | closed
  | opened
deriving DecidableEq, Repr

def StreamState.debug : StreamState → String
  | .closed => "Closed"
  | .opened => "Opened"

/-- A stream as the engine sees it. -/
structure StreamMetadata where
  stream_id : ℕ
  epoch : ℕ
  start_offset : ℕ
  end_offset : ℕ
  state : StreamState
  node_id : ℤ
deriving DecidableEq, Repr

/-- What happens to the bytes of a destroyed object. -/
inductive CompactOperations where
  | delete
  | keepData
  | deepDelete
deriving DecidableEq, Repr

inductive S3ObjectType where
  | streamSet
  | stream
deriving DecidableEq, Repr

/-- The offsets `[start_offset, end_offset)` of one stream. -/
structure StreamOffsetRange where
  stream_id : ℕ
  start_offset : ℕ
  end_offset : ℕ
deriving DecidableEq, Repr

/-- An object in storage, with the offsets it has of each stream. -/
structure S3ObjectMetadata where
  object_id : ℕ
  object_type : S3ObjectType
  offset_ranges : List StreamOffsetRange
  object_size : ℕ
  attributes : ℕ
  committed_timestamp_ms : ℤ
  data_timestamp_ms : ℤ
deriving DecidableEq, Repr

/-- One stream's slice of a stream-set object in a commit request. -/
structure ObjectStreamRange where
  stream_id : ℕ
  epoch : ℕ
  start_offset : ℕ
  end_offset : ℕ
  size : ℕ
deriving DecidableEq, Repr

structure StreamObject where
  object_id : ℕ
  object_size : ℕ
  stream_id : ℕ
  start_offset : ℕ
  end_offset : ℕ
  attributes : ℕ
deriving DecidableEq, Repr

/-- An upload or a compaction: a stream-set object, and objects of one stream each. -/
structure CommitStreamSetObjectRequest where
  object_id : ℕ
  object_size : ℕ
  attributes : ℕ
  stream_ranges : List ObjectStreamRange
  stream_objects : List StreamObject
  compacted_object_ids : List ℕ
deriving DecidableEq, Repr

/-- Objects of one stream are to be replaced by one. -/
structure CompactStreamObjectRequest where
  object_id : ℕ
  object_size : ℕ
  stream_id : ℕ
  stream_epoch : ℕ
  start_offset : ℕ
  end_offset : ℕ
  source_object_ids : List ℕ
  operations : List CompactOperations
  attributes : ℕ
deriving DecidableEq, Repr

end PicoMq.Metadata
