import Mathlib.Data.Prod.Lex
import PicoMq.Metadata.Command

/-!
# The metadata state

Compact rows in ordered maps, plus the secondary indexes and counters, maintained incrementally. A
range scan such as `(id, 0, 0)..=(id, MAX, MAX)` holds the keys whose first component is `id`, and
is written as that test.
-/

namespace PicoMq.Metadata

/-- A stream that was never opened has epoch `-1`, and one without a node has node `-1`. -/
structure StreamRow where
  stream_id : ℕ
  epoch : ℤ
  start_offset : ℕ
  /-- Committed end offset, advanced by object commits. -/
  end_offset : ℕ
  state : StreamState
  node_id : ℤ
  stored_bytes : ℕ
deriving DecidableEq, Repr

def StreamRow.to_stream_metadata (row : StreamRow) : StreamMetadata where
  stream_id := row.stream_id
  epoch := asU64 (max row.epoch 0)
  start_offset := row.start_offset
  end_offset := row.end_offset
  state := row.state
  node_id := row.node_id

/-- A node at its newest epoch. -/
structure NodeRow where
  node_id : ℤ
  epoch : ℤ
  http_address : String
  slots : ℕ
  protocol_addresses : OrdMap String String
  wal : String
  heartbeats : ℕ
  fenced : Bool
deriving DecidableEq

structure PendingTransfer where
  from_node : ℤ
  to_node : ℤ
deriving DecidableEq, Repr

/-- A live object with data of several streams. -/
structure StreamSetObjectRow where
  node_id : ℤ
  object : S3ObjectMetadata
  /-- Bytes of each of `object.offset_ranges`, in the same order. -/
  range_sizes : List ℕ
  last_write_ms : ℤ
deriving DecidableEq, Repr

/-- The ranges of the object, each with its size. -/
def StreamSetObjectRow.slices (row : StreamSetObjectRow) : List (StreamOffsetRange × ℕ) :=
  row.object.offset_ranges.zip row.range_sizes

/-- A live object with data of one stream. -/
structure StreamObjectRow where
  object : S3ObjectMetadata
  last_write_ms : ℤ
deriving DecidableEq, Repr

/-- `object.offset_ranges[0]`. Every row is built with exactly one range. -/
def StreamObjectRow.range (row : StreamObjectRow) : StreamOffsetRange :=
  row.object.offset_ranges.headD ⟨0, 0, 0⟩

/-- Composite key for offset-sorted per-stream object indexes. -/
structure StreamOffsetKey where
  stream_id : ℕ
  start_offset : ℕ
  object_id : ℕ
deriving Repr

def StreamOffsetKey.toTuple (key : StreamOffsetKey) : ℕ ×ₗ ℕ ×ₗ ℕ :=
  toLex (key.stream_id, toLex (key.start_offset, key.object_id))

theorem StreamOffsetKey.toTuple_injective : Function.Injective StreamOffsetKey.toTuple := by
  rintro ⟨s, o, i⟩ ⟨s', o', i'⟩ h
  simpa [StreamOffsetKey.toTuple] using h

instance : LinearOrder StreamOffsetKey :=
  LinearOrder.lift' StreamOffsetKey.toTuple StreamOffsetKey.toTuple_injective

def StreamOffsetKey.debug (key : StreamOffsetKey) : String :=
  s!"({key.stream_id}, {key.start_offset}, {key.object_id})"

/-! ## The tables

The state of the source is one record. Its fields are grouped here by the methods that write them,
so that a method that works on one group visibly leaves the others alone. -/

/-- The fields that only the transition function itself writes. -/
structure ClusterTables where
  next_stream_id : ℕ := 0
  nodes : OrdMap ℤ NodeRow := .empty
  pending_transfers : OrdMap ℕ PendingTransfer := .empty
  /-- `(stream_id, epoch)` to the first offset written at that epoch. -/
  epochs : OrdMap (ℕ ×ₗ ℤ) ℕ := .empty
  next_producer_id : ℕ := 0
  next_object_id : ℕ := 0
deriving DecidableEq

/-- The stream rows and the three node indexes derived from them. -/
structure StreamTables where
  streams : OrdMap ℕ StreamRow := .empty
  /-- The opened streams by `(node_id, stream_id)`. -/
  opening_by_node : OrdMap (ℤ ×ₗ ℕ) Unit := .empty
  /-- The closed streams that have a node, by `(node_id, stream_id)`. -/
  placed_by_node : OrdMap (ℤ ×ₗ ℕ) Unit := .empty
  /-- Streams opened or placed on each node. -/
  streams_by_node : OrdMap ℤ ℕ := .empty
deriving DecidableEq

/-- The deadlines of the object ids that were prepared and not committed yet. -/
structure LeaseTables where
  prepared : OrdMap ℕ ℤ := .empty
  prepared_by_deadline : OrdMap (ℤ ×ₗ ℕ) Unit := .empty
deriving DecidableEq

/-- The live objects and their indexes. -/
structure ObjectTables where
  stream_set_objects : OrdMap ℕ StreamSetObjectRow := .empty
  /-- `(stream_id, range_start, object_id)` to `(range_end, bytes)`. -/
  sso_ranges : OrdMap StreamOffsetKey (ℕ × ℕ) := .empty
  sso_by_node : OrdMap (ℤ ×ₗ ℕ) Unit := .empty
  stream_objects : OrdMap StreamOffsetKey StreamObjectRow := .empty
  stream_object_ids : OrdMap ℕ StreamOffsetKey := .empty
deriving DecidableEq

/-- The objects that are to be destroyed. -/
structure DestroyTables where
  /-- Keyed by an insertion sequence. -/
  mark_destroyed : OrdMap ℕ (ℕ × CompactOperations) := .empty
  destroyed_by_id : OrdMap ℕ ℕ := .empty
  next_destroyed_seq : ℕ := 0
deriving DecidableEq

structure KvTables where
  kv : OrdMap String Bytes := .empty
  /-- Sum of `key.len() + value.len()` over `kv`. -/
  kv_bytes : ℕ := 0
deriving DecidableEq

/-- The replicated state. -/
structure MetadataState extends ClusterTables, StreamTables, LeaseTables, ObjectTables,
    DestroyTables, KvTables where
  stored_bytes : ℕ := 0
  /-- Not a field of the source: whether some subtraction so far went below zero. -/
  underflowed : Bool := false
deriving DecidableEq

namespace StreamTables

variable (tables : StreamTables)

/-- One more stream opened or placed on `node_id`. -/
def count_stream (node_id : ℤ) : StreamTables :=
  let count := (tables.streams_by_node.get node_id).getD 0
  { tables with streams_by_node := tables.streams_by_node.insert node_id (count + 1) }

/-- Enters the stream in the index for its state. -/
def index (row : StreamRow) : StreamTables :=
  let key := toLex (row.node_id, row.stream_id)
  match row.state with
  | .opened =>
    { tables with opening_by_node := tables.opening_by_node.insert key () }.count_stream row.node_id
  | .closed =>
    if row.node_id ≠ -1 then
      { tables with placed_by_node := tables.placed_by_node.insert key () }.count_stream row.node_id
    else tables

/-- One stream fewer opened or placed on `node_id`; a count that would drop to zero is dropped. -/
def uncount_stream (node_id : ℤ) : StreamTables :=
  match tables.streams_by_node.get node_id with
  | some count =>
    if count > 1 then
      { tables with streams_by_node := tables.streams_by_node.insert node_id (count - 1) }
    else { tables with streams_by_node := tables.streams_by_node.remove node_id }
  | none => { tables with streams_by_node := tables.streams_by_node.remove node_id }

def unindex (row : StreamRow) : StreamTables :=
  let key := toLex (row.node_id, row.stream_id)
  let opened := tables.opening_by_node.contains_key key
  let placed := tables.placed_by_node.contains_key key
  let tables := { tables with
    opening_by_node := tables.opening_by_node.remove key
    placed_by_node := tables.placed_by_node.remove key }
  if !opened && !placed then tables else tables.uncount_stream row.node_id

/-- Writes the row, but keeps its byte count, and moves it between the indexes. -/
def put_stream (row : StreamRow) : StreamTables :=
  let stored_bytes := (tables.streams.get row.stream_id).elim 0 StreamRow.stored_bytes
  let row := { row with stored_bytes }
  let previous := tables.streams.get row.stream_id
  let tables := { tables with streams := tables.streams.insert row.stream_id row }
  match previous with
  | some previous =>
    if (previous.state, previous.node_id) = (row.state, row.node_id) then tables
    else (tables.unindex previous).index row
  | none => tables.index row

def remove_stream (stream_id : ℕ) : StreamTables :=
  match tables.streams.get stream_id with
  | some previous =>
    { tables with streams := tables.streams.remove stream_id }.unindex previous
  | none => tables

def add_stream_bytes (stream_id bytes : ℕ) : StreamTables :=
  match tables.streams.get stream_id with
  | some row =>
    { tables with
      streams := tables.streams.insert stream_id
        { row with stored_bytes := row.stored_bytes + bytes } }
  | none => tables

def remove_stream_bytes (stream_id bytes : ℕ) : StreamTables :=
  match tables.streams.get stream_id with
  | some row =>
    { tables with
      streams := tables.streams.insert stream_id
        { row with stored_bytes := row.stored_bytes - bytes } }
  | none => tables

/-- Whether `remove_stream_bytes` would take more bytes than the row holds. -/
def bytes_underflow (stream_id bytes : ℕ) : Bool :=
  (tables.streams.get stream_id).any fun row => row.stored_bytes < bytes

end StreamTables

namespace LeaseTables

def put_prepared (tables : LeaseTables) (object_id : ℕ) (deadline : ℤ) : LeaseTables where
  prepared := tables.prepared.insert object_id deadline
  prepared_by_deadline := tables.prepared_by_deadline.insert (toLex (deadline, object_id)) ()

def remove_prepared (tables : LeaseTables) (object_id : ℕ) : LeaseTables :=
  match tables.prepared.get object_id with
  | some deadline =>
    { prepared := tables.prepared.remove object_id
      prepared_by_deadline := tables.prepared_by_deadline.remove (toLex (deadline, object_id)) }
  | none => tables

end LeaseTables

namespace DestroyTables

def put_destroyed (tables : DestroyTables) (seq object_id : ℕ) (op : CompactOperations) :
    DestroyTables :=
  { tables with
    mark_destroyed := tables.mark_destroyed.insert seq (object_id, op)
    destroyed_by_id := tables.destroyed_by_id.insert object_id seq }

def remove_destroyed (tables : DestroyTables) (object_id : ℕ) : DestroyTables :=
  match tables.destroyed_by_id.get object_id with
  | some seq =>
    { tables with
      destroyed_by_id := tables.destroyed_by_id.remove object_id
      mark_destroyed := tables.mark_destroyed.remove seq }
  | none => tables

end DestroyTables

namespace MetadataState

/-! ## Streams -/

variable (state : MetadataState)

def put_stream (row : StreamRow) : MetadataState :=
  { state with toStreamTables := state.toStreamTables.put_stream row }

def remove_stream (stream_id : ℕ) : MetadataState :=
  { state with toStreamTables := state.toStreamTables.remove_stream stream_id }

def add_stream_bytes (stream_id bytes : ℕ) : MetadataState :=
  { state with toStreamTables := state.toStreamTables.add_stream_bytes stream_id bytes }

def remove_stream_bytes (stream_id bytes : ℕ) : MetadataState :=
  { state with
    toStreamTables := state.toStreamTables.remove_stream_bytes stream_id bytes
    underflowed := state.underflowed || state.toStreamTables.bytes_underflow stream_id bytes }

/-! ## Prepared objects -/

variable (object_id : ℕ)

def put_prepared (deadline : ℤ) : MetadataState :=
  { state with toLeaseTables := state.toLeaseTables.put_prepared object_id deadline }

def remove_prepared : MetadataState :=
  { state with toLeaseTables := state.toLeaseTables.remove_prepared object_id }

/-! ## Objects -/

/-- `self.stored_bytes -= bytes`. -/
def sub_stored_bytes (bytes : ℕ) : MetadataState :=
  { state with
    stored_bytes := state.stored_bytes - bytes
    underflowed := state.underflowed || decide (state.stored_bytes < bytes) }

/-- The loop body of `remove_stream_set_object`. -/
def remove_slice (state : MetadataState) (slice : StreamOffsetRange × ℕ) :
    MetadataState :=
  let key := ⟨slice.1.stream_id, slice.1.start_offset, object_id⟩
  { state with sso_ranges := state.sso_ranges.remove key }.remove_stream_bytes
    slice.1.stream_id slice.2

def remove_stream_set_object : MetadataState :=
  match state.stream_set_objects.get object_id with
  | none => state
  | some row =>
    let state := { state with stream_set_objects := state.stream_set_objects.remove object_id }
    let state := row.slices.foldl (remove_slice object_id) state
    let state := state.sub_stored_bytes row.object.object_size
    { state with sso_by_node := state.sso_by_node.remove (toLex (row.node_id, object_id)) }

/-- The loop body of `put_stream_set_object`. -/
def put_slice (state : MetadataState) (slice : StreamOffsetRange × ℕ) :
    MetadataState :=
  let key := ⟨slice.1.stream_id, slice.1.start_offset, object_id⟩
  { state with
    sso_ranges := state.sso_ranges.insert key (slice.1.end_offset, slice.2) }.add_stream_bytes
    slice.1.stream_id slice.2

def put_stream_set_object (row : StreamSetObjectRow) : MetadataState :=
  let object_id := row.object.object_id
  let state := state.remove_stream_set_object object_id
  let state := row.slices.foldl (put_slice object_id) state
  { state with
    stored_bytes := state.stored_bytes + row.object.object_size
    sso_by_node := state.sso_by_node.insert (toLex (row.node_id, object_id)) ()
    stream_set_objects := state.stream_set_objects.insert object_id row }

def remove_stream_object : MetadataState :=
  match state.stream_object_ids.get object_id with
  | none => state
  | some key =>
    let state := { state with stream_object_ids := state.stream_object_ids.remove object_id }
    match state.stream_objects.get key with
    | none => state
    | some row =>
      let state := { state with stream_objects := state.stream_objects.remove key }
      let state := state.remove_stream_bytes key.stream_id row.object.object_size
      state.sub_stored_bytes row.object.object_size

def put_stream_object (row : StreamObjectRow) : MetadataState :=
  let object_id := row.object.object_id
  let state := state.remove_stream_object object_id
  let range := row.range
  let key : StreamOffsetKey := ⟨range.stream_id, range.start_offset, object_id⟩
  let state := state.add_stream_bytes range.stream_id row.object.object_size
  { state with
    stored_bytes := state.stored_bytes + row.object.object_size
    stream_object_ids := state.stream_object_ids.insert object_id key
    stream_objects := state.stream_objects.insert key row }

/-! ## The destruction queue -/

def put_destroyed (seq object_id : ℕ) (op : CompactOperations) :
    MetadataState :=
  { state with toDestroyTables := state.toDestroyTables.put_destroyed seq object_id op }

def remove_destroyed : MetadataState :=
  { state with toDestroyTables := state.toDestroyTables.remove_destroyed object_id }

/-! ## Keys and values -/

/-- The length of an entry: the bytes of the key in UTF-8 and those of the value. -/
def kv_len (key : String) (value : Bytes) : ℕ := key.utf8ByteSize + value.length

/-- `self.kv_bytes -= bytes`. -/
def sub_kv_bytes (bytes : ℕ) : MetadataState :=
  { state with
    kv_bytes := state.kv_bytes - bytes
    underflowed := state.underflowed || decide (state.kv_bytes < bytes) }

def put_kv (key : String) (value : Bytes) : MetadataState :=
  let old := state.kv.get key
  let state := { state with
    kv_bytes := state.kv_bytes + kv_len key value
    kv := state.kv.insert key value }
  match old with
  | some old => state.sub_kv_bytes (kv_len key old)
  | none => state

/-- The state without the key, and the value that was removed. -/
def remove_kv (key : String) : MetadataState × Option Bytes :=
  match state.kv.get key with
  | some old => ({ state with kv := state.kv.remove key }.sub_kv_bytes (kv_len key old), some old)
  | none => (state, none)

/-! ## Queries used by the transition function -/

/-- `(epoch, first offset)` per recorded epoch of the stream, oldest first. -/
def stream_epochs (stream_id : ℕ) : List (ℤ × ℕ) :=
  (state.epochs.scan fun key => (ofLex key).1 = stream_id).map fun e => ((ofLex e.1).2, e.2)

/-- The stream objects of a stream, in key order. -/
def stream_objects_of (stream_id : ℕ) :
    List (StreamOffsetKey × StreamObjectRow) :=
  state.stream_objects.scan fun key => key.stream_id = stream_id

end MetadataState

end PicoMq.Metadata
