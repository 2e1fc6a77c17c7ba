import PicoMq.Metadata.Codec
import PicoMq.Metadata.History

/-!
# Snapshots

A version byte and the primary tables, each with a `u64` length in front. Restoring puts the rows
back through the methods of the state.
-/

namespace PicoMq.Metadata

open Wire Fields

inductive SnapshotError where
  | unsupportedVersion (version : ℕ)
  | corrupt (message : String)
deriving DecidableEq, Repr

namespace Snapshot

def SNAPSHOT_VERSION : ℕ := 0

variable {K V : Type} [LinearOrder K]

abbrev Get (α : Type) := Reader SnapshotError α

/-- The entries of a table in key order, after their number. -/
def put_table (put : K × V → Bytes) (table : OrdMap K V) : Bytes :=
  put_u64_le table.entries.length ++ table.entries.flatMap put

/-- Reads so many entries, each of which changes the state. -/
def get_table (get_entry : MetadataState → Get MetadataState) (state : MetadataState) :
    Get MetadataState := do
  let len ← get_u64 .corrupt
  Reader.loop get_entry len state

/-! ## Objects -/

def put_object_type : S3ObjectType → Bytes
  | .streamSet => put_u8 0
  | .stream => put_u8 1

def get_object_type : Get S3ObjectType := do
  let byte ← get_u8 .corrupt
  match byte with
  | 0 => pure .streamSet
  | 1 => pure .stream
  | other => Reader.fail (.corrupt s!"object type {other}")

def put_offset_range (range : StreamOffsetRange) : Bytes :=
  put_u64_le range.stream_id ++ (put_u64_le range.start_offset ++ put_u64_le range.end_offset)

def get_offset_range : Get StreamOffsetRange := do
  let stream_id ← get_u64 .corrupt
  let start_offset ← get_u64 .corrupt
  let end_offset ← get_u64 .corrupt
  pure { stream_id, start_offset, end_offset }

def put_object (object : S3ObjectMetadata) : Bytes :=
  put_u64_le object.object_id ++ (put_object_type object.object_type ++
    (put_u64_le object.object_size ++ (put_u32_le object.attributes ++
      (put_i64_le object.committed_timestamp_ms ++ (put_i64_le object.data_timestamp_ms ++
        put_list put_offset_range object.offset_ranges)))))

def get_object : Get S3ObjectMetadata := do
  let object_id ← get_u64 .corrupt
  let object_type ← get_object_type
  let object_size ← get_u64 .corrupt
  let attributes ← get_u32 .corrupt
  let committed_timestamp_ms ← get_i64 .corrupt
  let data_timestamp_ms ← get_i64 .corrupt
  let offset_ranges ← get_list .corrupt get_offset_range
  pure ⟨object_id, object_type, offset_ranges, object_size, attributes, committed_timestamp_ms,
    data_timestamp_ms⟩

/-! ## The entries of the tables -/

def put_stream (e : ℕ × StreamRow) : Bytes :=
  put_u64_le e.2.stream_id ++ (put_i64_le e.2.epoch ++ (put_u64_le e.2.start_offset ++
    (put_u64_le e.2.end_offset ++ (put_stream_state e.2.state ++ put_i32_le e.2.node_id))))

variable (state : MetadataState)

/-- The stored bytes are not in the snapshot: the objects of the stream add them up again. -/
def get_stream : Get MetadataState := do
  let stream_id ← get_u64 .corrupt
  let epoch ← get_i64 .corrupt
  let start_offset ← get_u64 .corrupt
  let end_offset ← get_u64 .corrupt
  let stream_state ← get_stream_state .corrupt
  let node_id ← get_i32 .corrupt
  pure (state.put_stream ⟨stream_id, epoch, start_offset, end_offset, stream_state, node_id, 0⟩)

def put_fenced (fenced : Bool) : Bytes := put_u8 fenced.toNat

def get_fenced : Get Bool := do
  let byte ← get_u8 .corrupt
  match byte with
  | 0 => pure false
  | 1 => pure true
  | other => Reader.fail (.corrupt s!"fenced flag {other}")

def put_node (e : ℤ × NodeRow) : Bytes :=
  put_i32_le e.2.node_id ++ (put_i64_le e.2.epoch ++ (put_str e.2.http_address ++
    (put_u32_le e.2.slots ++ (put_str_map e.2.protocol_addresses ++ (put_str e.2.wal ++
      (put_u64_le e.2.heartbeats ++ put_fenced e.2.fenced))))))

def get_node : Get MetadataState := do
  let node_id ← get_i32 .corrupt
  let epoch ← get_i64 .corrupt
  let http_address ← get_str .corrupt
  let slots ← get_u32 .corrupt
  let protocol_addresses ← get_str_map .corrupt
  let wal ← get_str .corrupt
  let heartbeats ← get_u64 .corrupt
  let fenced ← get_fenced
  pure { state with
    nodes := state.nodes.insert node_id
      ⟨node_id, epoch, http_address, slots, protocol_addresses, wal, heartbeats, fenced⟩ }

def put_lease (e : ℕ × ℤ) : Bytes := put_u64_le e.1 ++ put_i64_le e.2

def get_lease : Get MetadataState := do
  let id ← get_u64 .corrupt
  let deadline ← get_i64 .corrupt
  pure (state.put_prepared id deadline)

/-- The sizes follow the object without a count of their own. -/
def put_set_object (e : ℕ × StreamSetObjectRow) : Bytes :=
  put_i32_le e.2.node_id ++ (put_object e.2.object ++ (e.2.range_sizes.flatMap put_u64_le ++
    put_i64_le e.2.last_write_ms))

/-- As many sizes are read as the object has ranges. -/
def get_set_object : Get MetadataState := do
  let node_id ← get_i32 .corrupt
  let object ← get_object
  let range_sizes ← Reader.many (get_u64 .corrupt) object.offset_ranges.length
  let last_write_ms ← get_i64 .corrupt
  pure (state.put_stream_set_object ⟨node_id, object, range_sizes, last_write_ms⟩)

def put_stream_object (e : StreamOffsetKey × StreamObjectRow) : Bytes :=
  put_object e.2.object ++ put_i64_le e.2.last_write_ms

def get_stream_object : Get MetadataState := do
  let object ← get_object
  if object.offset_ranges.length ≠ 1 then
    Reader.fail (.corrupt "stream object must have exactly one range")
  else do
    let last_write_ms ← get_i64 .corrupt
    pure (state.put_stream_object ⟨object, last_write_ms⟩)

/-- Sequences are stored as they are, since they may be sparse after cleans. -/
def put_mark (e : ℕ × (ℕ × CompactOperations)) : Bytes :=
  put_u64_le e.1 ++ (put_u64_le e.2.1 ++ put_compact_operation e.2.2)

def get_mark : Get MetadataState := do
  let seq ← get_u64 .corrupt
  let object_id ← get_u64 .corrupt
  let op ← get_compact_operation .corrupt
  pure (state.put_destroyed seq object_id op)

def put_kv (e : String × Bytes) : Bytes := put_str e.1 ++ put_blob e.2

def get_kv : Get MetadataState := do
  let key ← get_str .corrupt
  let value ← get_blob .corrupt "kv value"
  pure (state.put_kv key value)

def put_transfer (e : ℕ × PendingTransfer) : Bytes :=
  put_u64_le e.1 ++ (put_i32_le e.2.from_node ++ put_i32_le e.2.to_node)

def get_transfer : Get MetadataState := do
  let stream_id ← get_u64 .corrupt
  let from_node ← get_i32 .corrupt
  let to_node ← get_i32 .corrupt
  pure { state with
    pending_transfers := state.pending_transfers.insert stream_id ⟨from_node, to_node⟩ }

def put_epoch (e : (ℕ ×ₗ ℤ) × ℕ) : Bytes :=
  put_u64_le (ofLex e.1).1 ++ (put_i64_le (ofLex e.1).2 ++ put_u64_le e.2)

def get_epoch : Get MetadataState := do
  let stream_id ← get_u64 .corrupt
  let epoch ← get_i64 .corrupt
  let start_offset ← get_u64 .corrupt
  pure { state with epochs := state.epochs.insert (toLex (stream_id, epoch)) start_offset }

/-! ## The snapshot -/

def encode : Bytes :=
  put_u8 SNAPSHOT_VERSION ++ (put_u64_le state.next_stream_id ++
    (put_table put_stream state.streams ++ (put_table put_node state.nodes ++
      (put_u64_le state.next_producer_id ++ (put_u64_le state.next_object_id ++
        (put_table put_lease state.prepared ++
          (put_table put_set_object state.stream_set_objects ++
            (put_table put_stream_object state.stream_objects ++
              (put_table put_mark state.mark_destroyed ++
                (put_u64_le state.next_destroyed_seq ++ (put_table put_kv state.kv ++
                  (put_table put_transfer state.pending_transfers ++
                    put_table put_epoch state.epochs))))))))))))

def check_version : Get Unit := do
  let version ← get_u8 .corrupt
  if version ≠ SNAPSHOT_VERSION then Reader.fail (.unsupportedVersion version) else pure ()

def get_state : Get MetadataState := do
  check_version
  let next_stream_id ← get_u64 .corrupt
  let state ← get_table get_stream { next_stream_id }
  let state ← get_table get_node state
  let next_producer_id ← get_u64 .corrupt
  let next_object_id ← get_u64 .corrupt
  let state ← get_table get_lease { state with next_producer_id, next_object_id }
  let state ← get_table get_set_object state
  let state ← get_table get_stream_object state
  let state ← get_table get_mark state
  let next_destroyed_seq ← get_u64 .corrupt
  let state ← get_table get_kv { state with next_destroyed_seq }
  let state ← get_table get_transfer state
  get_table get_epoch state

/-- The message of a snapshot with bytes after its end. -/
def trailing (remaining : ℕ) : SnapshotError := .corrupt s!"{remaining} trailing bytes"

def decode (bytes : Bytes) : Except SnapshotError MetadataState :=
  get_state.decode trailing bytes

end Snapshot

/-! ## States of a log

The log holds encoded batches. A state is reached by applying the commands that the entries decode
to, one after the other. -/

/-- Some prefix of the commands of some log of decodable entries leads to the state. -/
def Reached (noop : ℕ) (s : MetadataState) : Prop :=
  ∃ (entries : List Bytes) (batches : List (List MetadataCommand)) (i : ℕ),
    entries.mapM Codec.decode_batch = .ok batches ∧ s = history noop batches.flatten i

/-! ## Machine words

The numbers of the state are natural numbers and integers here. In the source they are machine
words, and the lengths of the tables are too. -/

def StreamRow.InRange (row : StreamRow) : Prop :=
  IsUnsigned 64 row.stream_id ∧ IsSigned 63 row.epoch ∧ IsUnsigned 64 row.start_offset ∧
    IsUnsigned 64 row.end_offset ∧ IsSigned 31 row.node_id

instance (row : StreamRow) : Decidable row.InRange := inferInstanceAs (Decidable (_ ∧ _))

def NodeRow.InRange (node : NodeRow) : Prop :=
  IsSigned 31 node.node_id ∧ IsSigned 63 node.epoch ∧ IsUnsigned 32 node.slots ∧
    IsUnsigned 64 node.heartbeats

instance (node : NodeRow) : Decidable node.InRange := inferInstanceAs (Decidable (_ ∧ _))

def StreamOffsetRange.InRange (range : StreamOffsetRange) : Prop :=
  IsUnsigned 64 range.stream_id ∧ IsUnsigned 64 range.start_offset ∧
    IsUnsigned 64 range.end_offset

instance (range : StreamOffsetRange) : Decidable range.InRange := inferInstanceAs (Decidable (_ ∧ _))

def S3ObjectMetadata.InRange (object : S3ObjectMetadata) : Prop :=
  IsUnsigned 64 object.object_id ∧ IsUnsigned 64 object.object_size ∧
    IsUnsigned 32 object.attributes ∧ IsSigned 63 object.committed_timestamp_ms ∧
    IsSigned 63 object.data_timestamp_ms ∧ ∀ range ∈ object.offset_ranges, range.InRange

instance (object : S3ObjectMetadata) : Decidable object.InRange := inferInstanceAs (Decidable (_ ∧ _))

def StreamSetObjectRow.InRange (row : StreamSetObjectRow) : Prop :=
  IsSigned 31 row.node_id ∧ row.object.InRange ∧ (∀ size ∈ row.range_sizes, IsUnsigned 64 size) ∧
    IsSigned 63 row.last_write_ms

instance (row : StreamSetObjectRow) : Decidable row.InRange := inferInstanceAs (Decidable (_ ∧ _))

def StreamObjectRow.InRange (row : StreamObjectRow) : Prop :=
  row.object.InRange ∧ IsSigned 63 row.last_write_ms

instance (row : StreamObjectRow) : Decidable row.InRange := inferInstanceAs (Decidable (_ ∧ _))

/-- The length of the table is a machine word, and its entries consist of machine words. -/
def Snapshot.TableInRange {K V : Type} [LinearOrder K] (P : K × V → Prop) (table : OrdMap K V) :
    Prop :=
  IsUnsigned 64 table.entries.length ∧ ∀ e ∈ table.entries, P e

instance {K V : Type} [LinearOrder K] (P : K × V → Prop) [DecidablePred P] (table : OrdMap K V) :
    Decidable (Snapshot.TableInRange P table) := inferInstanceAs (Decidable (_ ∧ _))

open Snapshot in
/-- The numbers of the primary tables are values of their machine types. -/
structure MetadataState.InRange (s : MetadataState) : Prop where
  next_stream_id : IsUnsigned 64 s.next_stream_id
  streams : TableInRange (fun e => e.2.InRange) s.streams
  nodes : TableInRange (fun e => e.2.InRange) s.nodes
  next_producer_id : IsUnsigned 64 s.next_producer_id
  next_object_id : IsUnsigned 64 s.next_object_id
  prepared : TableInRange (fun e => IsUnsigned 64 e.1 ∧ IsSigned 63 e.2) s.prepared
  stream_set_objects : TableInRange (fun e => e.2.InRange) s.stream_set_objects
  stream_objects : TableInRange (fun e => e.2.InRange) s.stream_objects
  mark_destroyed : TableInRange (fun e => IsUnsigned 64 e.1 ∧ IsUnsigned 64 e.2.1) s.mark_destroyed
  next_destroyed_seq : IsUnsigned 64 s.next_destroyed_seq
  kv : IsUnsigned 64 s.kv.entries.length
  pending_transfers : TableInRange (fun e => IsUnsigned 64 e.1 ∧ IsSigned 31 e.2.from_node ∧
    IsSigned 31 e.2.to_node) s.pending_transfers
  epochs : TableInRange (fun e => IsUnsigned 64 (ofLex e.1).1 ∧ IsSigned 63 (ofLex e.1).2 ∧
    IsUnsigned 64 e.2) s.epochs

end PicoMq.Metadata
