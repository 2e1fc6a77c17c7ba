import PicoMq.Library.Wire
import PicoMq.Metadata.Command

/-!
# The command codec

A version byte, a count, then for each command a type byte and its fields in declaration order.
Integers are little-endian; strings, blobs and lists have a `u32` length in front.
-/

namespace PicoMq.Metadata

open Wire

inductive CodecError where
  | unsupportedVersion (version : ℕ)
  | unknownCommand (type_code : ℕ)
  | unknownResult (tag : ℕ)
  | corrupt (message : String)
deriving DecidableEq, Repr

/-! ## Fields

The helpers that the command codec and the snapshot format have in common. The readers are told how
their error type reports a corrupt encoding. -/

namespace Fields

variable {ε α : Type}

def put_u8 (n : ℕ) : Bytes := le_bytes 1 n

def put_u32_le (n : ℕ) : Bytes := le_bytes 4 n

def put_u64_le (n : ℕ) : Bytes := le_bytes 8 n

def put_i32_le (x : ℤ) : Bytes := le_bytes 4 (to_unsigned 31 x)

def put_i64_le (x : ℤ) : Bytes := le_bytes 8 (to_unsigned 63 x)

def put_blob (value : Bytes) : Bytes := put_u32_le value.length ++ value

def put_str (s : String) : Bytes := put_u32_le s.utf8ByteSize ++ utf8 s

/-- A `u32` count, cast from the length, and the elements. -/
def put_list (put : α → Bytes) (l : List α) : Bytes := put_u32_le l.length ++ l.flatMap put

def put_str_map (map : OrdMap String String) : Bytes :=
  put_list (fun e => put_str e.1 ++ put_str e.2) map.entries

def put_stream_state : StreamState → Bytes
  | .closed => put_u8 0
  | .opened => put_u8 1

def put_compact_operation : CompactOperations → Bytes
  | .delete => put_u8 0
  | .keepData => put_u8 1
  | .deepDelete => put_u8 2

variable (corrupt : String → ε)

def get_u8 : Reader ε ℕ := Reader.word 1 (corrupt "truncated reading u8")

def get_u32 : Reader ε ℕ := Reader.word 4 (corrupt "truncated reading u32")

def get_u64 : Reader ε ℕ := Reader.word 8 (corrupt "truncated reading u64")

def get_i32 : Reader ε ℤ := do
  let n ← Reader.word 4 (corrupt "truncated reading i32")
  pure (to_signed 31 n)

def get_i64 : Reader ε ℤ := do
  let n ← Reader.word 8 (corrupt "truncated reading i64")
  pure (to_signed 63 n)

def get_blob (what : String) : Reader ε Bytes := do
  let len ← get_u32 corrupt
  Reader.take len (corrupt (what ++ " truncated"))

def get_str : Reader ε String := do
  let len ← get_u32 corrupt
  let bytes ← Reader.take len (corrupt "string truncated")
  match of_utf8 bytes with
  | some s => pure s
  | none => Reader.fail (corrupt "invalid utf-8")

def get_list (get : Reader ε α) : Reader ε (List α) := do
  let count ← get_u32 corrupt
  Reader.many get count

/-- A pair of the map, put into the map that has been read so far. -/
def get_str_entry (map : OrdMap String String) : Reader ε (OrdMap String String) := do
  let key ← get_str corrupt
  let value ← get_str corrupt
  pure (map.insert key value)

def get_str_map : Reader ε (OrdMap String String) := do
  let len ← get_u32 corrupt
  Reader.loop (get_str_entry corrupt) len .empty

def get_stream_state : Reader ε StreamState := do
  let byte ← get_u8 corrupt
  match byte with
  | 0 => pure .closed
  | 1 => pure .opened
  | other => Reader.fail (corrupt s!"stream state {other}")

def get_compact_operation : Reader ε CompactOperations := do
  let byte ← get_u8 corrupt
  match byte with
  | 0 => pure .delete
  | 1 => pure .keepData
  | 2 => pure .deepDelete
  | other => Reader.fail (corrupt s!"compact operation {other}")

end Fields

namespace Codec

open Fields

def CODEC_VERSION : ℕ := 0

/-- The message of an encoding with bytes after its end. -/
def trailing (remaining : ℕ) : CodecError := .corrupt s!"{remaining} trailing bytes"

abbrev Get (α : Type) := Reader CodecError α

def check_version : Get Unit := do
  let version ← get_u8 .corrupt
  if version ≠ CODEC_VERSION then Reader.fail (.unsupportedVersion version) else pure ()

/-! ## Requests -/

def put_proposer (p : Proposer) : Bytes := put_i32_le p.node_id ++ put_i64_le p.node_epoch

def get_proposer : Get Proposer := do
  let node_id ← get_i32 .corrupt
  let node_epoch ← get_i64 .corrupt
  pure ⟨node_id, node_epoch⟩

def put_stream_range (range : ObjectStreamRange) : Bytes :=
  put_u64_le range.stream_id ++ (put_u64_le range.epoch ++ (put_u64_le range.start_offset ++
    (put_u64_le range.end_offset ++ put_u64_le range.size)))

def get_stream_range : Get ObjectStreamRange := do
  let stream_id ← get_u64 .corrupt
  let epoch ← get_u64 .corrupt
  let start_offset ← get_u64 .corrupt
  let end_offset ← get_u64 .corrupt
  let size ← get_u64 .corrupt
  pure { stream_id, epoch, start_offset, end_offset, size }

def put_stream_object (object : StreamObject) : Bytes :=
  put_u64_le object.object_id ++ (put_u64_le object.object_size ++ (put_u64_le object.stream_id ++
    (put_u64_le object.start_offset ++ (put_u64_le object.end_offset ++
      put_u32_le object.attributes))))

def get_stream_object : Get StreamObject := do
  let object_id ← get_u64 .corrupt
  let object_size ← get_u64 .corrupt
  let stream_id ← get_u64 .corrupt
  let start_offset ← get_u64 .corrupt
  let end_offset ← get_u64 .corrupt
  let attributes ← get_u32 .corrupt
  pure { object_id, object_size, stream_id, start_offset, end_offset, attributes }

def put_commit_request (request : CommitStreamSetObjectRequest) : Bytes :=
  put_u64_le request.object_id ++ (put_u64_le request.object_size ++
    (put_u32_le request.attributes ++ (put_list put_stream_range request.stream_ranges ++
      (put_list put_stream_object request.stream_objects ++
        put_list put_u64_le request.compacted_object_ids))))

def get_commit_request : Get CommitStreamSetObjectRequest := do
  let object_id ← get_u64 .corrupt
  let object_size ← get_u64 .corrupt
  let attributes ← get_u32 .corrupt
  let stream_ranges ← get_list .corrupt get_stream_range
  let stream_objects ← get_list .corrupt get_stream_object
  let compacted_object_ids ← get_list .corrupt (get_u64 .corrupt)
  pure { object_id, object_size, attributes, stream_ranges, stream_objects, compacted_object_ids }

def put_compact_request (request : CompactStreamObjectRequest) : Bytes :=
  put_u64_le request.object_id ++ (put_u64_le request.object_size ++
    (put_u64_le request.stream_id ++ (put_u64_le request.stream_epoch ++
      (put_u64_le request.start_offset ++ (put_u64_le request.end_offset ++
        (put_u32_le request.attributes ++ (put_list put_u64_le request.source_object_ids ++
          put_list put_compact_operation request.operations)))))))

def get_compact_request : Get CompactStreamObjectRequest := do
  let object_id ← get_u64 .corrupt
  let object_size ← get_u64 .corrupt
  let stream_id ← get_u64 .corrupt
  let stream_epoch ← get_u64 .corrupt
  let start_offset ← get_u64 .corrupt
  let end_offset ← get_u64 .corrupt
  let attributes ← get_u32 .corrupt
  let source_object_ids ← get_list .corrupt (get_u64 .corrupt)
  let operations ← get_list .corrupt (get_compact_operation .corrupt)
  pure ⟨object_id, object_size, stream_id, stream_epoch, start_offset, end_offset,
    source_object_ids, operations, attributes⟩

/-! ## Commands -/

def type_code : MetadataCommand → ℕ
  | .createStream .. => 1
  | .openStream .. => 2
  | .trimStream .. => 3
  | .closeStream .. => 4
  | .deleteStream .. => 5
  | .prepareObject .. => 6
  | .commitStreamSetObject .. => 7
  | .compactStreamObject .. => 8
  | .expirePreparedObjects .. => 9
  | .registerNode .. => 10
  | .cleanDestroyedObjects .. => 11
  | .putKv .. => 12
  | .putKvIfAbsent .. => 13
  | .deleteKv .. => 14
  | .transferStream .. => 15
  | .completeTransfer .. => 16
  | .createStreams .. => 17
  | .placeStream .. => 18
  | .deleteKvIfMatches .. => 19
  | .allocateProducerIds .. => 20
  | .putKvIfMatches .. => 21
  | .heartbeat .. => 22
  | .fenceNode .. => 23
  | .setNodeSlots .. => 24

def put_node_id : Option ℤ → Bytes
  | some node_id => put_u8 1 ++ put_i32_le node_id
  | none => put_u8 0

/-- The fields after the type byte and the proposer. -/
def put_fields : MetadataCommand → Bytes
  | .registerNode node_id node_epoch http_address slots protocol_addresses wal =>
    put_i32_le node_id ++ (put_i64_le node_epoch ++ (put_str http_address ++ (put_u32_le slots ++
      (put_str_map protocol_addresses ++ put_str wal))))
  | .setNodeSlots _ node_id slots => put_i32_le node_id ++ put_u32_le slots
  | .heartbeat _ => []
  | .createStream _ => []
  | .fenceNode _ node_id node_epoch heartbeats =>
    put_i32_le node_id ++ (put_i64_le node_epoch ++ put_u64_le heartbeats)
  | .openStream _ stream_id epoch => put_u64_le stream_id ++ put_i64_le epoch
  | .closeStream _ stream_id epoch => put_u64_le stream_id ++ put_i64_le epoch
  | .deleteStream _ stream_id epoch => put_u64_le stream_id ++ put_i64_le epoch
  | .completeTransfer _ stream_id epoch => put_u64_le stream_id ++ put_i64_le epoch
  | .trimStream _ stream_id epoch new_start_offset =>
    put_u64_le stream_id ++ (put_i64_le epoch ++ put_u64_le new_start_offset)
  | .prepareObject _ count ttl_ms now_ms =>
    put_u32_le count ++ (put_i64_le ttl_ms ++ put_i64_le now_ms)
  | .commitStreamSetObject _ request now_ms => put_i64_le now_ms ++ put_commit_request request
  | .compactStreamObject _ request now_ms => put_i64_le now_ms ++ put_compact_request request
  | .expirePreparedObjects _ now_ms => put_i64_le now_ms
  | .cleanDestroyedObjects _ object_ids => put_list put_u64_le object_ids
  | .putKv _ key value => put_str key ++ put_blob value
  | .putKvIfAbsent _ key value => put_str key ++ put_blob value
  | .deleteKv _ key => put_str key
  | .deleteKvIfMatches _ key expected => put_str key ++ put_blob expected
  | .putKvIfMatches _ key expected value => put_str key ++ (put_blob expected ++ put_blob value)
  | .transferStream _ stream_id from_node to_node =>
    put_u64_le stream_id ++ (put_i32_le from_node ++ put_i32_le to_node)
  | .createStreams _ count => put_u32_le count
  | .allocateProducerIds _ count => put_u32_le count
  | .placeStream _ stream_id node_id => put_u64_le stream_id ++ put_node_id node_id

/-- The type byte, the proposer if the command has one, and the fields. -/
def put_command_body (command : MetadataCommand) : Bytes :=
  put_u8 (type_code command) ++ (command.proposer.elim [] put_proposer ++ put_fields command)

/-- Any byte but `0` announces a node. -/
def get_node_id : Get (Option ℤ) := do
  let byte ← get_u8 .corrupt
  match byte with
  | 0 => pure none
  | _ => do
    let node_id ← get_i32 .corrupt
    pure (some node_id)

/-- The commands that consist of a proposer, a stream and an epoch. -/
def get_stream_epoch (make : Proposer → ℕ → ℤ → MetadataCommand) : Get MetadataCommand := do
  let proposer ← get_proposer
  let stream_id ← get_u64 .corrupt
  let epoch ← get_i64 .corrupt
  pure (make proposer stream_id epoch)

/-- The commands that consist of a proposer, a key and a blob. -/
def get_key_blob (make : Proposer → String → Bytes → MetadataCommand) : Get MetadataCommand := do
  let proposer ← get_proposer
  let key ← get_str .corrupt
  let blob ← get_blob .corrupt "blob"
  pure (make proposer key blob)

/-- The commands that consist of a proposer and a count. -/
def get_count (make : Proposer → ℕ → MetadataCommand) : Get MetadataCommand := do
  let proposer ← get_proposer
  let count ← get_u32 .corrupt
  pure (make proposer count)

def get_fields : ℕ → Get MetadataCommand
  | 10 => do
    let node_id ← get_i32 .corrupt
    let node_epoch ← get_i64 .corrupt
    let http_address ← get_str .corrupt
    let slots ← get_u32 .corrupt
    let protocol_addresses ← get_str_map .corrupt
    let wal ← get_str .corrupt
    pure (.registerNode node_id node_epoch http_address slots protocol_addresses wal)
  | 1 => do
    let proposer ← get_proposer
    pure (.createStream proposer)
  | 2 => get_stream_epoch .openStream
  | 3 => do
    let proposer ← get_proposer
    let stream_id ← get_u64 .corrupt
    let epoch ← get_i64 .corrupt
    let new_start_offset ← get_u64 .corrupt
    pure (.trimStream proposer stream_id epoch new_start_offset)
  | 4 => get_stream_epoch .closeStream
  | 5 => get_stream_epoch .deleteStream
  | 6 => do
    let proposer ← get_proposer
    let count ← get_u32 .corrupt
    let ttl_ms ← get_i64 .corrupt
    let now_ms ← get_i64 .corrupt
    pure (.prepareObject proposer count ttl_ms now_ms)
  | 7 => do
    let proposer ← get_proposer
    let now_ms ← get_i64 .corrupt
    let request ← get_commit_request
    pure (.commitStreamSetObject proposer request now_ms)
  | 8 => do
    let proposer ← get_proposer
    let now_ms ← get_i64 .corrupt
    let request ← get_compact_request
    pure (.compactStreamObject proposer request now_ms)
  | 9 => do
    let proposer ← get_proposer
    let now_ms ← get_i64 .corrupt
    pure (.expirePreparedObjects proposer now_ms)
  | 11 => do
    let proposer ← get_proposer
    let object_ids ← get_list .corrupt (get_u64 .corrupt)
    pure (.cleanDestroyedObjects proposer object_ids)
  | 12 => get_key_blob .putKv
  | 13 => get_key_blob .putKvIfAbsent
  | 14 => do
    let proposer ← get_proposer
    let key ← get_str .corrupt
    pure (.deleteKv proposer key)
  | 15 => do
    let proposer ← get_proposer
    let stream_id ← get_u64 .corrupt
    let from_node ← get_i32 .corrupt
    let to_node ← get_i32 .corrupt
    pure (.transferStream proposer stream_id from_node to_node)
  | 16 => get_stream_epoch .completeTransfer
  | 17 => get_count .createStreams
  | 18 => do
    let proposer ← get_proposer
    let stream_id ← get_u64 .corrupt
    let node_id ← get_node_id
    pure (.placeStream proposer stream_id node_id)
  | 19 => get_key_blob .deleteKvIfMatches
  | 20 => get_count .allocateProducerIds
  | 21 => do
    let proposer ← get_proposer
    let key ← get_str .corrupt
    let expected ← get_blob .corrupt "blob"
    let value ← get_blob .corrupt "blob"
    pure (.putKvIfMatches proposer key expected value)
  | 22 => do
    let proposer ← get_proposer
    pure (.heartbeat proposer)
  | 23 => do
    let proposer ← get_proposer
    let node_id ← get_i32 .corrupt
    let node_epoch ← get_i64 .corrupt
    let heartbeats ← get_u64 .corrupt
    pure (.fenceNode proposer node_id node_epoch heartbeats)
  | 24 => do
    let proposer ← get_proposer
    let node_id ← get_i32 .corrupt
    let slots ← get_u32 .corrupt
    pure (.setNodeSlots proposer node_id slots)
  | other => Reader.fail (.unknownCommand other)

def get_command_body : Get MetadataCommand := do
  let type_code ← get_u8 .corrupt
  get_fields type_code

/-! ## Batches -/

/-- One entry of the replicated log. -/
def encode_batch (commands : List MetadataCommand) : Bytes :=
  put_u8 CODEC_VERSION ++ put_list put_command_body commands

def get_batch : Get (List MetadataCommand) := do
  check_version
  get_list .corrupt get_command_body

def decode_batch (bytes : Bytes) : Except CodecError (List MetadataCommand) :=
  get_batch.decode trailing bytes

/-! ## Results -/

def put_result : MetadataResult → Bytes
  | .unit => put_u8 0
  | .id id => put_u8 1 ++ put_u64_le id
  | .count count => put_u8 2 ++ put_u64_le count
  | .stream metadata =>
    put_u8 3 ++ (put_u64_le metadata.stream_id ++ (put_u64_le metadata.epoch ++
      (put_u64_le metadata.start_offset ++ (put_u64_le metadata.end_offset ++
        (put_stream_state metadata.state ++ put_i32_le metadata.node_id)))))
  | .value (some value) => put_u8 5 ++ put_blob value
  | .value none => put_u8 6

def encode_result (result : MetadataResult) : Bytes := put_u8 CODEC_VERSION ++ put_result result

/-- What follows the tag. Tag 4 is reserved. -/
def get_result_fields : ℕ → Get MetadataResult
  | 0 => pure .unit
  | 1 => do
    let id ← get_u64 .corrupt
    pure (.id id)
  | 2 => do
    let count ← get_u64 .corrupt
    pure (.count count)
  | 3 => do
    let stream_id ← get_u64 .corrupt
    let epoch ← get_u64 .corrupt
    let start_offset ← get_u64 .corrupt
    let end_offset ← get_u64 .corrupt
    let state ← get_stream_state .corrupt
    let node_id ← get_i32 .corrupt
    pure (.stream { stream_id, epoch, start_offset, end_offset, state, node_id })
  | 5 => do
    let value ← get_blob .corrupt "value"
    pure (.value (some value))
  | 6 => pure (.value none)
  | other => Reader.fail (.unknownResult other)

def get_result : Get MetadataResult := do
  check_version
  let tag ← get_u8 .corrupt
  get_result_fields tag

def decode_result (bytes : Bytes) : Except CodecError MetadataResult :=
  get_result.decode trailing bytes

end Codec

/-! ## What the format can carry

The fields are values of their machine types, and every string, blob, list and map is short enough
for the count in front of it. -/

/-- The string is short enough for its `u32` length. -/
def Fields.StrFits (s : String) : Prop := IsUnsigned 32 s.utf8ByteSize

/-- The list is short enough for its `u32` count, and so is every element. -/
def Fields.ListFits {α : Type} (P : α → Prop) (l : List α) : Prop :=
  IsUnsigned 32 l.length ∧ ∀ a ∈ l, P a

def Fields.BlobFits (value : Bytes) : Prop := IsUnsigned 32 value.length

def Fields.StrMapFits (map : OrdMap String String) : Prop :=
  ListFits (fun e : String × String => StrFits e.1 ∧ StrFits e.2) map.entries

open Fields

def Proposer.Fits (p : Proposer) : Prop := IsSigned 31 p.node_id ∧ IsSigned 63 p.node_epoch

def ObjectStreamRange.Fits (range : ObjectStreamRange) : Prop :=
  IsUnsigned 64 range.stream_id ∧ IsUnsigned 64 range.epoch ∧ IsUnsigned 64 range.start_offset ∧
    IsUnsigned 64 range.end_offset ∧ IsUnsigned 64 range.size

def StreamObject.Fits (object : StreamObject) : Prop :=
  IsUnsigned 64 object.object_id ∧ IsUnsigned 64 object.object_size ∧
    IsUnsigned 64 object.stream_id ∧ IsUnsigned 64 object.start_offset ∧
    IsUnsigned 64 object.end_offset ∧ IsUnsigned 32 object.attributes

def CommitStreamSetObjectRequest.Fits (request : CommitStreamSetObjectRequest) : Prop :=
  IsUnsigned 64 request.object_id ∧ IsUnsigned 64 request.object_size ∧
    IsUnsigned 32 request.attributes ∧ ListFits ObjectStreamRange.Fits request.stream_ranges ∧
    ListFits StreamObject.Fits request.stream_objects ∧
    ListFits (IsUnsigned 64) request.compacted_object_ids

def CompactStreamObjectRequest.Fits (request : CompactStreamObjectRequest) : Prop :=
  IsUnsigned 64 request.object_id ∧ IsUnsigned 64 request.object_size ∧
    IsUnsigned 64 request.stream_id ∧ IsUnsigned 64 request.stream_epoch ∧
    IsUnsigned 64 request.start_offset ∧ IsUnsigned 64 request.end_offset ∧
    IsUnsigned 32 request.attributes ∧ ListFits (IsUnsigned 64) request.source_object_ids ∧
    ListFits (fun _ => True) request.operations

/-- The fields of a command other than its proposer. -/
def MetadataCommand.FieldsFit : MetadataCommand → Prop
  | .registerNode node_id node_epoch http_address slots protocol_addresses wal =>
    IsSigned 31 node_id ∧ IsSigned 63 node_epoch ∧ StrFits http_address ∧ IsUnsigned 32 slots ∧
      StrMapFits protocol_addresses ∧ StrFits wal
  | .setNodeSlots _ node_id slots => IsSigned 31 node_id ∧ IsUnsigned 32 slots
  | .heartbeat _ => True
  | .createStream _ => True
  | .fenceNode _ node_id node_epoch heartbeats =>
    IsSigned 31 node_id ∧ IsSigned 63 node_epoch ∧ IsUnsigned 64 heartbeats
  | .openStream _ stream_id epoch => IsUnsigned 64 stream_id ∧ IsSigned 63 epoch
  | .closeStream _ stream_id epoch => IsUnsigned 64 stream_id ∧ IsSigned 63 epoch
  | .deleteStream _ stream_id epoch => IsUnsigned 64 stream_id ∧ IsSigned 63 epoch
  | .completeTransfer _ stream_id epoch => IsUnsigned 64 stream_id ∧ IsSigned 63 epoch
  | .trimStream _ stream_id epoch new_start_offset =>
    IsUnsigned 64 stream_id ∧ IsSigned 63 epoch ∧ IsUnsigned 64 new_start_offset
  | .prepareObject _ count ttl_ms now_ms =>
    IsUnsigned 32 count ∧ IsSigned 63 ttl_ms ∧ IsSigned 63 now_ms
  | .commitStreamSetObject _ request now_ms => IsSigned 63 now_ms ∧ request.Fits
  | .compactStreamObject _ request now_ms => IsSigned 63 now_ms ∧ request.Fits
  | .expirePreparedObjects _ now_ms => IsSigned 63 now_ms
  | .cleanDestroyedObjects _ object_ids => ListFits (IsUnsigned 64) object_ids
  | .putKv _ key value => StrFits key ∧ BlobFits value
  | .putKvIfAbsent _ key value => StrFits key ∧ BlobFits value
  | .deleteKv _ key => StrFits key
  | .deleteKvIfMatches _ key expected => StrFits key ∧ BlobFits expected
  | .putKvIfMatches _ key expected value => StrFits key ∧ BlobFits expected ∧ BlobFits value
  | .transferStream _ stream_id from_node to_node =>
    IsUnsigned 64 stream_id ∧ IsSigned 31 from_node ∧ IsSigned 31 to_node
  | .createStreams _ count => IsUnsigned 32 count
  | .allocateProducerIds _ count => IsUnsigned 32 count
  | .placeStream _ stream_id node_id =>
    IsUnsigned 64 stream_id ∧ ∀ id ∈ node_id, IsSigned 31 id

def MetadataCommand.Fits (command : MetadataCommand) : Prop :=
  (∀ p ∈ command.proposer, p.Fits) ∧ command.FieldsFit

def MetadataResult.Fits : MetadataResult → Prop
  | .unit => True
  | .id n => IsUnsigned 64 n
  | .count n => IsUnsigned 64 n
  | .stream metadata =>
    IsUnsigned 64 metadata.stream_id ∧ IsUnsigned 64 metadata.epoch ∧
      IsUnsigned 64 metadata.start_offset ∧ IsUnsigned 64 metadata.end_offset ∧
      IsSigned 31 metadata.node_id
  | .value v => ∀ bytes ∈ v, BlobFits bytes

end PicoMq.Metadata
