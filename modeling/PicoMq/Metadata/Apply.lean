import PicoMq.Metadata.State

/-!
# The state transition function

`apply state command` checks the command's proposer and then runs one function per command.
`NOOP_OBJECT_ID`, the id that stands for "no object", is a constant of the engine and stays a
parameter.
-/

namespace PicoMq.Metadata

open MetadataState

/-- The next state and the result, or the error of a refused command. -/
abbrev Outcome := Except MetadataError (MetadataState × MetadataResult)

/-! ## Nodes -/

/-- The given value, or the stored one where the given one is empty. -/
def kept {T : Type} (given : T) (unset : Bool) (stored : Option T) : T :=
  match stored with
  | some stored => if unset then stored else given
  | none => given

variable (state : MetadataState)

/-- A node that registers again gets the next epoch, and is no longer fenced. -/
def register_node (node_id node_epoch : ℤ) (http_address : String)
    (slots : ℕ) (protocol_addresses : OrdMap String String) (wal : String) : Outcome :=
  let stored := state.nodes.get node_id
  let epoch := match stored with
    | some node => max node_epoch (wrapI64 (node.epoch + 1))
    | none => node_epoch
  let row : NodeRow := {
    node_id
    epoch
    http_address := kept http_address http_address.isEmpty (stored.map (·.http_address))
    slots
    protocol_addresses := kept protocol_addresses protocol_addresses.entries.isEmpty
      (stored.map (·.protocol_addresses))
    wal := kept wal wal.isEmpty (stored.map (·.wal))
    heartbeats := stored.elim 0 (·.heartbeats)
    fenced := false }
  .ok ({ state with nodes := state.nodes.insert node_id row }, .id (asU64 epoch))

def set_node_slots (node_id : ℤ) (slots : ℕ) : Outcome :=
  match state.nodes.get node_id with
  | none => .error (.nodeEpochMismatch node_id s!"node {node_id} is not registered")
  | some node => .ok ({ state with nodes := state.nodes.insert node_id { node with slots } }, .unit)

def heartbeat (node_id : ℤ) : Outcome :=
  match state.nodes.get node_id with
  | some node =>
    let node := { node with heartbeats := node.heartbeats + 1 }
    .ok ({ state with nodes := state.nodes.insert node_id node }, .unit)
  | none => .ok (state, .unit)

/-- A node fencing itself is leaving, never a stale observer of its own heartbeats. -/
def fence_node (proposer : Proposer) (node_id node_epoch : ℤ) (heartbeats : ℕ) : Outcome :=
  let leaving := proposer = ⟨node_id, node_epoch⟩
  match state.nodes.get node_id with
  | none => .error (.nodeEpochMismatch node_id s!"node {node_id} is not registered")
  | some node =>
    if node.fenced ∨ node.epoch ≠ node_epoch ∨ (¬leaving ∧ node.heartbeats ≠ heartbeats) then
      .error (.redundant
        s!"node {node_id} is no longer at epoch {node_epoch} with {heartbeats} heartbeats")
    else
      .ok ({ state with nodes := state.nodes.insert node_id { node with fenced := true } }, .unit)

/-- A proposer must be registered, at this epoch, and not fenced. -/
def check_proposer (proposer : Proposer) : Except MetadataError Unit :=
  let node_id := proposer.node_id
  let node_epoch := proposer.node_epoch
  match state.nodes.get node_id with
  | none => .error (.nodeEpochMismatch node_id s!"node {node_id} is not registered")
  | some node =>
    if node.epoch ≠ node_epoch then
      .error (.nodeEpochMismatch node_id
        s!"node {node_id} epoch mismatch current={node.epoch} request={node_epoch}")
    else if node.fenced then
      .error (.nodeEpochMismatch node_id s!"node {node_id} epoch {node_epoch} is fenced")
    else .ok ()

/-- The node is registered and not fenced. -/
def node_live (node_id : ℤ) : Bool :=
  (state.nodes.get node_id).any fun node => !node.fenced

/-- Only a stream's owner changes its lifecycle, unless that owner is fenced. -/
def check_owner (stream : StreamRow) (node_id : ℤ) : Except MetadataError Unit :=
  if stream.node_id = node_id ∨ ¬node_live state stream.node_id then .ok ()
  else .error (.streamFenced stream.stream_id stream.epoch
    s!"stream {stream.stream_id} is owned by node {stream.node_id}, not node {node_id}")

/-! ## Streams -/

def new_stream_row (stream_id : ℕ) : StreamRow where
  stream_id := stream_id
  epoch := -1
  start_offset := 0
  end_offset := 0
  state := .closed
  node_id := -1
  stored_bytes := 0

def create_stream : Outcome :=
  let stream_id := state.next_stream_id
  let state := { state with next_stream_id := state.next_stream_id + 1 }
  .ok (state.put_stream (new_stream_row stream_id), .id stream_id)

/-- Bounds one log row. -/
def MAX_CREATE_STREAMS : ℕ := 4096

/-- Batched create. Ids are consecutive starting at the returned first id. -/
def create_streams (count : ℕ) : Outcome :=
  if count = 0 then .error (.unexpected "create count must be positive")
  else if count > MAX_CREATE_STREAMS then
    .error (.unexpected s!"create count {count} exceeds {MAX_CREATE_STREAMS}")
  else
    let first := state.next_stream_id
    let state := (List.range' first count).foldl
      (fun state stream_id => state.put_stream (new_stream_row stream_id)) state
    .ok ({ state with next_stream_id := first + count }, .id first)

def require_stream (stream_id : ℕ) : Except MetadataError StreamRow :=
  match state.streams.get stream_id with
  | some row => .ok row
  | none => .error (.streamNotExist stream_id)

/-- The live node with the lowest `streams * 1000 / slots`, then the lowest `node_id`. -/
def least_loaded : Option ℤ :=
  let winner := state.nodes.entries.foldl (fun winner (node_id, node) =>
    if node.slots < 1 ∨ node.fenced then winner
    else
      let streams := (state.streams_by_node.get node_id).getD 0
      let score := streams * 1000 / node.slots
      match winner with
      | none => some (node_id, score)
      | some (best_id, best_score) =>
        if score < best_score ∨ (score = best_score ∧ node_id < best_id) then some (node_id, score)
        else winner) (none : Option (ℤ × ℕ))
  winner.map Prod.fst

def node_takes_streams (node_id : ℤ) : Bool :=
  (state.nodes.get node_id).any fun node => node.slots ≥ 1 && !node.fenced

/-- The node a stream without a live owner goes to. -/
def placement_winner (requested : Option ℤ) : Option ℤ :=
  match requested with
  | some node_id => if node_takes_streams state node_id then some node_id else none
  | none => least_loaded state

/-- A stream that is opened, or closed on a live node, keeps its node. -/
def place_stream (stream_id : ℕ) (requested : Option ℤ) : Outcome := do
  let stream ← require_stream state stream_id
  if stream.state = .opened ∨ node_live state stream.node_id then
    .ok (state, .id (asU64 stream.node_id))
  else
    match placement_winner state requested with
    | none => .error (.noLiveNode s!"no live node with slots can take stream {stream_id}")
    | some winner =>
      .ok (state.put_stream { stream with node_id := winner }, .id (asU64 winner))

/-- A closed stream opens at a higher epoch. Its owner may repeat the open. -/
def open_stream (node_id : ℤ) (stream_id : ℕ) (epoch : ℤ) : Outcome := do
  let stream ← require_stream state stream_id
  if stream.epoch > epoch then
    .error (.streamFenced stream_id epoch
      s!"stream {stream_id} epoch {stream.epoch} fences request epoch {epoch}")
  else if stream.epoch = epoch then
    if stream.state = .opened ∧ stream.node_id = node_id then
      .ok (state, .stream stream.to_stream_metadata)
    else
      .error (.streamFenced stream_id epoch s!"stream {stream_id} epoch {epoch} already used")
  else if stream.state = .opened then .error (.streamNotClosed stream_id)
  else
    let opened := { stream with epoch, state := .opened, node_id }
    let state := state.put_stream opened
    let state := { state with
      epochs := state.epochs.insert (toLex (stream_id, epoch)) stream.end_offset }
    .ok (state, .stream opened.to_stream_metadata)

/-- Re-marking an id updates its operation but keeps its position in the queue. -/
def mark_destroyed (object_id : ℕ) (op : CompactOperations) : MetadataState :=
  match state.destroyed_by_id.get object_id with
  | some seq => state.put_destroyed seq object_id op
  | none =>
    let seq := state.next_destroyed_seq
    { state with next_destroyed_seq := seq + 1 }.put_destroyed seq object_id op

/-- Drops a stream object from the live indexes and queues it for destruction. -/
def destroy_stream_object (key : StreamOffsetKey) : MetadataState :=
  mark_destroyed (state.remove_stream_object key.object_id) key.object_id .delete

def expired_epoch (stream_id : ℕ) (epoch current : ℤ) : MetadataError :=
  .expiredEpoch stream_id epoch
    s!"stream {stream_id} epoch {epoch} is not equal to current epoch {current}"

/-- The recorded epochs that a trim to `new_start_offset` covers, all but the last of them. -/
def covered_epochs (stream_id new_start_offset : ℕ) : List ℤ :=
  (((state.stream_epochs stream_id).takeWhile fun e => e.2 ≤ new_start_offset).map
    Prod.fst).dropLast

/-- Raises the start offset, and destroys the stream objects below it. -/
def trim_stream (node_id : ℤ) (stream_id : ℕ) (epoch : ℤ) (new_start_offset : ℕ) : Outcome := do
  let stream ← require_stream state stream_id
  if stream.epoch ≠ epoch then .error (expired_epoch stream_id epoch stream.epoch)
  else
    check_owner state stream node_id
    if new_start_offset < stream.start_offset then
      .error (.unexpected <|
        s!"stream {stream_id} new start offset {new_start_offset} is less than current start " ++
          s!"offset {stream.start_offset}")
    else if new_start_offset > stream.end_offset then
      .error (.unexpected <|
        s!"stream {stream_id} new start offset {new_start_offset} is greater than current end " ++
          s!"offset {stream.end_offset}")
    else
      let state := state.put_stream { stream with start_offset := new_start_offset }
      let state := (covered_epochs state stream_id new_start_offset).foldl (fun state epoch =>
        { state with epochs := state.epochs.remove (toLex (stream_id, epoch)) }) state
      let dead := (state.stream_objects_of stream_id).filter fun e =>
        e.2.range.end_offset ≤ new_start_offset
      .ok ((dead.map Prod.fst).foldl destroy_stream_object state, .unit)

/-- Closed at the same epoch is idempotent success. -/
def close_stream (node_id : ℤ) (stream_id : ℕ) (epoch : ℤ) : Outcome := do
  let stream ← require_stream state stream_id
  if stream.state = .closed ∧ stream.epoch = epoch then .ok (state, .unit)
  else
    check_owner state stream node_id
    if stream.state ≠ .opened then .error (.unexpected s!"stream {stream_id} is not opened")
    else if stream.epoch ≠ epoch then .error (expired_epoch stream_id epoch stream.epoch)
    else .ok (state.put_stream { stream with state := .closed }, .unit)

/-- Record a pending ownership move. Re-requesting the same move is idempotent. -/
def transfer_stream (stream_id : ℕ) (from_node to_node : ℤ) : Outcome := do
  let stream ← require_stream state stream_id
  match state.pending_transfers.get stream_id with
  | some pending =>
    if pending.from_node = from_node ∧ pending.to_node = to_node then .ok (state, .unit)
    else
      .error (.unexpected <| s!"stream {stream_id} already transferring from " ++
        s!"{pending.from_node} to {pending.to_node}")
  | none =>
    if from_node = to_node then
      .error (.unexpected s!"stream {stream_id} transfer target equals source {from_node}")
    else if ¬node_takes_streams state to_node then
      .error (.nodeEpochMismatch to_node
        s!"transfer target {to_node} is not a live node with slots")
    else if stream.state ≠ .opened ∨ stream.node_id ≠ from_node then
      .error (.unexpected <| s!"stream {stream_id} is not opened on node {from_node}, " ++
        s!"state {stream.state.debug} node {stream.node_id}")
    else
      let pending : PendingTransfer := ⟨from_node, to_node⟩
      .ok ({ state with pending_transfers := state.pending_transfers.insert stream_id pending },
        .unit)

/-- Finish a pending move once the source closed the stream at `epoch`. -/
def complete_transfer (stream_id : ℕ) (epoch : ℤ) : Outcome :=
  match state.pending_transfers.get stream_id with
  | none => .error (.redundant s!"no pending transfer for stream {stream_id}")
  | some pending => do
    let stream ← require_stream state stream_id
    if stream.state ≠ .closed then .error (.streamNotClosed stream_id)
    else if stream.epoch ≠ epoch then .error (expired_epoch stream_id epoch stream.epoch)
    else
      let state := state.put_stream { stream with node_id := pending.to_node }
      .ok ({ state with pending_transfers := state.pending_transfers.remove stream_id }, .unit)

/-- Delete a closed stream. A missing stream is idempotent success. -/
def delete_stream (node_id : ℤ) (stream_id : ℕ) (epoch : ℤ) : Outcome :=
  match state.streams.get stream_id with
  | none => .ok (state, .unit)
  | some stream => do
    check_owner state stream node_id
    if stream.state ≠ .closed then .error (.streamNotClosed stream_id)
    else if stream.epoch ≠ epoch then .error (expired_epoch stream_id epoch stream.epoch)
    else
      let state := state.remove_stream stream_id
      let state := { state with pending_transfers := state.pending_transfers.remove stream_id }
      let state := (state.stream_epochs stream_id).foldl (fun state e =>
        { state with epochs := state.epochs.remove (toLex (stream_id, e.1)) }) state
      let keys := (state.stream_objects_of stream_id).map Prod.fst
      .ok (keys.foldl destroy_stream_object state, .unit)

/-- Bounds one log row. -/
def MAX_ALLOCATE_PRODUCER_IDS : ℕ := 4096

/-- Lease `count` consecutive producer ids, never reclaimed. -/
def allocate_producer_ids (count : ℕ) : Outcome :=
  if count = 0 then .error (.unexpected "producer id count must be positive")
  else if count > MAX_ALLOCATE_PRODUCER_IDS then
    .error (.unexpected s!"producer id count {count} exceeds {MAX_ALLOCATE_PRODUCER_IDS}")
  else
    let first := state.next_producer_id
    .ok ({ state with next_producer_id := state.next_producer_id + count }, .id first)

/-! ## Objects -/

/-- Leases consecutive object ids until a deadline. -/
def prepare_object (count : ℕ) (ttl_ms now_ms : ℤ) : Outcome :=
  if count = 0 then .error (.unexpected "prepare count must be positive")
  else
    let first := state.next_object_id
    let state := { state with next_object_id := state.next_object_id + count }
    let deadline := now_ms + max ttl_ms 0
    let state := (List.range' first count).foldl
      (fun state id => state.put_prepared id deadline) state
    .ok (state, .id first)

/-- An append must start at the end of the stream; a compaction must be within it. -/
def advance_end_offset (stream_id start_offset end_offset : ℕ)
    (compact : Bool) : Except MetadataError MetadataState := do
  let stream ← require_stream state stream_id
  if compact then
    if stream.end_offset < end_offset then
      .error (.unexpected <| s!"stream {stream_id} end offset {stream.end_offset} is lesser " ++
        s!"than request {end_offset}")
    else if stream.start_offset > start_offset then
      .error (.unexpected <| s!"stream {stream_id} start offset {stream.start_offset} is " ++
        s!"greater than request {start_offset}")
    else .ok state
  else if stream.end_offset ≠ start_offset then
    .error (.unexpected <| s!"stream {stream_id} end offset {stream.end_offset} is not equal " ++
      s!"to start offset of request {start_offset}")
  else .ok (state.put_stream { stream with end_offset })

def mark_destroy_objects (ids : List ℕ) (ops : List CompactOperations) :
    Except MetadataError MetadataState :=
  if ids.isEmpty then .ok state
  else if ops.isEmpty then .ok (ids.foldl (fun state id => mark_destroyed state id .delete) state)
  else if ops.length ≠ ids.length then
    .error (.unexpected <| s!"mark destroy ids size {ids.length} does not match operations " ++
      s!"size {ops.length}")
  else .ok ((ids.zip ops).foldl (fun state e => mark_destroyed state e.1 e.2) state)

/-- Whether `object_id` is a committed stream object of `stream_id`. -/
def stream_object_committed (stream_id object_id : ℕ) : Bool :=
  (state.stream_object_ids.get object_id).any fun key => key.stream_id = stream_id

/-- Reject a commit that would register `object_id` under two identities. -/
def check_object_id_free (object_id : ℕ)
    (new_key : Option StreamOffsetKey) : Except MetadataError Unit :=
  if state.stream_set_objects.contains_key object_id then
    .error (.unexpected s!"object {object_id} is already a committed stream-set object")
  else
    match state.stream_object_ids.get object_id with
    | some existing =>
      if new_key ≠ some existing then
        .error (.unexpected
          s!"object {object_id} is already committed as stream object {existing.debug}")
      else .ok ()
    | none => .ok ()

def StreamObject.key (object : StreamObject) : StreamOffsetKey :=
  ⟨object.stream_id, object.start_offset, object.object_id⟩

/-- The row under which a stream object is listed. -/
def stream_object_row (object : StreamObject) (data_time_ms now_ms last_write_ms : ℤ) :
    StreamObjectRow where
  object := {
    object_id := object.object_id
    object_type := .stream
    offset_ranges := [⟨object.stream_id, object.start_offset, object.end_offset⟩]
    object_size := object.object_size
    attributes := object.attributes
    committed_timestamp_ms := now_ms
    data_timestamp_ms := data_time_ms }
  last_write_ms := last_write_ms

def insert_stream_object (object : StreamObject)
    (data_time_ms now_ms last_write_ms : ℤ) : MetadataState :=
  state.put_stream_object (stream_object_row object data_time_ms now_ms last_write_ms)

def compacted_source (id : ℕ) : Except MetadataError StreamSetObjectRow :=
  match state.stream_set_objects.get id with
  | some row => .ok row
  | none => .error (.unexpected s!"compacted stream-set object {id} not found")

/-- Drops a compacted stream-set object and queues it for destruction. -/
def destroy_stream_set_object (id : ℕ) : MetadataState :=
  mark_destroyed (state.remove_stream_set_object id) id .delete

/-- The row under which a committed stream-set object is listed. -/
def stream_set_object_row (node_id : ℤ) (request : CommitStreamSetObjectRequest)
    (data_time_ms now_ms last_write_ms : ℤ) : StreamSetObjectRow where
  node_id := node_id
  object := {
    object_id := request.object_id
    object_type := .streamSet
    offset_ranges := request.stream_ranges.map fun r =>
      ⟨r.stream_id, r.start_offset, r.end_offset⟩
    object_size := request.object_size
    attributes := request.attributes
    committed_timestamp_ms := now_ms
    data_timestamp_ms := data_time_ms }
  range_sizes := request.stream_ranges.map (·.size)
  last_write_ms := last_write_ms

/-- The part of `commit_stream_set_object` that commits the stream-set object itself. -/
def commit_set_object (node_id : ℤ) (request : CommitStreamSetObjectRequest) (compact : Bool)
    (data_time_ms now_ms last_write_ms : ℤ) : Except MetadataError MetadataState := do
  check_object_id_free state request.object_id none
  let state := state.remove_prepared request.object_id
  let state ← request.stream_ranges.foldlM (fun state range =>
    advance_end_offset state range.stream_id range.start_offset range.end_offset compact) state
  .ok (state.put_stream_set_object
    (stream_set_object_row node_id request data_time_ms now_ms last_write_ms))

/-- The loop body of `commit_stream_set_object` over the split stream objects. -/
def commit_stream_object (compact : Bool) (data_time_ms now_ms last_write_ms : ℤ)
    (state : MetadataState) (object : StreamObject) : Except MetadataError MetadataState := do
  check_object_id_free state object.object_id (some object.key)
  let state := state.remove_prepared object.object_id
  let state ← advance_end_offset state object.stream_id object.start_offset object.end_offset
    compact
  .ok (insert_stream_object state object data_time_ms now_ms last_write_ms)

section Noop

variable (NOOP_OBJECT_ID : ℕ)

variable (state : MetadataState)

/-- A commit whose objects are listed already is redundant. -/
def redundant_commit_check (request : CommitStreamSetObjectRequest) : Except MetadataError Unit :=
  if request.object_id ≠ NOOP_OBJECT_ID then
    if state.stream_set_objects.contains_key request.object_id then
      .error (.redundant s!"object {request.object_id} already committed")
    else .ok ()
  else if request.stream_objects.isEmpty then .ok ()
  else if request.stream_objects.all fun so =>
      stream_object_committed state so.stream_id so.object_id then
    .error (.redundant "all stream objects in commit already committed")
  else .ok ()

/-- The sources are dropped first, then each output is listed. -/
def commit_stream_set_object (node_id : ℤ)
    (request : CommitStreamSetObjectRequest) (now_ms : ℤ) : Outcome := do
  redundant_commit_check NOOP_OBJECT_ID state request
  let compact := !request.compacted_object_ids.isEmpty
  let sources ← request.compacted_object_ids.mapM (compacted_source state)
  let data_time_ms := (sources.map fun owned => owned.object.data_timestamp_ms).foldl min now_ms
  let last_write_ms := ((sources.map (·.last_write_ms)).max?).getD now_ms
  let state := request.compacted_object_ids.foldl destroy_stream_set_object state
  let state ← (if request.object_id ≠ NOOP_OBJECT_ID then
      commit_set_object state node_id request compact data_time_ms now_ms last_write_ms
    else .ok state)
  let state ← request.stream_objects.foldlM
    (commit_stream_object compact data_time_ms now_ms last_write_ms) state
  .ok (state, .unit)

/-- The replacement object of a stream compaction. -/
def CompactStreamObjectRequest.output (request : CompactStreamObjectRequest) : StreamObject where
  object_id := request.object_id
  object_size := request.object_size
  stream_id := request.stream_id
  start_offset := request.start_offset
  end_offset := request.end_offset
  attributes := request.attributes

/-- Drops a source of a stream compaction, if it is an object of that stream. -/
def remove_compacted_source (stream_id : ℕ) (state : MetadataState) (source_id : ℕ) :
    MetadataState :=
  if stream_object_committed state stream_id source_id then state.remove_stream_object source_id
  else state

/-- The latest write among the listed sources of a stream compaction. -/
def compacted_last_write (source_object_ids : List ℕ) (now_ms : ℤ) : ℤ :=
  (((source_object_ids.filterMap state.stream_object_ids.get).filterMap
    state.stream_objects.get).map (·.last_write_ms)).max?.getD now_ms

/-- The output is listed, then the sources are dropped. -/
def compact_stream_object (request : CompactStreamObjectRequest) (now_ms : ℤ) : Outcome := do
  let stream_id := request.stream_id
  if request.object_id ≠ NOOP_OBJECT_ID ∧
      stream_object_committed state stream_id request.object_id then
    .error (.redundant
      s!"compact object {request.object_id} already committed for stream {stream_id}")
  else
    let stream ← require_stream state stream_id
    if stream.epoch ≠ asI64 request.stream_epoch then
      .error (.expiredEpoch stream_id (asI64 request.stream_epoch) <|
        s!"stream {stream_id} epoch {stream.epoch} is not equal to request " ++
          s!"{request.stream_epoch}")
    else if stream.end_offset < request.end_offset then
      .error (.unexpected <| s!"stream {stream_id} end offset {stream.end_offset} is lesser " ++
        s!"than request {request.end_offset}")
    else if stream.start_offset > request.start_offset then
      .error (.unexpected <| s!"stream {stream_id} start offset {stream.start_offset} is " ++
        s!"greater than request {request.start_offset}")
    else
      if request.object_id ≠ NOOP_OBJECT_ID then
        check_object_id_free state request.object_id (some request.output.key)
      let state := state.remove_prepared request.object_id
      let state := if request.object_id ≠ NOOP_OBJECT_ID then
          insert_stream_object state request.output now_ms now_ms
            (compacted_last_write state request.source_object_ids now_ms)
        else state
      let state := request.source_object_ids.foldl (remove_compacted_source stream_id) state
      let state ← mark_destroy_objects state request.source_object_ids request.operations
      .ok (state, .unit)

end Noop

/-- Drops the leases whose deadlines have passed. -/
def expire_prepared_objects (now_ms : ℤ) : Outcome :=
  let expired := state.prepared_by_deadline.scan fun key => (ofLex key).1 ≤ now_ms
  .ok (expired.foldl (fun state e => state.remove_prepared (ofLex e.1).2) state,
    .count expired.length)

def clean_destroyed_objects (object_ids : List ℕ) : Outcome :=
  .ok (object_ids.foldl remove_destroyed state, .unit)

/-! ## Keys and values -/

def put_kv (key : String) (value : Bytes) : Outcome :=
  .ok (state.put_kv key value, .value (some value))

def put_kv_if_absent (key : String) (value : Bytes) : Outcome :=
  match state.kv.get key with
  | some existing => .ok (state, .value (some existing))
  | none => .ok (state.put_kv key value, .value (some value))

def delete_kv (key : String) : Outcome :=
  let (state, old) := state.remove_kv key
  .ok (state, .value old)

def kv_mismatch (key : String) : MetadataError :=
  .redundant s!"kv key {key} missing or value mismatch"

def put_kv_if_matches (key : String) (expected value : Bytes) : Outcome :=
  if state.kv.get key = some expected then put_kv state key value
  else .error (kv_mismatch key)

def delete_kv_if_matches (key : String) (expected : Bytes) : Outcome :=
  if state.kv.get key = some expected then delete_kv state key
  else .error (kv_mismatch key)

/-! ## The transition function -/

section Apply

variable (NOOP_OBJECT_ID : ℕ)

variable (state : MetadataState)

/-- The part of `apply_inner` after the proposer check. -/
def dispatch : MetadataCommand → Outcome
  | .registerNode node_id node_epoch http_address slots protocol_addresses wal =>
    register_node state node_id node_epoch http_address slots protocol_addresses wal
  | .setNodeSlots _ node_id slots => set_node_slots state node_id slots
  | .heartbeat proposer => heartbeat state proposer.node_id
  | .fenceNode proposer node_id node_epoch heartbeats =>
    fence_node state proposer node_id node_epoch heartbeats
  | .placeStream _ stream_id node_id => place_stream state stream_id node_id
  | .createStream _ => create_stream state
  | .createStreams _ count => create_streams state count
  | .openStream proposer stream_id epoch => open_stream state proposer.node_id stream_id epoch
  | .trimStream proposer stream_id epoch new_start_offset =>
    trim_stream state proposer.node_id stream_id epoch new_start_offset
  | .closeStream proposer stream_id epoch => close_stream state proposer.node_id stream_id epoch
  | .deleteStream proposer stream_id epoch => delete_stream state proposer.node_id stream_id epoch
  | .prepareObject _ count ttl_ms now_ms => prepare_object state count ttl_ms now_ms
  | .commitStreamSetObject proposer request now_ms =>
    commit_stream_set_object NOOP_OBJECT_ID state proposer.node_id request now_ms
  | .compactStreamObject _ request now_ms =>
    compact_stream_object NOOP_OBJECT_ID state request now_ms
  | .expirePreparedObjects _ now_ms => expire_prepared_objects state now_ms
  | .cleanDestroyedObjects _ object_ids => clean_destroyed_objects state object_ids
  | .putKv _ key value => put_kv state key value
  | .putKvIfAbsent _ key value => put_kv_if_absent state key value
  | .deleteKv _ key => delete_kv state key
  | .deleteKvIfMatches _ key expected => delete_kv_if_matches state key expected
  | .putKvIfMatches _ key expected value => put_kv_if_matches state key expected value
  | .transferStream _ stream_id from_node to_node =>
    transfer_stream state stream_id from_node to_node
  | .completeTransfer _ stream_id epoch => complete_transfer state stream_id epoch
  | .allocateProducerIds _ count => allocate_producer_ids state count

/-- The command of a proposer that may not propose is refused. -/
def apply_inner (command : MetadataCommand) : Outcome :=
  match command.proposer with
  | some proposer => do
    check_proposer state proposer
    dispatch NOOP_OBJECT_ID state command
  | none => dispatch NOOP_OBJECT_ID state command

/-- Apply one command. On success the state advances, on an error it is untouched. -/
def apply (command : MetadataCommand) : MetadataState × Except MetadataError MetadataResult :=
  match apply_inner NOOP_OBJECT_ID state command with
  | .ok (next, result) => (next, .ok result)
  | .error error => (state, .error error)

end Apply

end PicoMq.Metadata
