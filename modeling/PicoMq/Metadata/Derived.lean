import PicoMq.Metadata.State

/-!
# The derived fields

Every secondary index and counter of the state, recomputed from the primary tables, which are all
that a snapshot stores.
-/

namespace PicoMq.Metadata

/-- The bytes that a list of slices holds of one stream. -/
def slice_bytes (slices : List (StreamOffsetRange × ℕ)) (sid : ℕ) : ℕ :=
  (slices.map fun slice => if slice.1.stream_id = sid then slice.2 else 0).sum

/-- The key under which a slice of an object is listed. -/
def slice_key (object_id : ℕ) (slice : StreamOffsetRange × ℕ) : StreamOffsetKey :=
  ⟨slice.1.stream_id, slice.1.start_offset, object_id⟩

/-- The key under which a stream object is listed. -/
def StreamObjectRow.key (row : StreamObjectRow) : StreamOffsetKey :=
  ⟨row.range.stream_id, row.range.start_offset, row.object.object_id⟩

/-! ## Indexes -/

def derived_opening (streams : OrdMap ℕ StreamRow) : OrdMap (ℤ ×ₗ ℕ) Unit :=
  .ofList <| (streams.entries.filter fun e => e.2.state = .opened).map fun e =>
    (toLex (e.2.node_id, e.1), ())

def derived_placed (streams : OrdMap ℕ StreamRow) : OrdMap (ℤ ×ₗ ℕ) Unit :=
  .ofList <| (streams.entries.filter fun e => e.2.state = .closed ∧ e.2.node_id ≠ -1).map fun e =>
    (toLex (e.2.node_id, e.1), ())

/-- `streams_by_node`, from the streams: a node without streams has no entry. -/
def derived_counts (streams : OrdMap ℕ StreamRow) : OrdMap ℤ ℕ :=
  .tally <| ((streams.entries.filter fun e => e.2.state = .opened) ++
    (streams.entries.filter fun e => e.2.state = .closed ∧ e.2.node_id ≠ -1)).map fun e =>
      e.2.node_id

def derived_deadlines (prepared : OrdMap ℕ ℤ) : OrdMap (ℤ ×ₗ ℕ) Unit :=
  .ofList <| prepared.entries.map fun e => (toLex (e.2, e.1), ())

/-- `sso_ranges`, by inserting the ranges of each stream-set object in order. -/
def derived_ranges (objects : OrdMap ℕ StreamSetObjectRow) : OrdMap StreamOffsetKey (ℕ × ℕ) :=
  .ofList <| objects.entries.flatMap fun e => e.2.slices.map fun slice =>
    (slice_key e.1 slice, (slice.1.end_offset, slice.2))

def derived_sso_by_node (objects : OrdMap ℕ StreamSetObjectRow) : OrdMap (ℤ ×ₗ ℕ) Unit :=
  .ofList <| objects.entries.map fun e => (toLex (e.2.node_id, e.1), ())

/-- `stream_object_ids`, from the stream objects. -/
def derived_object_ids (objects : OrdMap StreamOffsetKey StreamObjectRow) :
    OrdMap ℕ StreamOffsetKey :=
  .ofList <| objects.entries.map fun e => (e.1.object_id, e.1)

/-! ## Byte counts -/

/-- The bytes of a stream: its slices of stream-set objects and its stream objects. -/
def ObjectTables.stream_bytes (t : ObjectTables) (sid : ℕ) : ℕ :=
  t.stream_set_objects.sumBy (fun _ row => slice_bytes row.slices sid) +
    t.stream_objects.sumBy fun key row => if key.stream_id = sid then row.object.object_size else 0

def ObjectTables.total_bytes (t : ObjectTables) : ℕ :=
  t.stream_set_objects.sumBy (fun _ row => row.object.object_size) +
    t.stream_objects.sumBy fun _ row => row.object.object_size

/-- Every derived field is its recomputation, and no subtraction that led here was cut off. -/
structure MetadataState.Derived (s : MetadataState) : Prop where
  opening_by_node : s.opening_by_node = derived_opening s.streams
  placed_by_node : s.placed_by_node = derived_placed s.streams
  streams_by_node : s.streams_by_node = derived_counts s.streams
  prepared_by_deadline : s.prepared_by_deadline = derived_deadlines s.prepared
  sso_ranges : s.sso_ranges = derived_ranges s.stream_set_objects
  sso_by_node : s.sso_by_node = derived_sso_by_node s.stream_set_objects
  stream_object_ids : s.stream_object_ids = derived_object_ids s.stream_objects
  /-- No two stream objects share an id, so the id index has one entry per object. -/
  object_ids_distinct : ∀ key row key' row', s.stream_objects.get key = some row →
    s.stream_objects.get key' = some row' → key.object_id = key'.object_id → key = key'
  destroyed_by_id : ∀ id seq, s.destroyed_by_id.get id = some seq ↔
    ∃ op, s.mark_destroyed.get seq = some (id, op)
  kv_bytes : s.kv_bytes = s.kv.sumBy MetadataState.kv_len
  stream_bytes : ∀ sid row, s.streams.get sid = some row →
    row.stored_bytes = s.toObjectTables.stream_bytes sid
  stored_bytes : s.stored_bytes = s.toObjectTables.total_bytes
  exact_arithmetic : s.underflowed = false

end PicoMq.Metadata
