import Mathlib.Data.List.Sort
import PicoMq.Metadata.Objects

/-!
# The spans of a stream

What the live objects hold of one stream, in offset order, with the time of the latest write.
-/

namespace PicoMq.Metadata

/-- The offsets of a stream that one live object has. -/
structure ObjectSpan where
  start_offset : ℕ
  end_offset : ℕ
  bytes : ℕ
  last_write_ms : ℤ
deriving DecidableEq, Repr

namespace ObjectSpan

def Holds (span : ObjectSpan) (offset : ℕ) : Prop :=
  span.start_offset ≤ offset ∧ offset < span.end_offset

/-- No offset is in both. -/
def Disjoint (a b : ObjectSpan) : Prop :=
  min a.end_offset b.end_offset ≤ max a.start_offset b.start_offset

instance (a b : ObjectSpan) : Decidable (a.Disjoint b) := inferInstanceAs (Decidable (_ ≤ _))

end ObjectSpan

variable (noop : ℕ) (s : MetadataState) (log : List MetadataCommand)

namespace MetadataState

/-- The spans of a stream in stream-set objects. -/
def slice_spans (stream_id : ℕ) : List ObjectSpan :=
  (s.sso_ranges.scan fun key => key.stream_id = stream_id).map fun e =>
    { start_offset := e.1.start_offset
      end_offset := e.2.1
      bytes := e.2.2
      last_write_ms := (s.stream_set_objects.get e.1.object_id).elim 0 (·.last_write_ms) }

def stream_object_span (row : StreamObjectRow) : ObjectSpan where
  start_offset := row.range.start_offset
  end_offset := row.range.end_offset
  bytes := row.object.object_size
  last_write_ms := row.last_write_ms

/-- All spans of a stream that live objects list, also those below its start. -/
def live_spans (stream_id : ℕ) : List ObjectSpan :=
  s.slice_spans stream_id ++ (s.stream_objects_of stream_id).map fun e => stream_object_span e.2

/-- The committed objects still holding data of `stream_id`, in offset order. -/
def object_spans (stream_id : ℕ) : List ObjectSpan :=
  match s.streams.get stream_id with
  | none => []
  | some stream =>
    ((s.live_spans stream_id).filter fun span => stream.start_offset < span.end_offset).insertionSort
      fun a b => a.start_offset ≤ b.start_offset

end MetadataState

/-! ## Compactions as the engine sends them -/

/-- No two live objects of a stream hold the same offset. -/
def RangesDisjoint : Prop :=
  ∀ sid ∈ s.streams.keys, (s.live_spans sid).Pairwise ObjectSpan.Disjoint

instance : Decidable (RangesDisjoint s) :=
  inferInstanceAs (Decidable (∀ _ ∈ _, _))

/-- The sources of a compacting commit are live, and its outputs hold only their offsets. -/
def CompactsSets (request : CommitStreamSetObjectRequest) : Prop :=
  (∀ id ∈ request.compacted_object_ids, s.stream_set_objects.contains_key id = true) ∧
    (request.compacted_object_ids ≠ [] → ∀ range ∈ request.ranges noop,
      ∀ offset < range.end_offset, range.start_offset ≤ offset →
        ∃ id ∈ request.compacted_object_ids, SetLists s id range.stream_id offset)

/-- The sources of a stream compaction are live objects of it, and its output holds only their
offsets. -/
def CompactsObjects (request : CompactStreamObjectRequest) : Prop :=
  (∀ id ∈ request.source_object_ids, stream_object_committed s request.stream_id id = true) ∧
    (request.object_id ≠ noop → ∀ offset < request.end_offset,
      request.start_offset ≤ offset →
        ∃ id ∈ request.source_object_ids, ObjectLists s id request.stream_id offset)

/-- What the engine guarantees about compactions. -/
def CompactsSources : MetadataCommand → Prop
  | .commitStreamSetObject _ request _ => CompactsSets noop s request
  | .compactStreamObject _ request _ => CompactsObjects noop s request
  | _ => True

/-- The ranges that the command lists hold an offset each. -/
def ListsOffsets : MetadataCommand → Prop
  | .commitStreamSetObject _ request _ =>
    ∀ range ∈ request.ranges noop, range.start_offset < range.end_offset
  | .compactStreamObject _ request _ =>
    request.object_id ≠ noop → request.start_offset < request.end_offset
  | _ => True

/-- Every accepted command of the log satisfies `Q` on the state it is applied to. -/
def EachAccepted (Q : MetadataState → MetadataCommand → Prop) : Prop :=
  Run.EachStep (step noop) {} log fun s c =>
    (∃ r, (apply noop s c).2 = .ok r) → Q s c

/-- The time of a commit is a 64-bit signed integer. -/
def MetadataCommand.TimeInRange : MetadataCommand → Prop
  | .commitStreamSetObject _ _ now_ms => -2 ^ 63 ≤ now_ms ∧ now_ms < 2 ^ 63
  | _ => True

/-! ## When an offset was committed -/

/-- Command `i` of the log appends the offset to the stream, at time `t`. -/
def AppendedAt (i sid offset : ℕ) (t : ℤ) : Prop :=
  ∃ p request, Accepted noop log i (.commitStreamSetObject p request t) ∧
    request.compacted_object_ids = [] ∧
    ∃ range ∈ request.ranges noop, range.Contains sid offset

/-- The first of the first `n` commands that appends the offset does so at time `t`. -/
def FirstCommitted (n sid offset : ℕ) (t : ℤ) : Prop :=
  ∃ i < n, AppendedAt noop log i sid offset t ∧
    ∀ j < i, ∀ t', ¬AppendedAt noop log j sid offset t'

end PicoMq.Metadata
