import PicoMq.Metadata.State

/-!
# The objects of a window of offsets

The query merges two scans, each bounded by the end of the window and by a limit on the result.
-/

namespace PicoMq.Metadata

/-- The test of both scans. A range without offsets passes it strictly inside the window. -/
def overlaps (start_offset end_offset range_start range_end : ℕ) : Bool :=
  start_offset < range_end && range_start < end_offset

namespace MetadataState

variable (s : MetadataState)

/-- The entries of `sso_ranges` that the first scan goes through. -/
def scan_slices (stream_id start_offset end_offset : ℕ) : List (StreamOffsetKey × (ℕ × ℕ)) :=
  ((s.sso_ranges.scan fun key => key.stream_id = stream_id).takeWhile fun e =>
    e.1.start_offset < end_offset).filter fun e =>
      overlaps start_offset end_offset e.1.start_offset e.2.1

/-- The entries of `stream_objects` that the second scan goes through. -/
def scan_objects (stream_id start_offset end_offset : ℕ) :
    List (StreamOffsetKey × StreamObjectRow) :=
  ((s.stream_objects_of stream_id).takeWhile fun e => e.1.start_offset < end_offset).filter fun e =>
    overlaps start_offset end_offset e.2.range.start_offset e.2.range.end_offset

/-- The loop, with as many rounds left as the result may still grow by. The first scan gives the
start and the object of each slice; the source panics if that object is not listed. -/
def merge_scans (s : MetadataState) : ℕ → List (ℕ × ℕ) → List (StreamOffsetKey × StreamObjectRow) →
    Option (List S3ObjectMetadata)
  | 0, _, _ => some []
  | _ + 1, [], [] => some []
  | limit + 1, [], (_, row) :: stream_objs => do
    let result ← s.merge_scans limit [] stream_objs
    return row.object :: result
  | limit + 1, (_, object_id) :: sso, [] => do
    let row ← s.stream_set_objects.get object_id
    let result ← s.merge_scans limit sso []
    return row.object :: result
  | limit + 1, (sso_start, object_id) :: sso, (key, row) :: stream_objs =>
    if key.start_offset < sso_start then do
      let result ← s.merge_scans limit ((sso_start, object_id) :: sso) stream_objs
      return row.object :: result
    else do
      let row' ← s.stream_set_objects.get object_id
      let result ← s.merge_scans limit sso ((key, row) :: stream_objs)
      return row'.object :: result

/-- All objects of `stream_id` overlapping the window, sorted by range start and capped at `limit`.
-/
def get_objects (stream_id start_offset end_offset limit : ℕ) : Option (List S3ObjectMetadata) :=
  s.merge_scans limit
    ((s.scan_slices stream_id start_offset end_offset).map fun e =>
      (e.1.start_offset, e.1.object_id))
    (s.scan_objects stream_id start_offset end_offset)

end MetadataState

/-! ## What it is for -/

/-- The offsets that a live object has of a stream. -/
structure LiveRange where
  start_offset : ℕ
  end_offset : ℕ
  object_type : S3ObjectType
  object : S3ObjectMetadata
deriving DecidableEq

namespace LiveRange

/-- By start, stream-set objects first on equal starts, then by object id. -/
def order (r : LiveRange) : ℕ ×ₗ ℕ ×ₗ ℕ :=
  toLex (r.start_offset,
    toLex (match r.object_type with | .streamSet => 0 | .stream => 1, r.object.object_id))

def Holds (r : LiveRange) (offset : ℕ) : Prop := r.start_offset ≤ offset ∧ offset < r.end_offset

/-- The object is listed with this range; of several that begin at one offset the last one counts.
-/
def IsLive (s : MetadataState) (stream_id : ℕ) (r : LiveRange) : Prop :=
  match r.object_type with
  | .streamSet => ∃ row, s.stream_set_objects.get r.object.object_id = some row ∧
      row.object = r.object ∧
      (r.object.offset_ranges.reverse.find? fun range =>
        range.stream_id = stream_id ∧ range.start_offset = r.start_offset) =
        some ⟨stream_id, r.start_offset, r.end_offset⟩
  | .stream => ∃ row, s.stream_objects.get ⟨stream_id, r.start_offset, r.object.object_id⟩ =
      some row ∧ row.object = r.object ∧ row.range.end_offset = r.end_offset

end LiveRange

/-- All live ranges of a stream that overlap the window, in order. -/
structure WindowRanges (s : MetadataState) (stream_id start_offset end_offset : ℕ)
    (ranges : List LiveRange) : Prop where
  sorted : ranges.Pairwise fun a b => a.order < b.order
  all : ∀ r, r ∈ ranges ↔ r.IsLive s stream_id ∧
    overlaps start_offset end_offset r.start_offset r.end_offset = true

/-- Of the offsets from `start_offset` on, the ranges hold those below `reach` and no others. -/
def CoverUpTo (ranges : List LiveRange) (start_offset reach : ℕ) : Prop :=
  ∀ offset, start_offset ≤ offset → ((∃ r ∈ ranges, r.Holds offset) ↔ offset < reach)

end PicoMq.Metadata
