import PicoMq.Metadata.Request

/-!
# Objects as readers and the cleaner see them

Which commands make readers and the cleaner collide, which repeated commands bring objects back, and
what the storage engine promises about its requests.
-/

namespace PicoMq.Metadata

/-! ## Live and marked objects -/

variable (noop : ℕ) (s : MetadataState)

/-- A reader can be sent to the object. -/
def Live (id : ℕ) : Prop :=
  s.stream_set_objects.contains_key id = true ∨ s.stream_object_ids.contains_key id = true

instance (id : ℕ) : Decidable (Live s id) :=
  inferInstanceAs (Decidable (_ ∨ _))

/-- The object waits for the cleaner. -/
def Marked (id : ℕ) : Prop :=
  ∃ seq op, s.mark_destroyed.get seq = some (id, op)

/-- The cleaner deletes nothing that a reader can be sent to. -/
def LiveUnmarked : Prop :=
  ∀ id, Live s id → ¬Marked s id

/-! ## Accepted requests

The conditions of the two object commands, as a whole, on the state before them. -/

/-- What a commit asks of the state, its proposer apart. -/
structure Committable (request : CommitStreamSetObjectRequest) : Prop where
  not_redundant : redundant_commit_check noop s request = .ok ()
  sources : ∀ id ∈ request.compacted_object_ids, s.stream_set_objects.contains_key id = true
  output : request.object_id ≠ noop → s.stream_object_ids.get request.object_id = none
  objects : ∀ object ∈ request.stream_objects,
    (s.stream_set_objects.get object.object_id = none ∨
      object.object_id ∈ request.compacted_object_ids) ∧
    ∀ key, s.stream_object_ids.get object.object_id = some key → key = object.key
  distinct : request.object_id ≠ noop → ∀ object ∈ request.stream_objects,
    object.object_id ≠ request.object_id
  keys : request.stream_objects.Pairwise fun a b => a.object_id = b.object_id → a.key = b.key
  fits : Fits (!request.compacted_object_ids.isEmpty) s (request.ranges noop)

/-- What a stream compaction asks of the state, its proposer apart. -/
structure Compactable (request : CompactStreamObjectRequest) : Prop where
  output : request.object_id ≠ noop → ¬Live s request.object_id
  stream : ∃ row, s.streams.get request.stream_id = some row ∧
    row.epoch = asI64 request.stream_epoch ∧ request.end_offset ≤ row.end_offset ∧
    row.start_offset ≤ request.start_offset
  operations : request.source_object_ids = [] ∨ request.operations = [] ∨
    request.operations.length = request.source_object_ids.length

/-- The checks pass. An output of the commit is marked already, or a stream object of it is among
the sources; the output of the stream compaction is marked already, or a source of it is a
stream-set object or belongs to another stream. -/
def MarksLive : MetadataCommand → Prop
  | .commitStreamSetObject p request _ =>
    check_proposer s p = .ok () ∧ Committable noop s request ∧
    ((request.object_id ≠ noop ∧ Marked s request.object_id) ∨
      ∃ object ∈ request.stream_objects,
        Marked s object.object_id ∨ object.object_id ∈ request.compacted_object_ids)
  | .compactStreamObject p request _ =>
    check_proposer s p = .ok () ∧ Compactable noop s request ∧
    ((request.object_id ≠ noop ∧ request.object_id ∉ request.source_object_ids ∧
      Marked s request.object_id) ∨
      ∃ id ∈ request.source_object_ids, s.stream_set_objects.contains_key id = true ∨
        ∃ key, s.stream_object_ids.get id = some key ∧ key.stream_id ≠ request.stream_id)
  | _ => False

/-! ## Repeated commands -/

/-- The objects and the end offsets are the same. -/
def SameObjects (s s' : MetadataState) : Prop :=
  s'.stream_set_objects = s.stream_set_objects ∧ s'.stream_objects = s.stream_objects ∧
    ∀ sid, end_of s' sid = end_of s sid

/-- Nothing in `s` tells a repeated commit from a new one. -/
structure Recommits (p : Proposer) (request : CommitStreamSetObjectRequest) : Prop where
  acts : check_proposer s p = .ok ()
  nonempty : request.object_id ≠ noop ∨ request.stream_objects ≠ [] ∨
    request.compacted_object_ids ≠ []
  not_redundant : redundant_commit_check noop s request = .ok ()
  output : request.object_id ≠ noop → s.stream_object_ids.get request.object_id = none
  objects : ∀ object ∈ request.stream_objects,
    (s.stream_set_objects.get object.object_id = none ∨
      object.object_id ∈ request.compacted_object_ids) ∧
    ∀ key, s.stream_object_ids.get object.object_id = some key → key = object.key
  sources : ∀ id ∈ request.compacted_object_ids, s.stream_set_objects.contains_key id = true
  plain : request.compacted_object_ids = [] → ∀ sid start,
    first_start (request.ranges noop) sid = some start → end_of s sid = some start
  compacting : request.compacted_object_ids ≠ [] →
    ∀ range ∈ request.ranges noop, Within s range

/-- Nothing in `s` tells a repeated stream compaction from a new one. -/
structure Recompacts (p : Proposer) (request : CompactStreamObjectRequest) : Prop where
  acts : check_proposer s p = .ok ()
  output : request.object_id ≠ noop → ¬Live s request.object_id
  stream : ∃ row, s.streams.get request.stream_id = some row ∧
    row.epoch = asI64 request.stream_epoch ∧ request.end_offset ≤ row.end_offset ∧
    row.start_offset ≤ request.start_offset
  changes : (request.object_id ≠ noop ∧ request.object_id ∉ request.source_object_ids) ∨
    ∃ id ∈ request.source_object_ids, stream_object_committed s request.stream_id id = true

/-- A commit that meets `Recommits`, or a stream compaction that meets `Recompacts`. -/
def Resurrects : MetadataCommand → Prop
  | .commitStreamSetObject p request _ => Recommits noop s p request
  | .compactStreamObject p request _ => Recompacts noop s p request
  | _ => False

def MetadataCommand.IsObjectCommand : MetadataCommand → Prop
  | .commitStreamSetObject .. => True
  | .compactStreamObject .. => True
  | _ => False

/-! ## Coverage -/

def StreamOffsetRange.Contains (range : StreamOffsetRange) (sid offset : ℕ) : Prop :=
  range.stream_id = sid ∧ range.start_offset ≤ offset ∧ offset < range.end_offset

/-- `sso_ranges` lists a range of the object that holds the offset of the stream. -/
def SetLists (id sid offset : ℕ) : Prop :=
  ∃ start slice, s.sso_ranges.get ⟨sid, start, id⟩ = some slice ∧ start ≤ offset ∧
    offset < slice.1

/-- `stream_objects` lists the object with a range that holds the offset of the stream. -/
def ObjectLists (id sid offset : ℕ) : Prop :=
  ∃ start row, s.stream_objects.get ⟨sid, start, id⟩ = some row ∧ start ≤ offset ∧
    offset < row.range.end_offset

/-- Some live object holds the offset. -/
def Covered (sid offset : ℕ) : Prop :=
  ∃ id, SetLists s id sid offset ∨ ObjectLists s id sid offset

/-- Offsets of every stream are in order, and a reader finds each of them in a live object. -/
def Readable : Prop :=
  ∀ sid row, s.streams.get sid = some row → row.start_offset ≤ row.end_offset ∧
    ∀ offset, row.start_offset ≤ offset → offset < row.end_offset → Covered s sid offset

/-- No stream of both states has its start or its end taken back. -/
def Grows (s s' : MetadataState) : Prop :=
  ∀ sid row row', s.streams.get sid = some row → s'.streams.get sid = some row' →
    row.start_offset ≤ row'.start_offset ∧ row.end_offset ≤ row'.end_offset

/-- The ranges of a commit, each with the object that holds it. -/
def CommitStreamSetObjectRequest.pieces
    (request : CommitStreamSetObjectRequest) : List (ℕ × StreamOffsetRange) :=
  ((request.slices noop).map fun slice => (request.object_id, slice.range)) ++
    request.stream_objects.map fun object => (object.object_id, object.range)

/-- Ranges of one object and one stream have no offset in common. -/
def PiecesDisjoint (a b : ℕ × StreamOffsetRange) : Prop :=
  a.1 = b.1 → a.2.stream_id = b.2.stream_id →
    a.2.end_offset ≤ b.2.start_offset ∨ b.2.end_offset ≤ a.2.start_offset

structure CommitGuarantee (request : CommitStreamSetObjectRequest) : Prop where
  nonempty : ∀ range ∈ request.ranges noop, range.start_offset < range.end_offset
  disjoint : (request.pieces noop).Pairwise PiecesDisjoint
  fresh : ∀ object ∈ request.stream_objects, ¬Live s object.object_id
  covers : ∀ id ∈ request.compacted_object_ids, ∀ sid row offset, s.streams.get sid = some row →
    row.start_offset ≤ offset → SetLists s id sid offset →
      ∃ range ∈ request.ranges noop, range.Contains sid offset

/-- The output covers what the sources list at or above the start of the stream. -/
def CompactGuarantee (request : CompactStreamObjectRequest) : Prop :=
  ∀ id ∈ request.source_object_ids, ∀ row offset, s.streams.get request.stream_id = some row →
    row.start_offset ≤ offset → ObjectLists s id request.stream_id offset →
      request.object_id ≠ noop ∧
        request.output.range.Contains request.stream_id offset

/-- The guarantees of the engine for one command. -/
def Guaranteed : MetadataCommand → Prop
  | .commitStreamSetObject _ request _ => CommitGuarantee noop s request
  | .compactStreamObject _ request _ => CompactGuarantee noop s request
  | _ => True

/-- The command is a stream compaction that has its own output among its sources. -/
def ConsumesOutput : MetadataCommand → Prop
  | .compactStreamObject _ request _ =>
    request.object_id ≠ noop ∧ request.object_id ∈ request.source_object_ids
  | _ => False

/-- The commands that a run accepts keep the guarantees of the engine. -/
def EngineRun (log : List MetadataCommand) : Prop :=
  Run.EachStep (step noop) {} log fun s c =>
    (∃ r, (apply noop s c).2 = .ok r) → Guaranteed noop s c

end PicoMq.Metadata
