import PicoMq.Metadata.History

/-!
# What a commit asks for

A commit request names offset ranges of streams, as slices of its stream-set object and as stream
objects of their own.
-/

namespace PicoMq.Metadata

/-! ## The ranges of a request -/

def ObjectStreamRange.range (range : ObjectStreamRange) : StreamOffsetRange :=
  ⟨range.stream_id, range.start_offset, range.end_offset⟩

def StreamObject.range (object : StreamObject) : StreamOffsetRange :=
  ⟨object.stream_id, object.start_offset, object.end_offset⟩

/-- The slices of the stream-set object that a commit registers. -/
def CommitStreamSetObjectRequest.slices (noop : ℕ)
    (request : CommitStreamSetObjectRequest) : List ObjectStreamRange :=
  if request.object_id ≠ noop then request.stream_ranges else []

/-- The ranges in the order the commit checks them. -/
def CommitStreamSetObjectRequest.ranges (noop : ℕ)
    (request : CommitStreamSetObjectRequest) : List StreamOffsetRange :=
  (request.slices noop).map ObjectStreamRange.range ++
    request.stream_objects.map StreamObject.range

def last_end (ranges : List StreamOffsetRange) (sid : ℕ) : Option ℕ :=
  (ranges.reverse.find? fun range => range.stream_id = sid).map (·.end_offset)

def first_start (ranges : List StreamOffsetRange) (sid : ℕ) : Option ℕ :=
  (ranges.find? fun range => range.stream_id = sid).map (·.start_offset)

/-! ## Fitting the streams -/

def end_of (s : MetadataState) (sid : ℕ) : Option ℕ :=
  (s.streams.get sid).map (·.end_offset)

/-- The range lies within the offsets of its stream. -/
def Within (s : MetadataState) (range : StreamOffsetRange) : Prop :=
  ∃ row, s.streams.get range.stream_id = some row ∧ range.end_offset ≤ row.end_offset ∧
    row.start_offset ≤ range.start_offset

def appended (ends : ℕ → Option ℕ) (ranges : List StreamOffsetRange) : ℕ → Option ℕ :=
  ranges.foldl (fun ends range => Function.update ends range.stream_id (some range.end_offset)) ends

/-- Each range starts where its stream ends once the ranges before it are appended. -/
def Appends : (ℕ → Option ℕ) → List StreamOffsetRange → Prop
  | _, [] => True
  | ends, range :: ranges => ends range.stream_id = some range.start_offset ∧
      Appends (Function.update ends range.stream_id (some range.end_offset)) ranges

/-- Ranges of a compaction lie within their streams, others append to them. -/
def Fits (compact : Bool) (s : MetadataState) (ranges : List StreamOffsetRange) : Prop :=
  if compact then ∀ range ∈ ranges, Within s range else Appends (end_of s) ranges

def ends_after (compact : Bool) (s : MetadataState) (ranges : List StreamOffsetRange) :
    ℕ → Option ℕ :=
  if compact then end_of s else appended (end_of s) ranges

/-! ## Who may commit -/

/-- A stream that a plain commit of `p` advances is owned by the proposer or has no live owner, and
no range carries an epoch below that of its stream. -/
def CommitRule (s s' : MetadataState) (p : Proposer) (request : CommitStreamSetObjectRequest) :
    Prop :=
  (request.compacted_object_ids = [] → ∀ sid row row', s.streams.get sid = some row →
    s'.streams.get sid = some row' → row.end_offset < row'.end_offset →
    row.node_id = p.node_id ∨ node_live s row.node_id = false) ∧
  ∀ range ∈ request.stream_ranges, ∀ row, s.streams.get range.stream_id = some row →
    row.epoch ≤ range.epoch

/-- Before command `i` an open of the stream by the node at this epoch was accepted, and no close at
this epoch since. -/
def HoldsStream (noop : ℕ) (log : List MetadataCommand) (i : ℕ) (node_id : ℤ) (sid : ℕ)
    (epoch : ℤ) : Prop :=
  ∃ j < i, ∃ p, p.node_id = node_id ∧ Accepted noop log j (.openStream p sid epoch) ∧
    ∀ k q, j < k → k < i → ¬ Accepted noop log k (.closeStream q sid epoch)

/-- A plain commit as command `i` names streams that its proposer holds, and the ranges of any
commit are of streams that are held at the epochs they carry, or at lower ones. The commit path of
the source checks neither. -/
def CommitsHeld (noop : ℕ) (log : List MetadataCommand) (i : ℕ) (p : Proposer)
    (request : CommitStreamSetObjectRequest) : Prop :=
  (request.compacted_object_ids = [] → ∀ range ∈ request.ranges noop,
    ∃ epoch, HoldsStream noop log i p.node_id range.stream_id epoch) ∧
  ∀ range ∈ request.stream_ranges, ∃ node_id, ∃ epoch ≤ (range.epoch : ℤ),
    HoldsStream noop log i node_id range.stream_id epoch

end PicoMq.Metadata
