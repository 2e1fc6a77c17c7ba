import PicoMq.Metadata.Spans

/-!
# The recorded epochs of a stream

Every open records the epoch and the offset at which it begins; a trim forgets the epochs that no
offset left is written under.
-/

namespace PicoMq.Metadata

/-- The greatest recorded epoch whose first offset is at most `offset`. -/
def epoch_lookup (epochs : List (ℤ × ℕ)) (offset : ℕ) : Option ℤ :=
  ((epochs.filter fun e => e.2 ≤ offset).map Prod.fst).max?

/-- Later epochs begin at later offsets, or at the same one, and none begins beyond the end. -/
structure EpochsOrdered (s : MetadataState) (sid : ℕ) : Prop where
  epochs : (s.stream_epochs sid).Pairwise fun a b => a.1 < b.1
  firsts : (s.stream_epochs sid).Pairwise fun a b => a.2 ≤ b.2
  below_end : ∀ e ∈ s.stream_epochs sid, ∃ row, s.streams.get sid = some row ∧
    e.2 ≤ row.end_offset

/-- Some lookup at or after the offset returns the epoch. -/
def Returned (epochs : List (ℤ × ℕ)) (offset : ℕ) (epoch : ℤ) : Prop :=
  ∃ offset', offset ≤ offset' ∧ epoch_lookup epochs offset' = some epoch

/-- A trim to `start` keeps the lookups from there on and drops the entries that they do not return.
-/
structure TrimsEpochs (before after : List (ℤ × ℕ)) (start : ℕ) : Prop where
  lookups : ∀ offset, start ≤ offset → epoch_lookup after offset = epoch_lookup before offset
  kept : ∀ e, e ∈ after ↔ e ∈ before ∧ (start < e.2 ∨ Returned before start e.1)

/-- The ranges of a commit that is no compaction do not end before they start. -/
def CommitsForward (noop : ℕ) : MetadataCommand → Prop
  | .commitStreamSetObject _ request _ =>
    request.compacted_object_ids = [] →
      ∀ range ∈ request.ranges noop, range.start_offset ≤ range.end_offset
  | _ => True

end PicoMq.Metadata
