import PicoMq.Groups.Coordinator

/-!
# The length of a group log

Every so many appends the table is written as a whole and the log trimmed to that record; a trim
goes no further than what has been uploaded, and reports success all the same.
-/

namespace PicoMq.Groups

/-- A group log with the state of the group that is loaded from it. -/
structure OffsetLog where
  /-- All records that were appended, from offset 0 on. -/
  records : List OffsetRecord := []
  start_offset : ℕ := 0
  group : Group := Group.loaded 0 OrdMap.empty 0 0

namespace OffsetLog

variable (s : OffsetLog)

def live : List OffsetRecord := s.records.drop s.start_offset

/-- The trim of an open stream; `committed_end` is its committed end in the node's view. -/
def trim (new_start_offset committed_end : ℕ) : OffsetLog :=
  let lower := s.start_offset
  let clamped := min (max new_start_offset lower) (min s.records.length committed_end)
  if lower < clamped then { s with start_offset := clamped } else s

/-- The rest of an operation whose record is appended. -/
def recorded (record : OffsetRecord) (deleted : List ℕ) (committed_end : ℕ) : OffsetLog :=
  let s : OffsetLog := { s with records := s.records ++ [record], group := s.group.record_applied record }
  if s.group.appends_since_snapshot < OFFSET_SNAPSHOT_INTERVAL then s
  else
    let group := s.group.snapshot deleted true
    let s : OffsetLog := { s with records := s.records ++ [.snapshot group.offsets], group }
    s.trim (s.records.length - 1) committed_end

/-- Operations whose appends and trims succeed, and what comes between them. -/
inductive Step where
  /-- `deleted` are the topics that are gone; `committed_end` is what has been uploaded. -/
  | commit_offsets (now : ℕ) (fence : Option MemberFence) (commits : List OffsetCommit)
    (deleted : List ℕ) (committed_end : ℕ)
  | delete_offsets (now : ℕ) (partitions : List Partition) (deleted : List ℕ) (committed_end : ℕ)
  /-- Joins, leaves and rebalances, which leave the table and the count alone. -/
  | members (group : Group)
  /-- The group is loaded, by this node or by the next owner of its log. -/
  | load (epoch : ℤ) (now : ℕ)

def step : Step → OffsetLog
  | .commit_offsets now fence commits deleted committed_end =>
    match s.group.begin_commit now fence commits with
    | (group, .ok (some record)) =>
      ({ s with group } : OffsetLog).recorded record deleted committed_end
    | (group, _) => { s with group }
  | .delete_offsets now partitions deleted committed_end =>
    match s.group.begin_delete_offsets now partitions with
    | (group, some record) =>
      ({ s with group } : OffsetLog).recorded record deleted committed_end
    | (group, none) => { s with group }
  | .members group =>
    { s with
      group := { group with
        offsets := s.group.offsets
        appends_since_snapshot := s.group.appends_since_snapshot } }
  | .load epoch now => { s with group := Group.loaded epoch (replay s.live) s.live.length now }

def is_snapshot : OffsetRecord → Bool
  | .snapshot _ => true
  | .delta _ => false
  | .delete _ => false

/-- At most one snapshot and 64 deltas are live. -/
def Bounded : Prop :=
  s.live.countP is_snapshot ≤ 1 ∧ s.live.countP (fun record => !is_snapshot record) ≤ 64

instance : Decidable s.Bounded := inferInstanceAs (Decidable (_ ∧ _))

/-- Where a snapshot is due after the next record, all present records are uploaded before the trim.
-/
def UploadedBefore : Step → Prop
  | .commit_offsets _ _ _ _ committed_end =>
    OFFSET_SNAPSHOT_INTERVAL ≤ s.group.appends_since_snapshot + 1 → s.records.length ≤ committed_end
  | .delete_offsets _ _ _ committed_end =>
    OFFSET_SNAPSHOT_INTERVAL ≤ s.group.appends_since_snapshot + 1 → s.records.length ≤ committed_end
  | .members _ => True
  | .load _ _ => True

instance : DecidablePred s.UploadedBefore
  | .commit_offsets _ _ _ _ _ => inferInstanceAs (Decidable (_ → _))
  | .delete_offsets _ _ _ _ => inferInstanceAs (Decidable (_ → _))
  | .members _ | .load _ _ => .isTrue trivial

end OffsetLog

end PicoMq.Groups
