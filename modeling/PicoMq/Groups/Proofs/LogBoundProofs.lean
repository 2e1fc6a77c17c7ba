import PicoMq.Groups.LogBound
import PicoMq.Groups.Proofs.TableProofs
import PicoMq.Library.Proofs.FoldProofs
import PicoMq.Library.Proofs.RunProofs

/-!
# Proofs: the length of a group log

The count since the last snapshot is at most one behind the live deltas: a trim leaves the snapshot
and at most the delta before it.
-/

namespace PicoMq.Groups.OffsetLog

open List Prod

variable {s : OffsetLog} {record : OffsetRecord}

/-- The live records of the log, against the count. -/
structure Tallied (s : OffsetLog) : Prop where
  start_le : s.start_offset ≤ s.records.length
  bounded : s.Bounded
  deltas_le : s.live.countP (fun record => !is_snapshot record) ≤
    s.group.appends_since_snapshot + 1

theorem tallied_empty : Tallied {} := ⟨le_rfl, by decide, by decide⟩

theorem Tallied.of_group (h : Tallied s) {group : Group}
    (hcount : s.group.appends_since_snapshot ≤ group.appends_since_snapshot) :
    Tallied { s with group } where
  start_le := h.start_le
  bounded := h.bounded
  deltas_le := le_trans h.deltas_le (Nat.succ_le_succ hcount)

theorem Tallied.append (h : Tallied s) (hrecord : is_snapshot record = false)
    (hroom : s.group.appends_since_snapshot + 1 < OFFSET_SNAPSHOT_INTERVAL) :
    Tallied { s with
      records := s.records ++ [record], group := s.group.record_applied record } := by
  obtain ⟨hstart, ⟨hsnapshots, hdeltas⟩, hle⟩ := h
  have hlive : (s.records ++ [record]).drop s.start_offset = s.live ++ [record] := by
    rw [drop_append_of_le_length hstart]
    rfl
  have hcount : ∀ p : OffsetRecord → Bool, ((s.records ++ [record]).drop s.start_offset).countP p =
      s.live.countP p + if p record then 1 else 0 := by
    intro p
    rw [hlive, countP_append, countP_singleton]
  unfold OFFSET_SNAPSHOT_INTERVAL at hroom
  refine ⟨?_, ⟨?_, ?_⟩, ?_⟩
  · exact le_trans hstart (by simp)
  · show ((s.records ++ [record]).drop s.start_offset).countP is_snapshot ≤ 1
    rw [hcount, hrecord]
    exact hsnapshots
  · show ((s.records ++ [record]).drop s.start_offset).countP _ ≤ 64
    rw [hcount, hrecord]
    simp only [Bool.not_false, if_true]
    omega
  · show ((s.records ++ [record]).drop s.start_offset).countP _ ≤ s.group.appends_since_snapshot + 1 + 1
    rw [hcount, hrecord]
    simp only [Bool.not_false, if_true]
    omega

theorem trim_eq (s : OffsetLog) (new_start_offset committed_end : ℕ) :
    s.trim new_start_offset committed_end = { s with
      start_offset :=
        max s.start_offset (min new_start_offset (min s.records.length committed_end)) } := by
  unfold trim
  dsimp only
  split
  · congr 1
    omega
  · have hsame : max s.start_offset (min new_start_offset (min s.records.length committed_end)) =
        s.start_offset := by omega
    rw [hsame]

/-- A trim to the last record, which is a snapshot, leaves at most the record before it. -/
theorem Tallied.snapshot (hstart : s.start_offset ≤ s.records.length)
    (hrecord : is_snapshot record = false) {committed_end : ℕ}
    (huploaded : s.records.length ≤ committed_end) (offsets : OffsetTable) (group : Group) :
    Tallied (({ s with
      records := s.records ++ [record] ++ [OffsetRecord.snapshot offsets], group } : OffsetLog).trim
        ((s.records ++ [record] ++ [OffsetRecord.snapshot offsets]).length - 1) committed_end) := by
  have hlen : (s.records ++ [record] ++ [OffsetRecord.snapshot offsets]).length =
      s.records.length + 2 := by simp
  rw [trim_eq]
  dsimp only
  rw [hlen]
  generalize hkept : max s.start_offset (min (s.records.length + 2 - 1)
    (min (s.records.length + 2) committed_end)) = kept
  have hlive : (s.records ++ [record] ++ [OffsetRecord.snapshot offsets]).drop kept <:+
      [record, OffsetRecord.snapshot offsets] := by
    have hle : s.records.length ≤ kept := by omega
    rw [append_assoc, drop_append, drop_eq_nil_of_le hle, nil_append]
    exact drop_suffix _ _
  have hcount : ∀ p : OffsetRecord → Bool,
      ((s.records ++ [record] ++ [OffsetRecord.snapshot offsets]).drop kept).countP p ≤
        (if p record then 1 else 0) + if p (.snapshot offsets) then 1 else 0 := by
    intro p
    refine le_trans (hlive.sublist.countP_le) (le_of_eq ?_)
    rw [countP_cons, countP_singleton, Nat.add_comm]
  have hdeltas := hcount fun record => !is_snapshot record
  simp only [hrecord] at hdeltas
  refine ⟨?_, ⟨?_, ?_⟩, ?_⟩
  · show kept ≤ (s.records ++ [record] ++ [OffsetRecord.snapshot offsets]).length
    omega
  · have hsnapshots := hcount is_snapshot
    rw [hrecord] at hsnapshots
    exact hsnapshots
  · exact le_trans hdeltas (show 1 ≤ 64 by decide)
  · exact le_trans hdeltas (Nat.succ_le_succ (Nat.zero_le _))

theorem Tallied.recorded (h : Tallied s) (hrecord : is_snapshot record = false)
    {deleted : List ℕ} {committed_end : ℕ}
    (huploaded : OFFSET_SNAPSHOT_INTERVAL ≤ s.group.appends_since_snapshot + 1 →
      s.records.length ≤ committed_end) :
    Tallied (s.recorded record deleted committed_end) := by
  unfold OffsetLog.recorded
  dsimp only
  by_cases hroom : (s.group.record_applied record).appends_since_snapshot < OFFSET_SNAPSHOT_INTERVAL
  · rw [if_pos hroom]
    exact h.append hrecord hroom
  · rw [if_neg hroom]
    exact Tallied.snapshot h.start_le hrecord (huploaded (not_lt.1 hroom)) _ _

theorem begin_commit_delta {g : Group} {now : ℕ} {fence : Option MemberFence}
    {commits : List OffsetCommit}
    (h : (g.begin_commit now fence commits).2 = .ok (some record)) :
    record = .delta commits := by
  unfold Group.begin_commit at h
  obtain ⟨-, -, h⟩ := Except.bind_eq_ok_iff.1 h
  split at h
  · cases h
  · dsimp only at h
    split at h
    · cases h
    · cases h
      rfl

theorem is_snapshot_of_begin_delete_offsets {g : Group} {now : ℕ} {partitions : List Partition}
    (h : (g.begin_delete_offsets now partitions).2 = some record) :
    is_snapshot record = false := by
  unfold Group.begin_delete_offsets at h
  dsimp only at h
  split at h
  · cases h
  · cases h
    rfl

theorem Tallied.step (h : Tallied s) {a : Step} (huploaded : s.UploadedBefore a) :
    Tallied (s.step a) := by
  cases a with
  | commit_offsets now fence commits deleted committed_end =>
    have hcount := (s.group.sameTable_refresh now).appends
    have hgroup : Tallied { s with group := s.group.refresh now } := h.of_group hcount.ge
    have huploaded : OFFSET_SNAPSHOT_INTERVAL ≤ (s.group.refresh now).appends_since_snapshot + 1 →
        s.records.length ≤ committed_end := by
      rw [hcount]
      exact huploaded
    dsimp only [OffsetLog.step]
    split
    · rename_i group record hbegin
      obtain rfl := begin_commit_delta (congrArg snd hbegin)
      cases congrArg fst hbegin
      exact hgroup.recorded rfl huploaded
    · rename_i group _ _ hbegin
      cases congrArg fst hbegin
      exact hgroup
  | delete_offsets now partitions deleted committed_end =>
    have hgroup : Tallied { s with group := s.group.touch now } := h.of_group le_rfl
    dsimp only [OffsetLog.step]
    split
    · rename_i group record hbegin
      have hrecord := is_snapshot_of_begin_delete_offsets (congrArg snd hbegin)
      cases congrArg fst hbegin
      exact hgroup.recorded hrecord huploaded
    · rename_i group hbegin
      cases congrArg fst hbegin
      exact hgroup
  | members group => exact h.of_group le_rfl
  | load epoch now =>
    refine ⟨h.start_le, h.bounded, ?_⟩
    exact le_trans countP_le_length (Nat.le_succ _)

/-- If the records before a snapshot have been uploaded, a load replays at most one snapshot and 64
deltas. -/
theorem live_bounded (steps : List Step) (h : Run.EachStep step {} steps UploadedBefore) :
    Run.Always step {} steps Bounded := by
  intro i
  have htallied := Run.always_of_eachStep tallied_empty (fun s a hs ha => hs.step ha) h i
  exact htallied.bounded

/-- A commit from outside the group, of one partition. -/
def commit_one (committed_end : ℕ) : Step :=
  .commit_offsets 0 none [⟨.new 1 0, 5, none, none⟩] [] committed_end

theorem live_bounded_uploaded :
    Run.EachStep step {} (List.replicate 65 (commit_one 64)) UploadedBefore ∧
      Run.Always step {} (List.replicate 65 (commit_one 64)) Bounded := by
  have huploaded : Run.EachStep step {} (List.replicate 65 (commit_one 64)) UploadedBefore := by
    decide +kernel
  exact ⟨huploaded, live_bounded _ huploaded⟩

/-- Nothing has been uploaded when the 64th commit makes a snapshot: the trim keeps all records. -/
theorem live_of_nothing_uploaded :
    ((Run.run step {} (List.replicate 65 (commit_one 0))).live.map is_snapshot =
      List.replicate 64 false ++ [true, false]) ∧
    ¬ Run.Always step {} (List.replicate 65 (commit_one 0)) Bounded := by
  refine ⟨by decide +kernel, ?_⟩
  intro h
  have hbounded := h 65
  revert hbounded
  decide +kernel

end PicoMq.Groups.OffsetLog
