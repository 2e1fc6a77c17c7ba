import PicoMq.Metadata.Proofs.ObjectProofs

/-!
# Proofs: live and marked objects

Commands that drop an object mark it in the same step, except for commits that list a marked id and
compactions that name sources they do not drop.
-/

namespace PicoMq.Metadata

open MetadataState OrdMap

variable {s s' : MetadataState} {r : MetadataResult} {n now_ms : ℤ} {noop : ℕ}

/-! ## The two kinds of objects -/

/-- No id is a stream-set object and a stream object at once. -/
def KindsDisjoint (s : MetadataState) : Prop :=
  ∀ key row, s.stream_objects.get key = some row →
    s.stream_set_objects.get key.object_id = none

section

variable (hs : s.Wf)
include hs

section

variable (h : KindsDisjoint s)
include h

theorem commit_kindsDisjoint
    {request : CommitStreamSetObjectRequest}
    (hok : commit_stream_set_object noop s n request now_ms = .ok (s', r)) :
    KindsDisjoint s' := by
  obtain ⟨data_time_ms, last_write_ms, hobjects⟩ := commit_objects hs hok
  have hcan := (commit_ok_iff hs).1 ⟨s', r, hok⟩
  intro key row hrow
  rw [hobjects.sets]
  rcases hobjects.listed_cases hrow with ⟨o, ho, rfl, -⟩ | hold
  · rw [if_neg fun hout => hcan.distinct hout.1 o ho hout.2]
    split_ifs with hmem
    · rfl
    · exact (hcan.objects o ho).1.resolve_right hmem
  · rw [if_neg ?_]
    · split_ifs
      · rfl
      · exact h key row hold
    · rintro ⟨hne, hid⟩
      have hlisted := (hs.objects.ids request.object_id key).2 ⟨hid, row, hold⟩
      rw [hcan.output hne] at hlisted
      cases hlisted

theorem compact_kindsDisjoint
    {request : CompactStreamObjectRequest}
    (hok : compact_stream_object noop s request now_ms = .ok (s', r)) :
    KindsDisjoint s' := by
  obtain ⟨last_write_ms, hobjects⟩ := compact_objects hs hok
  have hcan := compact_ok_iff.1 ⟨s', r, hok⟩
  intro key row hrow
  rw [hobjects.sets]
  rw [hobjects.objects] at hrow
  split_ifs at hrow with hsource hout
  · obtain ⟨hne, rfl⟩ := hout
    exact contains_key_eq_false.1 (Bool.not_eq_true _ ▸ (not_or.1 (hcan.output hne)).1)
  · exact h key row hrow

theorem ObjectStep.kindsDisjoint {c : MetadataCommand}
    (hstep : ObjectStep noop s s' c) : KindsDisjoint s' := by
  cases hstep with
  | same _ hobjects => unfold KindsDisjoint; rw [hobjects]; exact h
  | destroyed _ keys hsets _ hobjects =>
    intro key row hrow
    rw [hobjects] at hrow
    split_ifs at hrow
    rw [hsets]
    exact h key row hrow
  | committed _ _ _ hok => exact commit_kindsDisjoint hs h hok
  | compacted _ _ _ hok => exact compact_kindsDisjoint hs h hok

theorem step_kindsDisjoint (c : MetadataCommand) :
    KindsDisjoint (step noop s c) := by
  rcases step_effect s c with hsame | ⟨-, -, heffect⟩
  · rw [hsame]; exact h
  · exact (heffect.objectStep hs).kindsDisjoint hs h

end

/-! ## Live objects that are marked -/

/-- A commit marks its sources, which it drops, so only the ids that it lists matter. -/
theorem commit_liveUnmarked_iff (hkinds : KindsDisjoint s) (h : LiveUnmarked s)
    {request : CommitStreamSetObjectRequest}
    (hok : commit_stream_set_object noop s n request now_ms = .ok (s', r)) :
    LiveUnmarked s' ↔
      ¬((request.object_id ≠ noop ∧ Marked s request.object_id) ∨
        ∃ object ∈ request.stream_objects,
          Marked s object.object_id ∨ object.object_id ∈ request.compacted_object_ids) := by
  obtain ⟨data_time_ms, last_write_ms, hobjects⟩ := commit_objects hs hok
  have hcan := (commit_ok_iff hs).1 ⟨s', r, hok⟩
  have hs' := commit_stream_set_object_wf hs hok
  constructor
  · rintro h' (⟨hne, hmarked⟩ | ⟨o, ho, hmarked⟩)
    · have hset := hobjects.sets request.object_id
      rw [if_pos ⟨hne, rfl⟩] at hset
      exact h' _ ((live_iff hs').2 (.inl ⟨_, hset⟩)) ((hobjects.marked _).2 (.inr hmarked))
    · obtain ⟨row, hrow⟩ := hobjects.listed ho
      exact h' _ ((live_iff hs').2 (.inr ⟨_, row, hrow, rfl⟩)) ((hobjects.marked _).2 hmarked.symm)
  · intro hlists id hlive hmarked
    rw [hobjects.marked] at hmarked
    rcases (live_iff hs').1 hlive with ⟨row, hrow⟩ | ⟨key, row, hrow, rfl⟩
    · rw [hobjects.sets] at hrow
      split_ifs at hrow with hout hmem
      · obtain ⟨hne, rfl⟩ := hout
        rcases hmarked with hmem | hmarked
        · obtain ⟨row, hrow⟩ := contains_key_iff.1 (hcan.sources _ hmem)
          rw [hcan.output_free hne] at hrow
          cases hrow
        · exact hlists (.inl ⟨hne, hmarked⟩)
      · exact h id ((live_iff hs).2 (.inl ⟨row, hrow⟩)) (hmarked.resolve_left hmem)
    · rcases hobjects.listed_cases hrow with ⟨o, ho, rfl, -⟩ | hold
      · exact hlists (.inr ⟨o, ho, hmarked.symm⟩)
      · rcases hmarked with hmem | hmarked
        · obtain ⟨set_row, hset⟩ := contains_key_iff.1 (hcan.sources _ hmem)
          rw [hkinds key row hold] at hset
          cases hset
        · exact h _ ((live_iff hs).2 (.inr ⟨key, row, hold, rfl⟩)) hmarked

/-- A stream compaction marks all its sources and drops those that are objects of its stream. -/
theorem compact_liveUnmarked_iff (h : LiveUnmarked s)
    {request : CompactStreamObjectRequest}
    (hok : compact_stream_object noop s request now_ms = .ok (s', r)) :
    LiveUnmarked s' ↔
      ¬((request.object_id ≠ noop ∧ request.object_id ∉ request.source_object_ids ∧
        Marked s request.object_id) ∨
        ∃ id ∈ request.source_object_ids, s.stream_set_objects.contains_key id = true ∨
          ∃ key, s.stream_object_ids.get id = some key ∧ key.stream_id ≠ request.stream_id) := by
  obtain ⟨last_write_ms, hobjects⟩ := compact_objects hs hok
  have hcan := compact_ok_iff.1 ⟨s', r, hok⟩
  have hs' := compact_stream_object_wf hs hok
  constructor
  · rintro h' (⟨hne, hnot, hmarked⟩ | ⟨id, hid, hset | ⟨key, hkey, hstream⟩⟩)
    · have hrow := hobjects.objects request.output.key
      rw [if_neg fun h => hnot h.2, if_pos ⟨hne, rfl⟩] at hrow
      exact h' _ ((live_iff hs').2 (.inr ⟨request.output.key, _, hrow, rfl⟩))
        ((hobjects.marked request.object_id).2 (.inr hmarked))
    · rw [contains_key_iff] at hset
      rw [← hobjects.sets] at hset
      exact h' id ((live_iff hs').2 (.inl hset)) ((hobjects.marked id).2 (.inl hid))
    · obtain ⟨rfl, row, hrow⟩ := (hs.objects.ids id key).1 hkey
      refine h' _ ((live_iff hs').2 (.inr ⟨key, row, ?_, rfl⟩)) ((hobjects.marked _).2 (.inl hid))
      rw [hobjects.objects, if_neg fun h => hstream h.1, if_neg ?_, hrow]
      rintro ⟨-, rfl⟩
      exact hstream rfl
  · intro hmarks id hlive hmarked
    rw [hobjects.marked] at hmarked
    rcases (live_iff hs').1 hlive with ⟨row, hrow⟩ | ⟨key, row, hrow, rfl⟩
    · rw [hobjects.sets] at hrow
      rcases hmarked with hmem | hmarked
      · exact hmarks (.inr ⟨id, hmem, .inl (contains_key_iff.2 ⟨row, hrow⟩)⟩)
      · exact h id ((live_iff hs).2 (.inl ⟨row, hrow⟩)) hmarked
    · rw [hobjects.objects] at hrow
      split_ifs at hrow with hsource hout
      · obtain ⟨hne, rfl⟩ := hout
        have hnot : request.object_id ∉ request.source_object_ids := fun hmem =>
          hsource ⟨rfl, hmem⟩
        exact hmarks (.inl ⟨hne, hnot, hmarked.resolve_left hnot⟩)
      · rcases hmarked with hmem | hmarked
        · refine hmarks (.inr ⟨_, hmem, .inr ⟨key, ?_, fun hstream => hsource ⟨hstream, hmem⟩⟩⟩)
          exact (hs.objects.ids _ key).2 ⟨rfl, row, hrow⟩
        · exact h _ ((live_iff hs).2 (.inr ⟨key, row, hrow, rfl⟩)) hmarked

theorem ObjectStep.liveUnmarked {c : MetadataCommand} (hs' : s'.Wf)
    (hkinds : KindsDisjoint s) (h : LiveUnmarked s) (hstep : ObjectStep noop s s' c)
    (hc : ¬c.IsObjectCommand) : LiveUnmarked s' := by
  intro id hlive hmarked
  cases hstep with
  | same _ hobjects hmarks =>
    refine h id ?_ (hmarks id hmarked)
    unfold Live at hlive ⊢
    rwa [hobjects] at hlive
  | destroyed _ keys hsets _ hobjects hmarks hlisted =>
    rw [live_iff hs', hsets] at hlive
    rw [hmarks] at hmarked
    rcases hmarked with ⟨key, hkey, rfl⟩ | hmarked
    · obtain ⟨row, hrow, -⟩ := hlisted key hkey
      rcases hlive with ⟨set_row, hset⟩ | ⟨key', row', hrow', hid⟩
      · rw [hkinds key row hrow] at hset
        cases hset
      · rw [hobjects, if_pos ⟨key, hkey, hid⟩] at hrow'
        cases hrow'
    · refine h id ((live_iff hs).2 (hlive.imp_right ?_)) hmarked
      rintro ⟨key, row, hrow, hid⟩
      rw [hobjects] at hrow
      split_ifs at hrow
      exact ⟨key, row, hrow, hid⟩
  | committed => exact hc trivial
  | compacted => exact hc trivial

theorem liveUnmarked_step_iff (hkinds : KindsDisjoint s) (h : LiveUnmarked s)
    (c : MetadataCommand) :
    LiveUnmarked (step noop s c) ↔ ¬MarksLive noop s c := by
  by_cases hacc : ∃ r, (apply noop s c).2 = .ok r
  · obtain ⟨r, hr⟩ := hacc
    obtain ⟨hact, hd⟩ := apply_ok hr
    have hother : ¬c.IsObjectCommand → LiveUnmarked (step noop s c) := fun hc =>
      ((dispatch_effect hd).objectStep hs).liveUnmarked hs (step_wf hs c) hkinds h hc
    cases c with
    | commitStreamSetObject p request now_ms =>
      have hp : check_proposer s p = .ok () := check_proposer_eq_ok_iff.2 (hact p rfl)
      have hcan := (commit_ok_iff hs).1 ⟨_, r, hd⟩
      exact (commit_liveUnmarked_iff hs hkinds h hd).trans
        (not_congr ⟨fun hm => ⟨hp, hcan, hm⟩, fun hm => hm.2.2⟩)
    | compactStreamObject p request now_ms =>
      have hp : check_proposer s p = .ok () := check_proposer_eq_ok_iff.2 (hact p rfl)
      have hcan := compact_ok_iff.1 ⟨_, r, hd⟩
      exact (compact_liveUnmarked_iff hs h hd).trans
        (not_congr ⟨fun hm => ⟨hp, hcan, hm⟩, fun hm => hm.2.2⟩)
    | _ => exact iff_of_true (hother id) id
  · rw [step_of_refused hacc]
    refine iff_of_true h fun hm => hacc ?_
    cases c with
    | commitStreamSetObject p request now_ms =>
      exact (accepted_iff rfl).2 ⟨check_proposer_eq_ok_iff.1 hm.1, (commit_ok_iff hs).2 hm.2.1⟩
    | compactStreamObject p request now_ms =>
      exact (accepted_iff rfl).2 ⟨check_proposer_eq_ok_iff.1 hm.1, compact_ok_iff.2 hm.2.1⟩
    | _ => exact hm.elim

end

/-- No live object is ever marked exactly when no accepted command marks one or lists a marked one.
-/
theorem live_unmarked_iff (noop : ℕ) (log : List MetadataCommand) :
    Run.Always (step noop) {} log LiveUnmarked ↔
      Run.EachStep (step noop) {} log fun s c => ¬MarksLive noop s c :=
  Run.always_iff_eachStep (I := fun s => s.Wf ∧ KindsDisjoint s)
    ⟨Wf.empty, fun _ _ h => by simp at h⟩
    (fun _ c h => ⟨step_wf h.1 c, step_kindsDisjoint h.1 h.2 c⟩)
    (fun _ h => by simp [Live, OrdMap.contains_key] at h)
    fun _ c hs h => liveUnmarked_step_iff hs.1 hs.2 h c

/-- A stream-set object is committed, and a stream compaction names it as its source. -/
def misplaced_source : List MetadataCommand :=
  [.registerNode 1 0 "a" 1 .empty "wal", .createStream ⟨1, 0⟩, .openStream ⟨1, 0⟩ 0 1,
    .commitStreamSetObject ⟨1, 0⟩ ⟨0, 8, 0, [⟨0, 1, 0, 8, 8⟩], [], []⟩ 1,
    .compactStreamObject ⟨1, 0⟩ ⟨1000, 0, 0, 1, 0, 0, [0], [], 0⟩ 1]

/-- The object is still listed, and the cleaner is told to delete it. -/
theorem misplaced_source_marks_live :
    ((history 1000 misplaced_source 5).stream_set_objects.contains_key 0 = true ∧
      (history 1000 misplaced_source 5).mark_destroyed.get 0 = some (0, .delete)) ∧
    ¬Run.Always (step 1000) {} misplaced_source LiveUnmarked := by
  have hstate : (history 1000 misplaced_source 5).stream_set_objects.contains_key 0 = true ∧
      (history 1000 misplaced_source 5).mark_destroyed.get 0 = some (0, .delete) := by decide
  exact ⟨hstate, fun h => h 5 0 (.inl hstate.1) ⟨0, .delete, hstate.2⟩⟩

end PicoMq.Metadata
