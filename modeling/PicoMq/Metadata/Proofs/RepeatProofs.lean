import PicoMq.Metadata.Proofs.ObjectProofs

/-!
# Proofs: repeated object commands

A repeated command is harmless exactly as long as something in the live tables still tells it from a
new one.
-/

namespace PicoMq.Metadata

open MetadataState

variable {s s' t : MetadataState} {r : MetadataResult} {n now_ms : ℤ} {noop : ℕ}
variable {p : Proposer}

theorem SameObjects.refl (s : MetadataState) : SameObjects s s :=
  ⟨rfl, rfl, fun _ => rfl⟩

/-! ## Commits -/

section Commit

variable {request : CommitStreamSetObjectRequest}

theorem recommits_iff (hfirst : Committable noop s request) :
    Recommits noop t p request ↔
      (Acts t p ∧ Committable noop t request) ∧
        (request.object_id ≠ noop ∨ request.stream_objects ≠ [] ∨
          request.compacted_object_ids ≠ []) := by
  have hfits : Fits (!request.compacted_object_ids.isEmpty) t (request.ranges noop) ↔
      (request.compacted_object_ids = [] → ∀ sid start,
        first_start (request.ranges noop) sid = some start →
          end_of t sid = some start) ∧
      (request.compacted_object_ids ≠ [] →
        ∀ range ∈ request.ranges noop, Within t range) := by
    have hchain := hfirst.fits
    unfold Fits at hchain ⊢
    by_cases hplain : request.compacted_object_ids = []
    · rw [hplain] at hchain ⊢
      rw [if_neg (by simp)] at hchain ⊢
      simp [appends_iff_first_start hchain]
    · simp [hplain]
  constructor
  · rintro ⟨hact, hne, hred, hout, hobjects, hsources, hplain, hcompact⟩
    exact ⟨⟨check_proposer_eq_ok_iff.1 hact, hred, hsources, hout, hobjects, hfirst.distinct,
      hfirst.keys, hfits.2 ⟨hplain, hcompact⟩⟩, hne⟩
  · rintro ⟨⟨hact, hcan⟩, hne⟩
    exact ⟨check_proposer_eq_ok_iff.2 hact, hne, hcan.not_redundant, hcan.output, hcan.objects,
      hcan.sources, (hfits.1 hcan.fits).1, (hfits.1 hcan.fits).2⟩

theorem commit_changes (hs : s.Wf)
    (hok : commit_stream_set_object noop s n request now_ms = .ok (s', r))
    (hne : request.object_id ≠ noop ∨ request.stream_objects ≠ [] ∨
      request.compacted_object_ids ≠ []) : ¬SameObjects s s' := by
  obtain ⟨data_time_ms, last_write_ms, hobjects⟩ := commit_objects hs hok
  have hcan := (commit_ok_iff hs).1 ⟨s', r, hok⟩
  rintro ⟨hsets, hsame, -⟩
  by_cases hnoop : request.object_id = noop
  · cases hsources : request.compacted_object_ids with
    | cons id ids =>
      have hid : id ∈ request.compacted_object_ids := hsources ▸ List.mem_cons_self ..
      obtain ⟨row, hrow⟩ := OrdMap.contains_key_iff.1 (hcan.sources id hid)
      have hgone := hobjects.sets id
      rw [hsets, hrow, if_neg fun h => h.1 hnoop, if_pos hid] at hgone
      cases hgone
    | nil =>
      have hnonempty : request.stream_objects ≠ [] := by simpa [hnoop, hsources] using hne
      obtain ⟨o, ho, hnew⟩ := ((redundant_commit_check_eq_ok_iff.1 hcan.not_redundant).2
        hnoop).resolve_left hnonempty
      obtain ⟨row, hrow⟩ := hobjects.listed ho
      rw [hsame] at hrow
      have hid := (hs.objects.ids o.object_id o.key).2 ⟨rfl, row, hrow⟩
      simp [stream_object_committed, hid, StreamObject.key] at hnew
  · have hlisted := hobjects.sets request.object_id
    rw [hsets, hcan.output_free hnoop, if_pos ⟨hnoop, rfl⟩] at hlisted
    cases hlisted

theorem commit_nothing (hs : s.Wf)
    (hok : commit_stream_set_object noop s n request now_ms = .ok (s', r))
    (hnoop : request.object_id = noop) (hobjects : request.stream_objects = [])
    (hsources : request.compacted_object_ids = []) : SameObjects s s' := by
  obtain ⟨data_time_ms, last_write_ms, heffect⟩ := commit_objects hs hok
  refine ⟨?_, ?_, fun sid => ?_⟩
  · ext1 id
    simp [heffect.sets, hnoop, hsources]
  · ext1 key
    simp [heffect.objects, hobjects]
  · rw [end_of_plain_commit hs hok hsources]
    simp [CommitStreamSetObjectRequest.ranges, CommitStreamSetObjectRequest.slices, hnoop, hobjects,
      last_end]

/-- Applying a commit again changes the objects exactly where nothing tells it from a new one. -/
theorem repeated_commit_iff (ht : t.Wf) (hfirst : Committable noop s request) :
    SameObjects t (step noop t (.commitStreamSetObject p request now_ms)) ↔
      ¬Recommits noop t p request := by
  have hacc : (∃ r, (apply noop t (.commitStreamSetObject p request now_ms)).2 = .ok r) ↔
      Acts t p ∧ Committable noop t request :=
    (accepted_iff rfl).trans (and_congr_right fun _ => commit_ok_iff ht)
  rw [recommits_iff hfirst, ← hacc]
  by_cases haccepted :
      ∃ r, (apply noop t (.commitStreamSetObject p request now_ms)).2 = .ok r
  · rw [and_iff_right haccepted]
    obtain ⟨r, hr⟩ := haccepted
    have hok := (apply_ok hr).2
    constructor
    · exact fun hsame hne => commit_changes ht hok hne hsame
    · intro hne
      simp only [not_or, not_not] at hne
      exact commit_nothing ht hok hne.1 hne.2.1 hne.2.2
  · rw [step_of_refused haccepted]
    exact iff_of_true (.refl t) fun h => haccepted h.1

end Commit

/-! ## Stream compactions -/

section Compact

variable {request : CompactStreamObjectRequest}

theorem recompacts_iff (hfirst : Compactable noop s request) :
    Recompacts noop t p request ↔
      (Acts t p ∧ Compactable noop t request) ∧
        ((request.object_id ≠ noop ∧
          request.object_id ∉ request.source_object_ids) ∨
        ∃ id ∈ request.source_object_ids,
          stream_object_committed t request.stream_id id = true) := by
  constructor
  · rintro ⟨hact, hout, hstream, hchanges⟩
    exact ⟨⟨check_proposer_eq_ok_iff.1 hact, hout, hstream, hfirst.operations⟩, hchanges⟩
  · rintro ⟨⟨hact, hcan⟩, hchanges⟩
    exact ⟨check_proposer_eq_ok_iff.2 hact, hcan.output, hcan.stream, hchanges⟩

theorem stream_object_committed_iff (hs : s.Wf) {sid id : ℕ} :
    stream_object_committed s sid id = true ↔
      ∃ key row, s.stream_objects.get key = some row ∧ key.stream_id = sid ∧
        key.object_id = id := by
  simp only [stream_object_committed, Option.any_eq_true, decide_eq_true_eq, hs.objects.ids]
  constructor
  · rintro ⟨key, ⟨hid, row, hrow⟩, hsid⟩; exact ⟨key, row, hrow, hsid, hid⟩
  · rintro ⟨key, row, hrow, hsid, hid⟩; exact ⟨key, ⟨hid, row, hrow⟩, hsid⟩

/-- A compaction keeps the objects exactly if its output does not stay listed and no source was. -/
theorem compact_same_iff (hs : s.Wf)
    (hok : compact_stream_object noop s request now_ms = .ok (s', r)) :
    SameObjects s s' ↔
      ¬((request.object_id ≠ noop ∧
          request.object_id ∉ request.source_object_ids) ∨
        ∃ id ∈ request.source_object_ids,
          stream_object_committed s request.stream_id id = true) := by
  obtain ⟨last_write_ms, hobjects⟩ := compact_objects hs hok
  have hcan := compact_ok_iff.1 ⟨s', r, hok⟩
  simp only [stream_object_committed_iff hs]
  constructor
  · rintro ⟨-, hsame, -⟩ (⟨hne, hnot⟩ | ⟨id, hid, key, row, hrow, hsid, rfl⟩)
    · have hlisted := hobjects.objects request.output.key
      rw [hsame, if_neg fun h => hnot h.2, if_pos ⟨hne, rfl⟩] at hlisted
      exact hcan.output hne ((live_iff hs).2 (.inr ⟨_, _, hlisted, rfl⟩))
    · have hgone := hobjects.objects key
      rw [hsame, hrow, if_pos ⟨hsid, hid⟩] at hgone
      cases hgone
  · intro hkept
    refine ⟨hobjects.sets, ?_, fun sid => by rw [hobjects.ends]⟩
    ext1 key
    rw [hobjects.objects]
    split_ifs with hsource hout
    · cases hrow : s.stream_objects.get key with
      | none => rfl
      | some row =>
        exact absurd (.inr ⟨_, hsource.2, key, row, hrow, hsource.1, rfl⟩) hkept
    · obtain ⟨hne, rfl⟩ := hout
      exact absurd (.inl ⟨hne, fun hmem => hsource ⟨rfl, hmem⟩⟩) hkept
    · rfl

theorem repeated_compaction_iff (ht : t.Wf) (hfirst : Compactable noop s request) :
    SameObjects t (step noop t (.compactStreamObject p request now_ms)) ↔
      ¬Recompacts noop t p request := by
  have hacc : (∃ r, (apply noop t (.compactStreamObject p request now_ms)).2 = .ok r) ↔
      Acts t p ∧ Compactable noop t request :=
    (accepted_iff rfl).trans (and_congr_right fun _ => compact_ok_iff)
  rw [recompacts_iff hfirst, ← hacc]
  by_cases haccepted :
      ∃ r, (apply noop t (.compactStreamObject p request now_ms)).2 = .ok r
  · rw [and_iff_right haccepted]
    obtain ⟨r, hr⟩ := haccepted
    exact compact_same_iff ht (apply_ok hr).2
  · rw [step_of_refused haccepted]
    exact iff_of_true (.refl t) fun h => haccepted h.1

end Compact

/-! ## Runs -/

/-- An accepted object command, applied once more at any point, leaves the objects and the end
offsets alone exactly if it does not look like a new one there. -/
theorem repeated_object_commands_iff (noop : ℕ) (log : List MetadataCommand) (i j : ℕ)
    (c : MetadataCommand) (hc : c.IsObjectCommand) (hacc : Accepted noop log i c) :
    SameObjects (history noop log j)
        (step noop (history noop log j) c) ↔
      ¬Resurrects noop (history noop log j) c := by
  have hs : ∀ k, (history noop log k).Wf := history_wf log
  obtain ⟨-, r, hd⟩ := hacc.dispatch
  cases c with
  | commitStreamSetObject p request now_ms =>
    exact repeated_commit_iff (hs j) ((commit_ok_iff (hs i)).1 ⟨_, r, hd⟩)
  | compactStreamObject p request now_ms =>
    exact repeated_compaction_iff (hs j) (compact_ok_iff.1 ⟨_, r, hd⟩)
  | _ => exact absurd hc id

/-- Object 0 is compacted into object 2. -/
def first_compaction : MetadataCommand :=
  .compactStreamObject ⟨1, 0⟩ ⟨2, 8, 0, 1, 0, 4, [0], [], 0⟩ 1

/-- The first of two stream objects is compacted into object 2, and that one away with the second.
-/
def consumed_output : List MetadataCommand :=
  [.registerNode 1 0 "a" 1 .empty "wal", .createStream ⟨1, 0⟩, .openStream ⟨1, 0⟩ 0 1,
    .commitStreamSetObject ⟨1, 0⟩ ⟨1000, 0, 0, [], [⟨0, 8, 0, 0, 4, 0⟩, ⟨1, 8, 0, 4, 8, 0⟩], []⟩ 1,
    first_compaction,
    .compactStreamObject ⟨1, 0⟩ ⟨3, 8, 0, 1, 0, 8, [1, 2], [], 0⟩ 1]

/-- Right after it was accepted, the first compaction is redundant. -/
theorem repeated_compaction_in_consumed_output :
    SameObjects (history 1000 consumed_output 5)
      (step 1000 (history 1000 consumed_output 5) first_compaction) :=
  (repeated_object_commands_iff 1000 consumed_output 4 5 first_compaction trivial
    ⟨rfl, .unit, by decide⟩).2 fun h => h.output (by decide) (.inr (by decide))

/-- Once its output is compacted away, it is accepted again and lists object 2 anew. -/
theorem repeated_compaction_resurrects :
    Accepted 1000 consumed_output 4 first_compaction ∧
    (history 1000 consumed_output 6).stream_objects.keys = [⟨0, 0, 3⟩] ∧
    (step 1000 (history 1000 consumed_output 6) first_compaction).stream_objects.keys =
      [⟨0, 0, 2⟩, ⟨0, 0, 3⟩] ∧
    ¬SameObjects (history 1000 consumed_output 6)
      (step 1000 (history 1000 consumed_output 6) first_compaction) := by
  have hbefore : (history 1000 consumed_output 6).stream_objects.keys = [⟨0, 0, 3⟩] := by decide
  have hafter : (step 1000 (history 1000 consumed_output 6) first_compaction).stream_objects.keys =
      [⟨0, 0, 2⟩, ⟨0, 0, 3⟩] := by decide
  refine ⟨⟨rfl, .unit, by decide⟩, hbefore, hafter, fun h => ?_⟩
  rw [h.2.1, hbefore] at hafter
  exact absurd hafter (by decide)

end PicoMq.Metadata
