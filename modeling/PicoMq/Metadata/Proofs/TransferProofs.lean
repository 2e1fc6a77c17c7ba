import PicoMq.Metadata.Proofs.StepProofs

/-!
# Proofs: pending transfers

A pending transfer names the node that holds its stream, until a third node opens the closed stream
or it is placed again.
-/

namespace PicoMq.Metadata

open MetadataState

variable {s s' : MetadataState} {c : MetadataCommand} {noop : ℕ} {row : StreamRow}
variable {sid : ℕ}

theorem owner_of_put_stream (hs : s.Wf) (hrow : s.streams.get sid = some row) (row' : StreamRow)
    (hid : row'.stream_id = row.stream_id) (sid' : ℕ) :
    owner_of (s.put_stream row') sid' =
      if sid' = sid then some row'.node_id else owner_of s sid' := by
  obtain rfl := hs.streams.keyed sid row hrow
  simp only [owner_of_eq, put_stream_frame, StreamTables.control_put_stream, hid]
  split_ifs <;> rfl

theorem owner_of_some (hrow : s.streams.get sid = some row) :
    owner_of s sid = some row.node_id := by
  rw [owner_of, hrow]; rfl

/-- What an accepted command does to the pending transfer and to the owner of a stream. -/
inductive PendingStep (s s' : MetadataState) (sid : ℕ) : MetadataCommand → Prop
  | same (c : MetadataCommand)
      (hpending : s'.pending_transfers.get sid = s.pending_transfers.get sid)
      (howner : owner_of s' sid = owner_of s sid) : PendingStep s s' sid c
  | dropped (c : MetadataCommand) (hpending : s'.pending_transfers.get sid = none) :
      PendingStep s s' sid c
  | recorded (c : MetadataCommand) (pending : PendingTransfer)
      (hpending : s'.pending_transfers.get sid = some pending)
      (hne : pending.from_node ≠ pending.to_node)
      (howner : owner_of s' sid = some pending.from_node) : PendingStep s s' sid c
  | opened (p : Proposer) (epoch : ℤ) (row : StreamRow)
      (hpending : s'.pending_transfers.get sid = s.pending_transfers.get sid)
      (hrow : s.streams.get sid = some row) (hstate : row.state = .closed)
      (hepoch : row.epoch < epoch) (howner : owner_of s' sid = some p.node_id) :
      PendingStep s s' sid (.openStream p sid epoch)
  | placed (p : Proposer) (requested : Option ℤ) (winner : ℤ) (row : StreamRow)
      (hpending : s'.pending_transfers.get sid = s.pending_transfers.get sid)
      (hrow : s.streams.get sid = some row) (hstate : row.state = .closed)
      (hdead : node_live s row.node_id = false)
      (hwinner : placement_winner s requested = some winner)
      (howner : owner_of s' sid = some winner) :
      PendingStep s s' sid (.placeStream p sid requested)

theorem pendingStep_of_control (hpending : s'.pending_transfers = s.pending_transfers)
    (hcontrol : s'.toStreamTables.control sid = s.toStreamTables.control sid) :
    PendingStep s s' sid c :=
  .same c (by rw [hpending]) (by rw [owner_of_eq, owner_of_eq, hcontrol])

theorem owner_of_put_same (hs : s.Wf) (hrow : s.streams.get sid = some row) (row' : StreamRow)
    (hid : row'.stream_id = row.stream_id) (hnode : row'.node_id = row.node_id) (sid' : ℕ) :
    owner_of (s.put_stream row') sid' = owner_of s sid' := by
  rw [owner_of_put_stream hs hrow row' hid]
  split_ifs with hsid
  · rw [hsid, owner_of_some hrow, hnode]
  · rfl

theorem Effect.pendingStep (hs : s.Wf) (hheld : TransfersHeld s)
    (h : Effect noop s c s') (sid : ℕ) : PendingStep s s' sid c := by
  cases h with
  | created c count =>
    have hpending := create_next_unchanged (g := fun s => s.pending_transfers) (fun _ => rfl) s count
    rcases control_create_next hs count sid with hcontrol | ⟨-, hnone, -⟩
    · exact pendingStep_of_control hpending hcontrol
    · -- a stream that does not exist yet has no pending transfer
      refine .dropped c ?_
      rw [hpending]
      by_contra hsome
      obtain ⟨pending, hp⟩ := Option.ne_none_iff_exists'.1 hsome
      have howner := (hheld sid pending hp).2
      rw [owner_of_eq, hnone] at howner
      cases howner
  | placed p sid' requested row winner hrow hstate hdead hwinner =>
    have howner := owner_of_put_stream hs hrow { row with node_id := winner } rfl sid
    split_ifs at howner with hsid
    · subst hsid
      exact .placed p requested winner row rfl hrow hstate hdead hwinner howner
    · exact .same _ rfl howner
  | opened p sid' epoch row hrow hepoch hstate =>
    have howner := owner_of_put_stream hs hrow
      { row with epoch, state := .opened, node_id := p.node_id } rfl sid
    split_ifs at howner with hsid
    · subst hsid
      exact .opened p epoch row rfl hrow hstate hepoch howner
    · exact .same _ rfl howner
  | trimmed p sid' offset row hrow howner hstart hend =>
    refine .same _ (by rw [destroy_stream_objects_cluster]; rfl) ?_
    rw [owner_of_eq, control_destroy_stream_objects, ← owner_of_eq]
    exact owner_of_put_same hs hrow { row with start_offset := offset } rfl rfl sid
  | closed p sid' row hrow hstate howner =>
    exact .same _ rfl (owner_of_put_same hs hrow { row with state := .closed } rfl rfl sid)
  | deleted p sid' row hrow howner hstate =>
    by_cases hsid : sid = sid'
    · subst hsid
      exact .dropped _ (by rw [destroy_stream_objects_cluster]; simp)
    · refine .same _ (by rw [destroy_stream_objects_cluster]; simp [hsid]) ?_
      rw [owner_of_eq, owner_of_eq, control_destroy_stream_objects]
      simp [MetadataState.remove_stream, hsid]
  | transferring p sid' target row hrow hnone hne hstate =>
    by_cases hsid : sid = sid'
    · subst hsid
      exact .recorded _ ⟨row.node_id, target⟩ (by simp) hne (owner_of_some hrow)
    · exact .same _ (by simp [hsid]) rfl
  | transferred p sid' pending row hpending hrow hstate =>
    have howner := owner_of_put_stream hs hrow { row with node_id := pending.to_node } rfl sid
    split_ifs at howner with hsid
    · exact .dropped _ (by simp [hsid])
    · exact .same _ (by simp [hsid]) howner
  | committed p request now_ms s' hok =>
    refine .same _ (by rw [commit_stream_set_object_cluster hok]) ?_
    rw [owner_of_eq, owner_of_eq]
    rcases commit_stream_set_object_endOnly hs hok sid with h | ⟨row, e, hrow, h⟩
    · rw [h]
    · rw [h, hrow]; rfl
  | compacted p request now_ms s' hok =>
    exact pendingStep_of_control (by rw [compact_stream_object_cluster hok])
      (compact_stream_object_control hok sid)
  | cleaned p ids =>
    exact pendingStep_of_control
      (List.foldl_unchanged (f := remove_destroyed)
        (g := fun s : MetadataState => s.pending_transfers) (fun _ _ => rfl) s ids)
      (List.foldl_unchanged (f := remove_destroyed)
        (g := fun s : MetadataState => s.toStreamTables.control sid) (fun _ _ => rfl) s ids)
  | _ => exact .same _ rfl rfl

theorem open_stream_of_closed {n epoch : ℤ}
    (hrow : s.streams.get sid = some row) (hepoch : row.epoch < epoch)
    (hstate : row.state = .closed) :
    open_stream s n sid epoch =
      .ok ({ s.put_stream { row with epoch, state := .opened, node_id := n } with
          epochs := s.epochs.insert (toLex (sid, epoch)) row.end_offset },
        .stream { row with epoch, state := .opened, node_id := n }.to_stream_metadata) := by
  rw [open_stream, require_stream_eq_ok_iff.2 hrow]
  simp [Except.bind, bind, hstate, hepoch.ne, hepoch.not_gt]

theorem place_stream_of_dead {requested : Option ℤ} {winner : ℤ}
    (hrow : s.streams.get sid = some row) (hstate : row.state = .closed)
    (hdead : node_live s row.node_id = false) (hwinner : placement_winner s requested = some winner) :
    place_stream s sid requested =
      .ok (s.put_stream { row with node_id := winner }, .id (asU64 winner)) := by
  rw [place_stream, require_stream_eq_ok_iff.2 hrow]
  simp [Except.bind, bind, hstate, hdead, hwinner]

theorem not_held_after_move {pending : PendingTransfer} {n : ℤ}
    (hheld : TransfersHeld s) (hheld' : TransfersHeld s')
    (hpending : s.pending_transfers.get sid = some pending) (hrow : s.streams.get sid = some row)
    (hpending' : s'.pending_transfers = s.pending_transfers)
    (howner : owner_of s' sid = some n) (hne : n ≠ row.node_id) : False := by
  have h1 := (hheld sid pending hpending).2
  have h2 := (hheld' sid pending (hpending' ▸ hpending)).2
  rw [owner_of_some hrow] at h1
  rw [howner, ← h1] at h2
  exact hne (Option.some.inj h2)

theorem transfersHeld_step_iff (hs : s.Wf) (hheld : TransfersHeld s) (c : MetadataCommand) :
    TransfersHeld (step noop s c) ↔ ¬MovesPending s c := by
  constructor
  · rintro hheld' ⟨sid, pending, row, hpending, hrow, hstate, hmove⟩
    rcases hmove with ⟨p, epoch, rfl, hact, hepoch, hne⟩ | ⟨p, requested, winner, rfl, hact, hdead,
      hwinner, hne⟩
    · have happly : apply noop s (.openStream p sid epoch) = _ :=
        apply_of_dispatch (fun q hq => by cases hq; exact check_proposer_eq_ok_iff.1 hact)
          (open_stream_of_closed hrow hepoch hstate)
      rw [step, happly] at hheld'
      refine not_held_after_move hheld hheld' hpending hrow rfl ?_ hne
      exact (owner_of_put_stream hs hrow
        { row with epoch, state := .opened, node_id := p.node_id } rfl sid).trans (if_pos rfl)
    · have happly : apply noop s (.placeStream p sid requested) = _ :=
        apply_of_dispatch (fun q hq => by cases hq; exact check_proposer_eq_ok_iff.1 hact)
          (place_stream_of_dead hrow hstate hdead hwinner)
      rw [step, happly] at hheld'
      refine not_held_after_move hheld hheld' hpending hrow rfl ?_ hne
      exact (owner_of_put_stream hs hrow { row with node_id := winner } rfl sid).trans (if_pos rfl)
  · intro hmoves
    rcases step_effect s c with hsame | ⟨-, hact, heffect⟩
    · rw [hsame]; exact hheld
    generalize step noop s c = s' at heffect
    intro sid pending hp
    cases heffect.pendingStep hs hheld sid with
    | same _ hpending howner => rw [howner]; exact hheld sid pending (hpending ▸ hp)
    | dropped _ hpending => rw [hpending] at hp; cases hp
    | recorded _ pending' hpending hne howner =>
      rw [hpending] at hp
      cases hp
      exact ⟨hne, howner⟩
    | opened p epoch row hpending hrow hstate hepoch howner =>
      rw [hpending] at hp
      have hkept := hheld sid pending hp
      rw [owner_of_some hrow] at hkept
      rw [howner]
      by_cases hnode : p.node_id = row.node_id
      · rw [hnode]; exact hkept
      · exact absurd ⟨sid, pending, row, hp, hrow, hstate, .inl ⟨p, epoch, rfl,
          check_proposer_eq_ok_iff.2 (hact p rfl), hepoch, hnode⟩⟩ hmoves
    | placed p requested winner row hpending hrow hstate hdead hwinner howner =>
      rw [hpending] at hp
      have hkept := hheld sid pending hp
      rw [owner_of_some hrow] at hkept
      rw [howner]
      by_cases hnode : winner = row.node_id
      · rw [hnode]; exact hkept
      · exact absurd ⟨sid, pending, row, hp, hrow, hstate, .inr ⟨p, requested, winner, rfl,
          check_proposer_eq_ok_iff.2 (hact p rfl), hdead, hwinner, hnode⟩⟩ hmoves

/-- Pending transfers keep naming the node that holds their stream exactly when no open by a third
node and no new placement moves the stream meanwhile. -/
theorem transfers_held_iff (noop : ℕ) (log : List MetadataCommand) :
    Run.Always (step noop) {} log TransfersHeld ↔
      Run.EachStep (step noop) {} log fun s c => ¬MovesPending s c :=
  Run.always_iff_eachStep (I := Wf) Wf.empty (fun _ c h => step_wf h c)
    (fun _ _ h => by simp at h) fun _ c hs hheld => transfersHeld_step_iff hs hheld c

/-- The stream is to move from node 1 to node 2, and node 3 opens it before the move completes. -/
def overtaken_transfer : List MetadataCommand :=
  [.registerNode 1 0 "a" 1 .empty "wal", .registerNode 2 0 "b" 1 .empty "wal",
    .registerNode 3 0 "c" 1 .empty "wal", .createStream ⟨1, 0⟩, .openStream ⟨1, 0⟩ 0 1,
    .transferStream ⟨1, 0⟩ 0 1 2, .closeStream ⟨1, 0⟩ 0 1, .openStream ⟨3, 0⟩ 0 2]

/-- The record still says that node 1 hands the stream to node 2, and node 3 holds it. -/
theorem overtaken_transfer_not_held :
    ((history 1000 overtaken_transfer 8).pending_transfers.get 0 = some ⟨1, 2⟩ ∧
      owner_of (history 1000 overtaken_transfer 8) 0 = some 3) ∧
    ¬Run.Always (step 1000) {} overtaken_transfer TransfersHeld := by
  have hstate : (history 1000 overtaken_transfer 8).pending_transfers.get 0 = some ⟨1, 2⟩ ∧
      owner_of (history 1000 overtaken_transfer 8) 0 = some 3 := by decide
  refine ⟨hstate, fun h => ?_⟩
  have howner := (h 8 0 ⟨1, 2⟩ hstate.1).2
  have hne : owner_of (history 1000 overtaken_transfer 8) 0 ≠ some 1 := by decide
  exact hne howner

end PicoMq.Metadata
