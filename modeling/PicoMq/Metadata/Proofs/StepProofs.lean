import PicoMq.Metadata.Proofs.DerivedProofs

/-!
# Proofs: what one command does to a node row and to a stream row

`NodeStep` and `RowStep` list what an accepted command does to a node row and to the control part of
a stream row, with its guards.
-/

namespace PicoMq.Metadata

open MetadataState StreamTables

variable {s s' : MetadataState} {r : MetadataResult} {sid : ℕ} {n epoch : ℤ}
variable {noop : ℕ}
variable {now_ms : ℤ} {c : MetadataCommand}

/-! ## What object commands leave alone -/

@[simp] theorem mark_destroyed_frame (s : MetadataState) (id : ℕ) (op : CompactOperations) :
    (mark_destroyed s id op).toClusterTables = s.toClusterTables ∧
    (mark_destroyed s id op).toStreamTables = s.toStreamTables ∧
    (mark_destroyed s id op).toLeaseTables = s.toLeaseTables ∧
    (mark_destroyed s id op).toObjectTables = s.toObjectTables ∧
    (mark_destroyed s id op).toKvTables = s.toKvTables := by
  unfold mark_destroyed
  cases s.destroyed_by_id.get id <;> exact ⟨rfl, rfl, rfl, rfl, rfl⟩

theorem Writes.cluster {C : ℕ → Prop} {R : StreamSetObjectRow → Prop} (h : Writes C R s s') :
    s'.toClusterTables = s.toClusterTables :=
  h.unchanged (g := fun s => s.toClusterTables) fun hwrite => by
    cases hwrite <;> simp [insert_stream_object, MetadataState.remove_prepared]

theorem destroy_stream_objects_cluster (keys : List StreamOffsetKey) (s : MetadataState) :
    (keys.foldl destroy_stream_object s).toClusterTables = s.toClusterTables :=
  (Writes.foldl (C := Any) (R := Any) destroy_stream_object_writes keys s).cluster

theorem commit_stream_set_object_cluster {request : CommitStreamSetObjectRequest}
    (h : commit_stream_set_object noop s n request now_ms = .ok (s', r)) :
    s'.toClusterTables = s.toClusterTables :=
  (commit_stream_set_object_writes (C := Any) (R := Any) (fun _ => trivial) (fun _ _ => trivial)
    (fun _ _ => trivial) h).cluster

theorem control_destroy_stream_objects (keys : List StreamOffsetKey) (s : MetadataState)
    (sid : ℕ) :
    (keys.foldl destroy_stream_object s).toStreamTables.control sid =
      s.toStreamTables.control sid :=
  List.foldl_unchanged (g := fun s : MetadataState => s.toStreamTables.control sid)
    (fun s key => by simp [destroy_stream_object]) s keys

theorem control_destroy_stream_set_objects (ids : List ℕ) (s : MetadataState) (sid : ℕ) :
    (ids.foldl destroy_stream_set_object s).toStreamTables.control sid =
      s.toStreamTables.control sid :=
  List.foldl_unchanged (g := fun s : MetadataState => s.toStreamTables.control sid)
    (fun s id => by simp [destroy_stream_set_object]) s ids

theorem compacted_frame (noop : ℕ) (s : MetadataState)
    (request : CompactStreamObjectRequest) (now_ms : ℤ) :
    (∀ sid, (compacted noop s request now_ms).toStreamTables.control sid =
      s.toStreamTables.control sid) ∧
    (compacted noop s request now_ms).stream_set_objects = s.stream_set_objects ∧
    (compacted noop s request now_ms).sso_ranges = s.sso_ranges ∧
    (compacted noop s request now_ms).toDestroyTables = s.toDestroyTables := by
  refine List.foldl_invariant (P := fun t : MetadataState =>
    (∀ sid, t.toStreamTables.control sid = s.toStreamTables.control sid) ∧
    t.stream_set_objects = s.stream_set_objects ∧ t.sso_ranges = s.sso_ranges ∧
    t.toDestroyTables = s.toDestroyTables) (fun t id _ ht => ?_) ?_
  · unfold remove_compacted_source
    split_ifs
    · simpa using ht
    · exact ht
  · split_ifs
    · simp [insert_stream_object, MetadataState.remove_prepared]
    · simp [MetadataState.remove_prepared]

theorem foldl_marks_frame (marks : List (ℕ × CompactOperations)) (s : MetadataState) :
    (marks.foldl (fun s e => mark_destroyed s e.1 e.2) s).toStreamTables = s.toStreamTables ∧
    (marks.foldl (fun s e => mark_destroyed s e.1 e.2) s).toObjectTables = s.toObjectTables := by
  induction marks generalizing s with
  | nil => exact ⟨rfl, rfl⟩
  | cons e marks ih => simpa using ih (mark_destroyed s e.1 e.2)

theorem compact_stream_object_cluster {request : CompactStreamObjectRequest}
    (h : compact_stream_object noop s request now_ms = .ok (s', r)) :
    s'.toClusterTables = s.toClusterTables :=
  (compact_stream_object_writes (C := Any) (R := Any) trivial h).cluster

theorem create_next_unchanged {β : Type} {g : MetadataState → β}
    (h : ∀ s, g (create_next s) = g s) (s : MetadataState) (count : ℕ) :
    g (create_next^[count] s) = g s := by
  induction count with
  | zero => rfl
  | succ count ih => rw [Function.iterate_succ_apply', h, ih]

/-! ## Node rows -/

/-- How a command changes the row of node `n`. -/
inductive NodeStep (n : ℤ) : MetadataCommand → Option NodeRow → Option NodeRow → Prop
  | same (c : MetadataCommand) (o : Option NodeRow) : NodeStep n c o o
  | kept (c : MetadataCommand) (old row : NodeRow) (hepoch : row.epoch = old.epoch)
      (hfenced : row.fenced = old.fenced) (hbeats : row.heartbeats = old.heartbeats + c.beats n)
      (hid : row.node_id = old.node_id) :
      NodeStep n c (some old) (some row)
  | registered (node_epoch : ℤ) (http_address : String) (slots : ℕ)
      (protocol_addresses : OrdMap String String) (wal : String) (o : Option NodeRow)
      (row : NodeRow)
      (hepoch : row.epoch =
        o.elim node_epoch fun old => max node_epoch (wrapI64 (old.epoch + 1)))
      (hfenced : row.fenced = false) (hbeats : row.heartbeats = o.elim 0 (·.heartbeats))
      (hid : row.node_id = n) :
      NodeStep n (.registerNode n node_epoch http_address slots protocol_addresses wal) o (some row)
  | fenced (p : Proposer) (heartbeats : ℕ) (old row : NodeRow) (hepoch : row.epoch = old.epoch)
      (hold : old.fenced = false) (hfenced : row.fenced = true)
      (hbeats : row.heartbeats = old.heartbeats) (hid : row.node_id = old.node_id) :
      NodeStep n (.fenceNode p n old.epoch heartbeats) (some old) (some row)

theorem NodeStep.insert {m : OrdMap ℤ NodeRow} {n' : ℤ} {row : NodeRow}
    (h : NodeStep n' c (m.get n') (some row)) (n : ℤ) :
    NodeStep n c (m.get n) ((m.insert n' row).get n) := by
  rw [OrdMap.get_insert]
  split_ifs with hn
  · rw [hn]; exact h
  · exact .same c _

theorem nodeStep_of_nodes (h : s'.nodes = s.nodes) (n : ℤ) :
    NodeStep n c (s.nodes.get n) (s'.nodes.get n) := by
  rw [h]; exact .same c _

/-- Every accepted command changes a node row in one of these ways. -/
theorem Effect.nodeStep (h : Effect noop s c s') (n : ℤ) :
    NodeStep n c (s.nodes.get n) (s'.nodes.get n) := by
  cases h with
  | registered node_id node_epoch addr slots addrs wal row hepoch hfenced hbeats hid =>
    exact NodeStep.insert (.registered _ _ _ _ _ _ row hepoch hfenced hbeats hid) n
  | nodeKept c node_id old slots heartbeats hold hbeats =>
    refine NodeStep.insert ?_ n
    rw [hold]
    exact .kept c old _ rfl rfl hbeats rfl
  | nodeFenced p node_id heartbeats old hold hlive =>
    refine NodeStep.insert ?_ n
    rw [hold]
    exact .fenced p heartbeats old _ rfl hlive rfl rfl rfl
  | created c count =>
    exact nodeStep_of_nodes
      (create_next_unchanged (g := fun s => s.nodes) (fun _ => rfl) s count) n
  | trimmed =>
    refine nodeStep_of_nodes ?_ n
    rw [destroy_stream_objects_cluster]
    rfl
  | deleted =>
    refine nodeStep_of_nodes ?_ n
    rw [destroy_stream_objects_cluster]
    rfl
  | committed p request now_ms s' hok =>
    refine nodeStep_of_nodes ?_ n
    rw [commit_stream_set_object_cluster hok]
  | compacted p request now_ms s' hok =>
    refine nodeStep_of_nodes ?_ n
    rw [compact_stream_object_cluster hok]
  | cleaned p ids =>
    refine nodeStep_of_nodes ?_ n
    exact List.foldl_unchanged (g := fun s : MetadataState => s.nodes) (f := remove_destroyed)
      (fun _ _ => rfl) s ids
  | _ => exact nodeStep_of_nodes rfl n

/-! ## Stream rows -/

/-- How a command changes the row of stream `sid`, its byte count apart. -/
inductive RowStep (s : MetadataState) (sid : ℕ) :
    MetadataCommand → Option StreamRow → Option StreamRow → Prop
  | same (c : MetadataCommand) (o : Option StreamRow) : RowStep s sid c o o
  | created (c : MetadataCommand) (hfresh : s.next_stream_id ≤ sid) :
      RowStep s sid c none (some (new_stream_row sid))
  | placed (p : Proposer) (requested : Option ℤ) (row : StreamRow) (winner : ℤ)
      (hstate : row.state = .closed) (hdead : node_live s row.node_id = false)
      (hwinner : placement_winner s requested = some winner) :
      RowStep s sid (.placeStream p sid requested) (some row) (some { row with node_id := winner })
  | opened (p : Proposer) (epoch : ℤ) (row : StreamRow) (hepoch : row.epoch < epoch)
      (hstate : row.state = .closed) :
      RowStep s sid (.openStream p sid epoch) (some row)
        (some { row with epoch, state := .opened, node_id := p.node_id })
  | trimmed (p : Proposer) (offset : ℕ) (row : StreamRow)
      (hstart : row.start_offset ≤ offset) (hend : offset ≤ row.end_offset) :
      RowStep s sid (.trimStream p sid row.epoch offset) (some row)
        (some { row with start_offset := offset })
  | closed (p : Proposer) (row : StreamRow) (hstate : row.state = .opened)
      (howner : row.node_id = p.node_id ∨ node_live s row.node_id = false) :
      RowStep s sid (.closeStream p sid row.epoch) (some row)
        (some { row with state := .closed })
  | deleted (p : Proposer) (row : StreamRow) (hstate : row.state = .closed) :
      RowStep s sid (.deleteStream p sid row.epoch) (some row) none
  | transferred (p : Proposer) (pending : PendingTransfer) (row : StreamRow)
      (hpending : s.pending_transfers.get sid = some pending) (hstate : row.state = .closed) :
      RowStep s sid (.completeTransfer p sid row.epoch) (some row)
        (some { row with node_id := pending.to_node })
  | advanced (p : Proposer) (request : CommitStreamSetObjectRequest) (now_ms : ℤ)
      (row : StreamRow) (end_offset : ℕ) :
      RowStep s sid (.commitStreamSetObject p request now_ms) (some row)
        (some { row with end_offset })

theorem owner_of_eq (s : MetadataState) (sid : ℕ) :
    owner_of s sid = (s.toStreamTables.control sid).map (·.node_id) := by
  rw [owner_of, StreamTables.control, Option.map_map]; rfl

theorem RowStep.put_stream {row row' : StreamRow} {sid sid' : ℕ} (hs : s.Wf)
    (hrow : s.streams.get sid = some row) (hid : row'.stream_id = row.stream_id)
    (h : RowStep s sid c (some row.control) (some row'.control)) :
    RowStep s sid' c (s.toStreamTables.control sid')
      ((s.put_stream row').toStreamTables.control sid') := by
  obtain rfl := hs.streams.keyed sid row hrow
  simp only [put_stream_frame, control_put_stream, hid]
  split_ifs with heq
  · subst heq
    rw [control_eq_some hrow]
    exact h
  · exact .same c _

/-- Between the two states, rows differ in their end offset at most. -/
def EndOnly (s s' : MetadataState) : Prop :=
  ∀ sid, s'.toStreamTables.control sid = s.toStreamTables.control sid ∨
    ∃ row end_offset, s.toStreamTables.control sid = some row ∧
      s'.toStreamTables.control sid = some { row with end_offset }

theorem EndOnly.of_control
    (h : ∀ sid, s'.toStreamTables.control sid = s.toStreamTables.control sid) : EndOnly s s' :=
  fun sid => .inl (h sid)

theorem EndOnly.trans {s'' : MetadataState} (h : EndOnly s s') (h' : EndOnly s' s'') :
    EndOnly s s'' := fun sid => by
  rcases h' sid with h' | ⟨row', e', hrow', h'⟩
  · rw [h']; exact h sid
  · rcases h sid with h | ⟨row, e, hrow, h⟩
    · exact .inr ⟨row', e', h ▸ hrow', h'⟩
    · rw [hrow'] at h
      cases h
      exact .inr ⟨row, e', hrow, h'⟩

theorem put_end_offset_endOnly (hs : s.Wf) {row : StreamRow} (hrow : s.streams.get sid = some row)
    (end_offset : ℕ) : EndOnly s (s.put_stream { row with end_offset }) := by
  intro sid'
  obtain rfl := hs.streams.keyed sid row hrow
  simp only [put_stream_frame, control_put_stream]
  split_ifs with heq
  · subst heq
    exact .inr ⟨_, _, control_eq_some hrow, rfl⟩
  · exact .inl rfl

theorem Writes.endOnly {C : ℕ → Prop} {R : StreamSetObjectRow → Prop} (hs : s.Wf)
    (h : Writes C R s s') : EndOnly s s' := by
  induction h with
  | refl => exact .of_control fun _ => rfl
  | tail hwrites hlast ih =>
    refine ih.trans ?_
    cases hlast with
    | advance sid row end_offset hrow => exact put_end_offset_endOnly (Writes.wf hs hwrites) hrow _
    | unlease => exact .of_control fun _ => rfl
    | list_set => exact .of_control fun sid => control_put_stream_set_object _ sid
    | list => exact .of_control fun sid => control_put_stream_object _ sid
    | _ => exact .of_control fun sid => by simp

theorem commit_stream_set_object_endOnly (hs : s.Wf) {request : CommitStreamSetObjectRequest}
    (h : commit_stream_set_object noop s n request now_ms = .ok (s', r)) : EndOnly s s' :=
  (commit_stream_set_object_writes (C := Any) (R := Any) (fun _ => trivial) (fun _ _ => trivial)
    (fun _ _ => trivial) h).endOnly hs

theorem compact_stream_object_control {request : CompactStreamObjectRequest}
    (h : compact_stream_object noop s request now_ms = .ok (s', r)) (sid : ℕ) :
    s'.toStreamTables.control sid = s.toStreamTables.control sid := by
  obtain ⟨-, -, -, hmark, -⟩ := compact_stream_object_eq_ok_iff.1 h
  obtain ⟨-, rfl⟩ := mark_destroy_objects_eq_ok_iff.1 hmark
  rw [(foldl_marks_frame _ _).1, (compacted_frame _ _ _ _).1]

theorem rowStep_of_control
    (h : s'.toStreamTables.control sid = s.toStreamTables.control sid) :
    RowStep s sid c (s.toStreamTables.control sid) (s'.toStreamTables.control sid) := by
  rw [h]; exact .same c _

theorem create_next_next_stream_id (s : MetadataState) (count : ℕ) :
    s.next_stream_id ≤ (create_next^[count] s).next_stream_id := by
  induction count with
  | zero => exact le_rfl
  | succ count ih => rw [Function.iterate_succ_apply']; exact Nat.le_succ_of_le ih

theorem control_create_next (hs : s.Wf) (count sid : ℕ) :
    (create_next^[count] s).toStreamTables.control sid = s.toStreamTables.control sid ∨
      s.next_stream_id ≤ sid ∧ s.toStreamTables.control sid = none ∧
        (create_next^[count] s).toStreamTables.control sid = some (new_stream_row sid) := by
  induction count with
  | zero => exact .inl rfl
  | succ count ih =>
    have hle := create_next_next_stream_id s count
    have hwf := create_streams_wf hs count
    rw [Function.iterate_succ_apply']
    simp only [create_next, put_stream_frame, control_put_stream]
    split_ifs with heq
    · have heq' : sid = (create_next^[count] s).next_stream_id := heq
      have hnone : (create_next^[count] s).toStreamTables.control sid = none := by
        rw [heq', StreamTables.control, hwf.next_stream_get]; rfl
      refine .inr ⟨heq' ▸ hle, ?_, by rw [heq]; rfl⟩
      rcases ih with ih | ⟨-, -, ih⟩
      · rw [← ih, hnone]
      · rw [hnone] at ih; cases ih
    · exact ih

/-- Every accepted command changes a stream row in one of these ways. -/
theorem Effect.rowStep (hs : s.Wf) (h : Effect noop s c s')
    (sid : ℕ) :
    RowStep s sid c (s.toStreamTables.control sid) (s'.toStreamTables.control sid) := by
  cases h with
  | created c count =>
    rcases control_create_next hs count sid with h | ⟨hfresh, hnone, h⟩
    · exact rowStep_of_control h
    · rw [hnone, h]; exact .created c hfresh
  | placed p sid' requested row winner hrow hstate hdead hwinner =>
    exact RowStep.put_stream hs hrow rfl (.placed p requested row.control winner hstate hdead
      hwinner)
  | opened p sid' epoch row hrow hepoch hstate =>
    exact RowStep.put_stream hs hrow rfl (.opened p epoch row.control hepoch hstate)
  | trimmed p sid' offset row hrow howner hstart hend =>
    rw [control_destroy_stream_objects]
    exact RowStep.put_stream hs hrow rfl (.trimmed p offset row.control hstart hend)
  | closed p sid' row hrow hstate howner =>
    exact RowStep.put_stream hs hrow rfl (.closed p row.control hstate howner)
  | deleted p sid' row hrow howner hstate =>
    rw [control_destroy_stream_objects]
    simp only [MetadataState.remove_stream, control_remove_stream]
    split_ifs with heq
    · subst heq
      rw [control_eq_some hrow]
      exact .deleted p row.control hstate
    · exact .same _ _
  | transferred p sid' pending row hpending hrow hstate =>
    exact RowStep.put_stream hs hrow rfl (.transferred p pending row.control hpending hstate)
  | committed p request now_ms s' hok =>
    rcases commit_stream_set_object_endOnly hs hok sid with h | ⟨row, e, hrow, h⟩
    · exact rowStep_of_control h
    · rw [hrow, h]; exact .advanced p request now_ms row e
  | compacted p request now_ms s' hok =>
    exact rowStep_of_control (compact_stream_object_control hok sid)
  | cleaned p ids =>
    exact rowStep_of_control (List.foldl_unchanged (f := remove_destroyed)
      (g := fun s : MetadataState => s.toStreamTables.control sid) (fun _ _ => rfl) s ids)
  | _ => exact rowStep_of_control rfl

theorem Effect.next_stream_id_le (h : Effect noop s c s') :
    s.next_stream_id ≤ s'.next_stream_id := by
  cases h with
  | created c count => exact create_next_next_stream_id s count
  | trimmed => rw [destroy_stream_objects_cluster]; exact le_rfl
  | deleted => rw [destroy_stream_objects_cluster]; exact le_rfl
  | committed p request now_ms s' hok => rw [commit_stream_set_object_cluster hok]
  | compacted p request now_ms s' hok => rw [compact_stream_object_cluster hok]
  | cleaned p ids =>
    exact (List.foldl_unchanged (g := fun s : MetadataState => s.next_stream_id)
      (f := remove_destroyed) (fun _ _ => rfl) s ids).ge
  | _ => exact le_rfl

/-! ## Steps -/

theorem step_nodeStep (noop : ℕ) (s : MetadataState) (c : MetadataCommand) (n : ℤ) :
    NodeStep n c (s.nodes.get n) ((step noop s c).nodes.get n) := by
  rcases step_effect s c with h | ⟨-, -, h⟩
  · rw [h]; exact .same c _
  · exact h.nodeStep n

theorem step_rowStep (noop : ℕ) {s : MetadataState} (hs : s.Wf) (c : MetadataCommand)
    (sid : ℕ) :
    RowStep s sid c (s.toStreamTables.control sid)
      ((step noop s c).toStreamTables.control sid) := by
  rcases step_effect s c with h | ⟨-, -, h⟩
  · rw [h]; exact .same c _
  · exact h.rowStep hs sid

theorem step_next_stream_id_le (noop : ℕ) (s : MetadataState) (c : MetadataCommand) :
    s.next_stream_id ≤ (step noop s c).next_stream_id := by
  rcases step_effect s c with h | ⟨-, -, h⟩
  · rw [h]
  · exact h.next_stream_id_le

end PicoMq.Metadata
