import PicoMq.Metadata.Proofs.NodeProofs
import PicoMq.Server.OpenEpochs

/-!
# Proofs: the epochs that nodes open a stream with

A node that has a counter and does not hold the stream has not been shown an epoch above it.
-/

namespace PicoMq.Server

open Metadata Option

variable {noop stream_id : ℕ}

/-! ## One open -/

theorem check_proposer_error {state : MetadataState} {p : Proposer} {e : MetadataError}
    (h : check_proposer state p = .error e) : ∃ message, e = .nodeEpochMismatch p.node_id message := by
  unfold check_proposer at h
  dsimp only at h
  split at h
  · cases h
    exact ⟨_, rfl⟩
  · split at h
    · cases h
      exact ⟨_, rfl⟩
    · split at h
      · cases h
        exact ⟨_, rfl⟩
      · cases h

theorem open_not_fenced {landed : MetadataState} {row : StreamRow}
    (hrow : landed.streams.get stream_id = some row) {epoch : ℤ} (hlt : row.epoch < epoch)
    (p : Proposer) (expired : ℤ) (message : String) :
    (apply noop landed (.openStream p stream_id epoch)).2 ≠
      .error (.streamFenced stream_id expired message) := by
  have hopen : ∀ result, open_stream landed p.node_id stream_id epoch = result →
      result ≠ .error (.streamFenced stream_id expired message) := by
    rintro result rfl
    rw [open_stream, require_stream, hrow]
    simp only [bind, Except.bind]
    rw [if_neg (by omega), if_neg (by omega)]
    split
    · intro h
      cases h
    · intro h
      cases h
  intro h
  unfold apply apply_inner at h
  dsimp only [MetadataCommand.proposer] at h
  cases hcheck : check_proposer landed p with
  | error e =>
    rw [hcheck] at h
    obtain ⟨reason, rfl⟩ := check_proposer_error hcheck
    cases h
  | ok _ =>
    rw [hcheck] at h
    simp only [bind, Except.bind, dispatch] at h
    cases hresult : open_stream landed p.node_id stream_id epoch with
    | error e =>
      rw [hresult] at h
      exact hopen _ hresult (by rw [Except.error.inj h])
    | ok next =>
      rw [hresult] at h
      cases h

namespace Holders

variable {node : NodeStreams}

theorem lt_next_epoch {view : MetadataState} {row : StreamRow}
    (hcounter : ∀ epoch ∈ node.epochs, AtMost stream_id view epoch)
    (hleft : EpochsLeft stream_id view node) (hrow : view.streams.get stream_id = some row) :
    row.epoch < node.next_epoch view stream_id := by
  unfold NodeStreams.next_epoch
  cases hepochs : node.epochs with
  | some epoch =>
    have hle := hcounter epoch hepochs row hrow
    push_cast
    omega
  | none =>
    have hlt := hleft.2 row hrow
    have hasU64 : (asU64 (max row.epoch 0) : ℤ) = max row.epoch 0 := by
      unfold asU64
      omega
    rw [hrow, elim_some, StreamRow.to_stream_metadata]
    push_cast
    omega

theorem next_epoch_lt {view : MetadataState}
    (hleft : EpochsLeft stream_id view node) : node.next_epoch view stream_id < 2 ^ 63 := by
  unfold NodeStreams.next_epoch
  cases hepochs : node.epochs with
  | some epoch =>
    have hlt := hleft.1 epoch hepochs
    dsimp only
    omega
  | none =>
    cases hrow : view.streams.get stream_id with
    | none => decide
    | some row =>
      have hlt := hleft.2 row hrow
      have hasU64 : (asU64 (max row.epoch 0) : ℤ) = max row.epoch 0 := by
        unfold asU64
        omega
      rw [elim_some, StreamRow.to_stream_metadata]
      dsimp only
      omega

/-! ## What every step keeps -/

/-- No epoch in the view is above the counter of a node that does not hold the stream. -/
structure NodeKept (noop stream_id : ℕ) (log : List MetadataCommand) (node : NodeStreams) :
    Prop where
  view_le : node.view ≤ log.length
  counter : node.held = none → ∀ epoch ∈ node.epochs,
    AtMost stream_id (history noop log node.view) epoch

def Kept (noop stream_id : ℕ) (s : Holders) : Prop :=
  ∀ node_id node, s.nodes.get node_id = some node → NodeKept noop stream_id s.log node

variable {s : Holders} {node_id : ℤ} {a : Step}

theorem Kept.update (h : Kept noop stream_id s) {f : NodeStreams → NodeStreams}
    (hf : ∀ node, s.nodes.get node_id = some node →
      NodeKept noop stream_id s.log node → NodeKept noop stream_id s.log (f node)) :
    Kept noop stream_id (s.update node_id f) := by
  unfold Holders.update
  cases hnode : s.nodes.get node_id with
  | none => exact h
  | some node =>
    intro id node' hget
    rcases OrdMap.get_insert_cases hget with ⟨rfl, rfl⟩ | ⟨-, hget⟩
    · exact hf node hnode (h _ node hnode)
    · exact h id node' hget

theorem requested_eq {epoch : ℕ}
    (h : s.requested noop stream_id a = some epoch) :
    ∃ node_id node, a.node = some node_id ∧ s.nodes.get node_id = some node ∧ node.held = none ∧
      epoch = node.next_epoch (s.seen noop node) stream_id := by
  cases a with
  | ensure_open node_id =>
    obtain ⟨node, hnode, h⟩ := bind_eq_some_iff.1 h
    dsimp only at h
    split_ifs at h with hblocked
    cases h
    refine ⟨node_id, node, rfl, hnode, ?_, rfl⟩
    cases hheld : node.held with
    | none => rfl
    | some e => simp [hheld] at hblocked
  | destroy node_id =>
    obtain ⟨node, hnode, h⟩ := bind_eq_some_iff.1 h
    split_ifs at h with hheld
    cases h
    exact ⟨node_id, node, rfl, hnode, by simpa using hheld, rfl⟩
  | command c => cases h
  | start _ => cases h
  | view _ _ => cases h
  | opened _ _ => cases h
  | open_failed _ _ => cases h
  | release _ => cases h
  | destroyed _ _ => cases h
  | destroy_failed _ _ => cases h

theorem NodeKept.request {log : List MetadataCommand}
    (h : NodeKept noop stream_id log node) (hheld : node.held = none)
    (hleft : EpochsLeft stream_id (history noop log node.view) node) (destroy : Bool) :
    NodeKept noop stream_id log (node.request
      (node.next_epoch (history noop log node.view) stream_id) destroy) where
  view_le := h.view_le
  counter := by
    intro _ epoch hepoch row hrow
    cases hepoch
    exact (lt_next_epoch (h.counter hheld) hleft hrow).le

theorem nodeKept_of {log : List MetadataCommand}
    (hview : node.view ≤ log.length) (h : node.held.isSome = true ∨ node.epochs = none) :
    NodeKept noop stream_id log node where
  view_le := hview
  counter := by
    intro hheld epoch hepoch
    rcases h with h | h
    · rw [hheld] at h
      cases h
    · rw [h] at hepoch
      cases hepoch

theorem Kept.step (h : Kept noop stream_id s)
    (hkeeps : s.CountersKeepUp noop stream_id a) :
    Kept noop stream_id (s.step noop stream_id a) := by
  cases a with
  | command c =>
    intro id node hnode
    obtain ⟨hview, hcounter⟩ := h id node hnode
    have hsame : history noop (s.log ++ [c]) node.view =
        history noop s.log node.view := by
      unfold history Run.after
      rw [List.take_append_of_le_length hview]
    refine ⟨?_, ?_⟩
    · show node.view ≤ (s.log ++ [c]).length
      rw [List.length_append]
      omega
    · show node.held = none → ∀ epoch ∈ node.epochs, AtMost stream_id
        (history noop (s.log ++ [c]) node.view) epoch
      rw [hsame]
      exact hcounter
  | start node_id =>
    intro id node hnode
    rcases OrdMap.get_insert_cases hnode with ⟨rfl, rfl⟩ | ⟨-, hnode⟩
    · exact nodeKept_of (Nat.zero_le _) (.inr rfl)
    · exact h id node hnode
  | view node_id len =>
    dsimp only [Holders.step]
    by_cases hlen : len ≤ s.log.length
    · rw [if_pos hlen]
      refine h.update fun node hnode hkept => ⟨max_le hkept.view_le hlen, fun hheld => ?_⟩
      exact hkeeps node_id rfl node hnode hheld
    · rw [if_neg hlen]
      exact h
  | ensure_open node_id =>
    dsimp only [Holders.step]
    cases hrequested : s.requested noop stream_id (.ensure_open node_id) with
    | none => exact h
    | some epoch =>
      refine h.update fun node hnode hkept => ?_
      obtain ⟨id, node', hid, hnode', hheld, rfl⟩ := requested_eq hrequested
      cases hid
      cases hnode.symm.trans hnode'
      exact hkept.request hheld (hkeeps _ rfl node hnode) false
  | opened node_id task =>
    refine h.update fun node hnode hkept => ?_
    unfold NodeStreams.opened
    split
    · exact nodeKept_of hkept.view_le (.inl rfl)
    · exact ⟨hkept.view_le, hkept.counter⟩
    · exact hkept
  | open_failed node_id task =>
    refine h.update fun node hnode hkept => ?_
    unfold NodeStreams.open_failed
    split
    · exact ⟨hkept.view_le, hkept.counter⟩
    · exact nodeKept_of hkept.view_le (.inr rfl)
    · exact hkept
  | release node_id =>
    refine h.update fun node hnode hkept => ?_
    unfold NodeStreams.release
    split
    · exact hkept
    · exact nodeKept_of hkept.view_le (.inr rfl)
  | destroy node_id =>
    refine h.update fun node hnode hkept => ?_
    obtain ⟨hleft, hshown⟩ := hkeeps node_id rfl node hnode
    unfold begin_destroy
    split
    · next epoch hheld => exact ⟨hkept.view_le, fun _ => hshown (by rw [hheld]; rfl)⟩
    · next epoch hheld hrequested =>
      obtain ⟨id, node', hid, hnode', -, rfl⟩ := requested_eq hrequested
      cases hid
      cases hnode.symm.trans hnode'
      exact hkept.request hheld hleft true
    · exact hkept
  | destroyed node_id task =>
    refine h.update fun node hnode hkept => ?_
    unfold NodeStreams.destroyed
    split
    · exact nodeKept_of hkept.view_le (.inr rfl)
    · exact hkept
  | destroy_failed node_id task =>
    refine h.update fun node hnode hkept => ?_
    unfold NodeStreams.destroy_failed
    split
    · exact nodeKept_of hkept.view_le (.inl rfl)
    · exact hkept

theorem Kept.opensAbove (h : Kept noop stream_id s)
    (hkeeps : s.CountersKeepUp noop stream_id a) :
    s.OpensAbove noop stream_id a := by
  intro node_id hid node hnode epoch hepoch row hrow _ _
  obtain ⟨id, node', hid', hnode', hheld, rfl⟩ := requested_eq hepoch
  cases hid.symm.trans hid'
  cases hnode.symm.trans hnode'
  have hleft : EpochsLeft stream_id (s.seen noop node) node := by
    have hstep := hkeeps node_id hid node hnode
    cases a with
    | ensure_open _ => exact hstep
    | destroy _ => exact hstep.1
    | command c => cases hepoch
    | start _ => cases hepoch
    | view _ _ => cases hepoch
    | opened _ _ => cases hepoch
    | open_failed _ _ => cases hepoch
    | release _ => cases hepoch
    | destroyed _ _ => cases hepoch
    | destroy_failed _ _ => cases hepoch
  have hlt := lt_next_epoch ((h node_id node hnode).counter hheld) hleft hrow
  refine ⟨hlt, fun landed node_epoch hlanded expired message => open_not_fenced hlanded ?_ _ _ _⟩
  have hsmall := next_epoch_lt hleft
  rw [asI64, wrapI64_eq (by omega) (by omega)]
  exact hlt

/-- In every history whose counters keep up, an open on a view that shows the stream closed and not
transferring asks for a higher epoch, and is not refused for it if nobody has touched the stream
since. -/
theorem opens_above_over_runs (noop stream_id : ℕ) (steps : List Step)
    (hkeeps : Run.EachStep (Holders.step noop stream_id) {} steps
      (CountersKeepUp noop stream_id)) :
    Run.EachStep (Holders.step noop stream_id) {} steps
      (OpensAbove noop stream_id) := by
  have hkept := Run.always_of_eachStep (P := Kept noop stream_id)
    (fun _ _ hnode => by cases hnode) (fun s a hs hq => hs.step hq) hkeeps
  exact fun i a ha => (hkept i).opensAbove (hkeeps i a ha)

/-- Two nodes that see a stream that was never opened. -/
def two_nodes : List Step :=
  [.command (.registerNode 1 0 "a" 1 .empty "wal"), .command (.registerNode 2 0 "b" 1 .empty "wal"),
    .command (.createStream ⟨1, 0⟩), .start 1, .start 2, .view 1 3, .view 2 3]

/-- Both ask for epoch 1, and node 2 gets it. -/
def raced : List Step :=
  two_nodes ++ [.ensure_open 1, .ensure_open 2, .command (.openStream ⟨2, 0⟩ 0 1), .opened 2 0,
    .command (.openStream ⟨1, 0⟩ 0 1), .open_failed 1 0, .release 2,
    .command (.closeStream ⟨2, 0⟩ 0 1)]

/-- Node 1 sees the stream closed again and asks for epoch 2. -/
theorem opens_above_after_race :
    let steps := raced ++ [.view 1 6, .ensure_open 1]
    Run.EachStep (Holders.step 1000 0) {} steps (CountersKeepUp 1000 0) ∧
      OpensAbove 1000 0 (Run.after (Holders.step 1000 0) {} steps 16) (.ensure_open 1) := by
  intro steps
  have hkeeps : Run.EachStep (Holders.step 1000 0) {} steps (CountersKeepUp 1000 0) := by
    decide +kernel
  exact ⟨hkeeps, opens_above_over_runs 1000 0 steps hkeeps 16 _ rfl⟩

/-- Node 1 sees the stream closed at epoch 2, and its counter, left by a failed open, makes it ask
for epoch 2. -/
theorem open_asks_for_expired_epoch :
    let steps := raced ++ [.view 2 6, .ensure_open 2, .command (.openStream ⟨2, 0⟩ 0 2), .opened 2 0,
      .release 2, .command (.closeStream ⟨2, 0⟩ 0 2), .view 1 8]
    let s := Run.run (Holders.step 1000 0) {} steps
    (s.nodes.get 1).map (fun node => ((s.seen 1000 node).streams.get 0).map fun row =>
        (row.epoch, row.state)) = some (some (2, .closed)) ∧
      (s.nodes.get 1).map (fun node => (s.seen 1000 node).pending_transfers.get 0) = some none ∧
      s.requested 1000 0 (.ensure_open 1) = some 2 ∧
      (apply 1000 (history 1000 s.log s.log.length) (.openStream ⟨1, 0⟩ 0 2)).2 =
        .error (.streamFenced 0 2 "stream 0 epoch 2 already used") := by
  decide +kernel

end Holders

end PicoMq.Server
