import PicoMq.Library.SharedLog
import PicoMq.Sql.Cluster

/-!
# What the store and the nodes hold of the log

What the store holds of the list of all rows ever appended, and how each task's local data stands to
it.
-/

namespace PicoMq.Sql

open Metadata SharedLog

/-! ## States and results of the history -/

section History

variable (noop : ℕ) (rows : List Row)

/-- The state that the commands of the first `n` rows lead to. -/
def replayed (n : ℕ) : MetadataState :=
  Run.run (step noop) {} ((rows.take n).flatMap (·.commands))

/-- `state` is the state of the history at `idx`. -/
structure Reflects (idx : ℕ) (state : MetadataState) : Prop where
  le : idx ≤ rows.length
  eq : state = replayed noop rows idx

/-- `results` are the apply results of the row at `idx`. -/
def ResultsOf (idx : ℕ) (results : BatchResults) : Prop :=
  ∃ row, entry rows idx = some row ∧
    results = (apply_batch noop (replayed noop rows (idx - 1)) row.commands).2

/-- The batch is the row at `idx`, each reply is its command's result there, and the view shown to
the waiters has it. -/
structure Answer.Own (answer : Answer) (idx : ℕ) : Prop where
  occupies : entry rows idx = some ⟨idx, answer.batch.id, answer.batch.commands⟩
  replies : answer.replies.length = answer.batch.requests.length
  reply : ∀ j request, answer.batch.requests[j]? = some request →
    answer.replies[j]? = some (request.waiter,
      (apply noop (Run.run (step noop) (replayed noop rows (idx - 1))
        (answer.batch.commands.take j)) request.command).2.map fun result => ⟨idx, result⟩)
  visible : idx ≤ answer.view_index

end History

/-- What a step does to the batch still to be appended; `fresh` numbers a batch drained in it. -/
inductive SendStep (fresh : ℕ) (before : Option ℕ) (appended : Option Row) (after : Option ℕ) : Prop
  | kept (none_appended : appended = none) (unsent : after = before)
  | dropped (none_appended : appended = none) (unsent : after = none)
  | drained (none_appended : appended = none) (unsent : after = some fresh)
  | sent (row : Row) (row_appended : appended = some row) (unsent : before = some row.batch)
      (done : after = none)

section Invariants

variable {Payload : Type} {noop : ℕ} (codec : Codec noop Payload)
  (rows : List Row)

/-! ## Store -/

def encode_row (row : Row) : Payload := codec.encode_batch row.commands

/-- The store holds the history: the rows above the snapshot, and the state at the snapshot. -/
structure StoreHolds (store : MetaStore Payload) : Prop where
  log : Stores (encode_row codec) rows store.covered store.meta_log
  snapshot : ∀ idx payload, store.meta_snapshot = some (idx, payload) →
    payload = codec.encode (replayed noop rows idx)
  indexes : ∀ idx row, entry rows idx = some row → row.idx = idx

/-! ## Tasks -/

variable (low : ℕ)

/-- A cold start has replayed the history up to its applied index. -/
def OpeningInv : Opening Payload → Prop
  | .load => True
  | .fetch replay => Reflects noop rows replay.applied replay.state
  | .rows replay fetched =>
    Reflects noop rows replay.applied replay.state ∧
      Tail (encode_row codec) rows low replay.applied fetched
  | .reload replay _ => replay.applied < low

/-- What a step of a cold start leads to; it fails on store errors only. -/
def OpenedInv : Opened Payload → Prop
  | .running pc => OpeningInv codec rows low pc
  | .done replay => Reflects noop rows replay.applied replay.state
  | .failed error => ∃ cause, error = .store cause

/-- Where the tailer stands, against the index `shown` of the published view. -/
def TailerPcInv (shown applied : ℕ) : TailerPc Payload → Prop
  | .fetch => shown ≤ applied
  | .emptyTail => shown ≤ applied
  | .rows fetched => shown ≤ applied ∧ Tail (encode_row codec) rows low applied fetched
  | .restore => shown ≤ applied ∧ applied < low
  | .restoreSeen snap_idx state =>
    shown ≤ applied ∧ applied < snap_idx ∧ Reflects noop rows snap_idx state
  | .restorePublish snap_idx state =>
    shown ≤ applied ∧ applied < snap_idx ∧ Reflects noop rows snap_idx state
  | .restoreRetain snap_idx state => shown = snap_idx ∧ Reflects noop rows snap_idx state
  | .seen results fetched =>
    shown ≤ applied ∧ ResultsOf noop rows applied results ∧
      Tail (encode_row codec) rows low applied fetched
  | .publish results fetched =>
    shown ≤ applied ∧ ResultsOf noop rows applied results ∧
      Tail (encode_row codec) rows low applied fetched
  | .deliver results fetched =>
    shown = applied ∧ ResultsOf noop rows applied results ∧
      Tail (encode_row codec) rows low applied fetched
  | .send waiter results fetched =>
    shown = applied ∧ waiter.idx = applied ∧ ResultsOf noop rows applied results ∧
      Tail (encode_row codec) rows low applied fetched
  | .halted => False

/-- The tailer has applied the history up to its applied index. -/
structure TailerInv (shown : ℕ) (tailer : Tailer Payload) : Prop where
  reflects : Reflects noop rows tailer.applied tailer.state
  pc : TailerPcInv codec rows low shown tailer.applied tailer.pc

/-- The snapshot task stores states of the history, and truncates what the snapshot covers. -/
def SnapshotInv (noop : ℕ) : SnapshotPc → Prop
  | .waiting _ => True
  | .store _ view => Reflects noop rows view.applied_index view.state
  | .truncate applied => applied ≤ low

/-- The flusher tries no index beyond the next free one, and waits only for its own row. -/
def FlusherInv : FlusherPc → Prop
  | .register _ next => next ≤ rows.length + 1
  | .append _ next rx => next ≤ rows.length + 1 ∧ rx.idx = next
  | .await batch next rx =>
    rx.idx = next ∧ entry rows next = some ⟨next, batch.id, batch.commands⟩
  | _ => True

/-- The published view is of the history, nothing is poisoned, registrations are under their index,
and what was sent on a channel are the results of its index. -/
structure SharedInv (noop : ℕ) (shared : Shared) : Prop where
  view : Reflects noop rows shared.view.applied_index shared.view.state
  last_seen_le : shared.last_seen ≤ rows.length
  unpoisoned : shared.pending.poisoned = false
  registered : ∀ idx channel, shared.pending.map.get idx = some channel → channel.idx = idx
  delivered : ∀ channel results, shared.inbox channel = some results →
    channel.idx ≤ shared.view.applied_index ∧
      ResultsOf noop rows channel.idx results

/-! ## Steps -/

/-- What a step of the tailer keeps: the published view moves forward or not at all. -/
structure TailerStepInv (shown : MetadataView) (next : TailerStep Payload) : Prop where
  shared : SharedInv rows noop next.shared
  tailer : TailerInv codec rows low next.shared.view.applied_index next.tailer
  published : (next.published = none ∧ next.shared.view = shown) ∨
    (next.published = some next.shared.view ∧
      shown.applied_index ≤ next.shared.view.applied_index)

/-- What a step of the flusher keeps, the row it appended taken into the history. -/
structure FlusherStepInv (shown : MetadataView) (next : FlusherStep Payload) : Prop where
  store : StoreHolds codec (rows ++ next.appended.toList) next.store
  covered : next.store.covered = low
  shared : SharedInv (rows ++ next.appended.toList) noop next.shared
  view : next.shared.view = shown
  flusher : FlusherInv (rows ++ next.appended.toList) next.pc
  answered : ∀ answer ∈ next.answered, ∀ idx ∈ answer.index,
    answer.Own noop (rows ++ next.appended.toList) idx

/-! ## Nodes -/

structure SinkInv (sink : SqlSink Payload) : Prop where
  shared : SharedInv rows noop sink.shared
  tailer : TailerInv codec rows low sink.shared.view.applied_index sink.tailer
  snapshotter : SnapshotInv rows low noop sink.snapshotter
  flusher : FlusherInv rows sink.flusher

def NodeInv : Node Payload → Prop
  | .down => True
  | .opening _ _ pc => OpeningInv codec rows low pc
  | .up _ _ sink => SinkInv codec rows low sink
  | .failed error => ∃ cause, error = .store cause

/-- What a node's action does to its incarnation and to the view it shows. -/
inductive ViewStep (clock : ℕ) (store : MetaStore Payload) (action : Action)
    (node : Node Payload) (next : NodeStep Payload) : Prop
  | same (none_published : next.published = none) (boot : next.node.boot = node.boot)
      (shown : next.node.shown = node.shown)
  | ended (none_published : next.published = none) (boot : next.node.boot = none)
      (shown : next.node.shown = none)
  | began (none_published : next.published = none) (boot : next.node.boot = some clock)
      (shown : next.node.shown = none)
  | started (boot : ℕ) (view : MetadataView) (published : next.published = some (boot, view))
      (boot_before : node.boot = some boot) (shown_before : node.shown = none)
      (boot_after : next.node.boot = some boot) (shown_after : next.node.shown = some view)
      (at_tip : opens_at_tip store action node = true → store.last_idx ≤ view.applied_index)
  | forward (boot : ℕ) (old view : MetadataView) (published : next.published = some (boot, view))
      (boot_before : node.boot = some boot) (shown_before : node.shown = some old)
      (boot_after : next.node.boot = some boot) (shown_after : next.node.shown = some view)
      (le : old.applied_index ≤ view.applied_index)

/-- What a node's action keeps, the row it appended taken into the history. -/
structure NodeStepInv (next : NodeStep Payload) : Prop where
  store : StoreHolds codec (rows ++ next.appended.toList) next.store
  covered : low ≤ next.store.covered
  node : NodeInv codec (rows ++ next.appended.toList) next.store.covered next.node
  published : ∀ publication ∈ next.published,
    Reflects noop (rows ++ next.appended.toList) publication.2.applied_index
      publication.2.state
  answered : ∀ answer ∈ next.answered, ∀ idx ∈ answer.index,
    answer.Own noop (rows ++ next.appended.toList) idx

end Invariants

/-! ## Cluster -/

/-- The store holds the history, and every node and all that was published or answered keeps to it.
-/
structure Cluster.Inv {Payload : Type} {noop : ℕ} (codec : Codec noop Payload)
    (cluster : Cluster Payload) : Prop where
  store : StoreHolds codec cluster.rows cluster.store
  nodes : ∀ n, NodeInv codec cluster.rows cluster.store.covered (cluster.nodes n)
  published : ∀ publication ∈ cluster.published,
    Reflects noop cluster.rows publication.view.applied_index publication.view.state
  answers : ∀ answer ∈ cluster.answers, ∀ idx ∈ answer.index,
    answer.Own noop cluster.rows idx

/-- A drained batch is a row, or still to be sent by one node, or neither; its number is past. -/
structure Cluster.BatchInv {Payload : Type} (cluster : Cluster Payload) : Prop where
  rows_nodup : (cluster.rows.map (·.batch)).Nodup
  rows_past : ∀ row ∈ cluster.rows, row.batch < cluster.clock
  unsent_past : ∀ n, ∀ id ∈ (cluster.nodes n).unsent, id < cluster.clock
  unsent_no_row : ∀ n, ∀ id ∈ (cluster.nodes n).unsent, id ∉ cluster.rows.map (·.batch)
  unsent_one : ∀ n m, ∀ id ∈ (cluster.nodes n).unsent, id ∈ (cluster.nodes m).unsent → n = m

/-- What incarnations published is past, and one that is still opening has published nothing. -/
structure Cluster.BootInv {Payload : Type} (cluster : Cluster Payload) : Prop where
  boot_past : ∀ n, ∀ boot ∈ (cluster.nodes n).boot, boot < cluster.clock
  published_past : ∀ p ∈ cluster.published, p.boot < cluster.clock
  opening_silent : ∀ p ∈ cluster.published, (cluster.nodes p.node).boot = some p.boot →
    (cluster.nodes p.node).shown ≠ none

/-- A publication of the same node, in any incarnation. -/
def same_node (n _boot : ℕ) (p : Publication) : Prop := p.node = n

/-- A publication of the same incarnation of the same node. -/
def same_boot (n boot : ℕ) (p : Publication) : Prop := p.node = n ∧ p.boot = boot

/-- Earlier publications of a node's incarnation are not ahead of its view, and came in order. -/
structure Cluster.OrderInv {Payload : Type} (earlier : ℕ → ℕ → Publication → Prop)
    (cluster : Cluster Payload) : Prop where
  shown : ∀ p ∈ cluster.published, ∀ n boot view, (cluster.nodes n).boot = some boot →
    (cluster.nodes n).shown = some view → earlier n boot p →
    p.view.applied_index ≤ view.applied_index
  ordered : cluster.published.Pairwise fun p q =>
    earlier q.node q.boot p → p.view.applied_index ≤ q.view.applied_index

end PicoMq.Sql
