import PicoMq.Sql.Sink

/-!
# Nodes sharing one metadata store

A run is a list of actions: a node starts, crashes, takes one step of its cold start or of one of
its tasks, or queues a proposal.
-/

namespace PicoMq.Sql

open Metadata

/-- A running sink: the shared state, its three tasks and the propose queue. -/
structure SqlSink (Payload : Type) where
  shared : Shared
  tailer : Tailer Payload
  snapshotter : SnapshotPc
  flusher : FlusherPc := .recv
  queue : List ProposeRequest := []

def SqlSink.start {Payload : Type} (replay : Replay) : SqlSink Payload where
  shared := { view := ⟨replay.applied, replay.state⟩, last_seen := replay.applied }
  tailer := { state := replay.state, applied := replay.applied }
  snapshotter := .waiting replay.snapshot_base

/-- A node. `boot` is the number of its current incarnation. -/
inductive Node (Payload : Type) where
  | down
  | opening (boot : ℕ) (config : SqlSinkConfig) (pc : Opening Payload)
  | up (boot : ℕ) (config : SqlSinkConfig) (sink : SqlSink Payload)
  | failed (error : SqlSinkError)

/-- What a node can do, or what can happen to it. -/
inductive Action where
  | boot (config : SqlSinkConfig)
  | crash
  | opening (fault : Option Fault)
  | tailer (fault : Option Fault)
  | snapshotter (fault : Option Fault)
  | flusher (fault : Option Fault)
  | propose (request : ProposeRequest)

/-- The store and the node after an action, and what it appended, published and answered. -/
structure NodeStep (Payload : Type) where
  store : MetaStore Payload
  node : Node Payload
  appended : Option Row := none
  published : Option (ℕ × MetadataView) := none
  answered : Option Answer := none

structure Publication where
  node : ℕ
  boot : ℕ
  view : MetadataView

/-- The store and the nodes, with the rows appended, the views published and the answers given. -/
structure Cluster (Payload : Type) where
  store : MetaStore Payload := {}
  nodes : ℕ → Node Payload := fun _ => .down
  clock : ℕ := 0
  rows : List Row := []
  published : List Publication := []
  answers : List Answer := []

section Steps

variable {Payload : Type} (codec : Codec noop Payload)

/-- One action of a node. Incarnations and batches that begin in it get the number `clock`. -/
def node_step (clock : ℕ) (store : MetaStore Payload) (action : Action) (node : Node Payload) :
    NodeStep Payload :=
  match action, node with
  | .boot config, .down => { store, node := .opening clock config .load }
  | .boot config, .failed _ => { store, node := .opening clock config .load }
  | .crash, _ => { store, node := .down }
  | .opening fault, .opening boot config pc =>
    match open_step codec config fault store pc with
    | .running pc => { store, node := .opening boot config pc }
    | .failed error => { store, node := .failed error }
    | .done replay =>
      { store, node := .up boot config (.start replay)
        published := some (boot, ⟨replay.applied, replay.state⟩) }
  | .tailer fault, .up boot config sink =>
    let next := tailer_step codec config fault store sink.shared sink.tailer
    { store, node := .up boot config { sink with shared := next.shared, tailer := next.tailer }
      published := next.published.map (boot, ·) }
  | .snapshotter fault, .up boot config sink =>
    let (store, snapshotter) :=
      snapshot_step codec config fault store sink.shared.view sink.snapshotter
    { store, node := .up boot config { sink with snapshotter := snapshotter } }
  | .flusher fault, .up boot config sink =>
    let next := flusher_step codec config fault clock store sink.shared sink.tailer sink.queue
      sink.flusher
    { store := next.store
      node := .up boot config
        { sink with shared := next.shared, queue := next.queue, flusher := next.pc }
      appended := next.appended, answered := next.answered }
  | .propose request, .up boot config sink =>
    if sink.queue.length < config.queue_depth then
      { store, node := .up boot config { sink with queue := sink.queue ++ [request] } }
    else { store, node := .up boot config sink }
  | _, node => { store, node }

def Cluster.step (cluster : Cluster Payload) (input : ℕ × Action) : Cluster Payload :=
  let next := node_step codec cluster.clock cluster.store input.2 (cluster.nodes input.1)
  { store := next.store
    nodes := Function.update cluster.nodes input.1 next.node
    clock := cluster.clock + 1
    rows := cluster.rows ++ next.appended.toList
    published := cluster.published ++
      (next.published.map fun (boot, view) => ⟨input.1, boot, view⟩).toList
    answers := cluster.answers ++ next.answered.toList }

/-- The cluster after a list of actions, from an empty store with all nodes down. -/
def Cluster.run (inputs : List (ℕ × Action)) : Cluster Payload :=
  Run.run (Cluster.step codec) {} inputs

/-- Whether a cold start that ends here has replayed up to the last index of the store. -/
def opens_at_tip (store : MetaStore Payload) (action : Action) (node : Node Payload) : Bool :=
  match action, node with
  | .opening fault, .opening _ config (.fetch replay) =>
    match read fault (store.fetch_after replay.applied config.fetch_limit) with
    | .ok [] => decide (store.last_idx ≤ replay.applied)
    | _ => true
  | _, _ => true

end Steps

/-! ## Readings -/

section Readings

variable {Payload : Type}

def Node.boot : Node Payload → Option ℕ
  | .opening boot _ _ => some boot
  | .up boot _ _ => some boot
  | _ => none

def Node.shown : Node Payload → Option MetadataView
  | .up _ _ sink => some sink.shared.view
  | _ => none

/-- The batch that the flusher has drained and may still append. -/
def FlusherPc.unsent : FlusherPc → Option ℕ
  | .load batch => some batch.id
  | .register batch _ => some batch.id
  | .append batch _ _ => some batch.id
  | .lost batch _ => some batch.id
  | .refresh batch => some batch.id
  | _ => none

/-- The batch that a node has drained and may still append. -/
def Node.unsent : Node Payload → Option ℕ
  | .up _ _ sink => sink.flusher.unsent
  | _ => none

end Readings

end PicoMq.Sql
