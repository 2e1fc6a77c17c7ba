import PicoMq.Metadata.History

/-!
# The epochs that nodes open a stream with

An open takes the next epoch of the node's counter, or, if there is none, the one after the epoch in
its view; a failed open leaves the counter where it is. The command lands between the request and
the outcome, or never.
-/

namespace PicoMq.Server

open Metadata

/-- A request to the engine that has not ended. -/
inductive OpenTask where
  /-- The engine opens the stream, for `ensure_open` or for `destroy`. -/
  | opening (epoch : ℕ) (destroy : Bool)
  /-- The engine destroys the stream that was opened at this epoch. -/
  | destroying (epoch : ℕ)
deriving DecidableEq, Repr

/-- What `Streams` of one node knows of the stream. -/
structure NodeStreams where
  /-- The commands that the node's view covers. -/
  view : ℕ := 0
  /-- The entry of `open`: the epoch of the stream that is held. -/
  held : Option ℕ := none
  /-- The entry of `epochs`. -/
  epochs : Option ℕ := none
  tasks : List OpenTask := []
deriving DecidableEq, Repr

namespace NodeStreams

variable (self : NodeStreams)

/-- One above the epoch it remembers, or else the one in its view. -/
def next_epoch (view : MetadataState) (stream_id : ℕ) : ℕ :=
  match self.epochs with
  | some epoch => epoch + 1
  | none => ((view.streams.get stream_id).elim 0 fun row => row.to_stream_metadata.epoch) + 1

def request (epoch : ℕ) (destroy : Bool) : NodeStreams :=
  { self with epochs := some epoch, tasks := self.tasks ++ [.opening epoch destroy] }

def hold (epoch : ℕ) : NodeStreams :=
  { self with epochs := some epoch, held := some epoch }

/-- `open_lock` lets one `ensure_open` through at a time. -/
def locked : Bool :=
  self.tasks.any fun
    | .opening _ destroy => !destroy
    | .destroying _ => false

def release : NodeStreams :=
  match self.held with
  | none => self
  | some _ => { self with held := none, epochs := none }

/-- The engine has opened the stream: it is held, or destroyed next. -/
def opened (task : ℕ) : NodeStreams :=
  match self.tasks[task]? with
  | some (.opening epoch false) => { self with tasks := self.tasks.eraseIdx task }.hold epoch
  | some (.opening epoch true) => { self with tasks := self.tasks.set task (.destroying epoch) }
  | _ => self

/-- A failed destroy forgets the epoch; a failed open does not. -/
def open_failed (task : ℕ) : NodeStreams :=
  match self.tasks[task]? with
  | some (.opening _ false) => { self with tasks := self.tasks.eraseIdx task }
  | some (.opening _ true) => { self with tasks := self.tasks.eraseIdx task, epochs := none }
  | _ => self

def destroyed (task : ℕ) : NodeStreams :=
  match self.tasks[task]? with
  | some (.destroying _) => { self with tasks := self.tasks.eraseIdx task, epochs := none }
  | _ => self

def destroy_failed (task : ℕ) : NodeStreams :=
  match self.tasks[task]? with
  | some (.destroying epoch) => { self with tasks := self.tasks.eraseIdx task }.hold epoch
  | _ => self

end NodeStreams

/-- The metadata log, and the nodes that may hold one stream. -/
structure Holders where
  log : List MetadataCommand := []
  nodes : OrdMap ℤ NodeStreams := .empty

namespace Holders

inductive Step where
  /-- A command lands in the log, of a node or of an operator. -/
  | command (c : MetadataCommand)
  /-- A node starts, without memory. -/
  | start (node_id : ℤ)
  /-- The view of a node moves up to the first `len` commands. -/
  | view (node_id : ℤ) (len : ℕ)
  | ensure_open (node_id : ℤ)
  | opened (node_id : ℤ) (task : ℕ)
  | open_failed (node_id : ℤ) (task : ℕ)
  | release (node_id : ℤ)
  | destroy (node_id : ℤ)
  | destroyed (node_id : ℤ) (task : ℕ)
  | destroy_failed (node_id : ℤ) (task : ℕ)

variable (noop stream_id : ℕ)

variable (s : Holders)

/-- The metadata as the node sees it. -/
def seen (node : NodeStreams) : MetadataState := history noop s.log node.view

/-- The epoch that the step asks the engine to open the stream with, if it does. -/
def requested : Step → Option ℕ
  | .ensure_open node_id => do
    let node ← s.nodes.get node_id
    let view := s.seen noop node
    if node.held.isSome || node.locked || view.pending_transfers.contains_key stream_id then none
    else some (node.next_epoch view stream_id)
  | .destroy node_id => do
    let node ← s.nodes.get node_id
    if node.held.isSome then none
    else some (node.next_epoch (s.seen noop node) stream_id)
  | _ => none

/-- The node is changed, if it was started. -/
def update (node_id : ℤ) (f : NodeStreams → NodeStreams) : Holders :=
  match s.nodes.get node_id with
  | none => s
  | some node => { s with nodes := s.nodes.insert node_id (f node) }

/-- A destroy takes the stream that is held, or opens it first. -/
def begin_destroy (requested : Option ℕ) (node : NodeStreams) : NodeStreams :=
  match node.held, requested with
  | some epoch, _ => { node with held := none, tasks := node.tasks ++ [.destroying epoch] }
  | none, some epoch => node.request epoch true
  | none, none => node

def step (a : Step) : Holders :=
  match a with
  | .command c => { s with log := s.log ++ [c] }
  | .start node_id => { s with nodes := s.nodes.insert node_id {} }
  | .view node_id len =>
    if len ≤ s.log.length then
      s.update node_id fun node => { node with view := max node.view len }
    else s
  | .ensure_open node_id =>
    match s.requested noop stream_id a with
    | none => s
    | some epoch => s.update node_id fun node => node.request epoch false
  | .opened node_id task => s.update node_id (·.opened task)
  | .open_failed node_id task => s.update node_id (·.open_failed task)
  | .release node_id => s.update node_id NodeStreams.release
  | .destroy node_id => s.update node_id (begin_destroy (s.requested noop stream_id a))
  | .destroyed node_id task => s.update node_id (·.destroyed task)
  | .destroy_failed node_id task => s.update node_id (·.destroy_failed task)

def Step.node : Step → Option ℤ
  | .command _ => none
  | .start node_id => some node_id
  | .view node_id _ => some node_id
  | .ensure_open node_id => some node_id
  | .opened node_id _ => some node_id
  | .open_failed node_id _ => some node_id
  | .release node_id => some node_id
  | .destroy node_id => some node_id
  | .destroyed node_id _ => some node_id
  | .destroy_failed node_id _ => some node_id

/-! ## What opens should be -/

/-- An open on a view that shows the stream closed and not transferring asks for an epoch above the
one shown, and is not refused as expired if the row is the same where it lands. -/
def OpensAbove (a : Step) : Prop :=
  ∀ node_id ∈ a.node, ∀ node ∈ s.nodes.get node_id,
    ∀ epoch ∈ s.requested noop stream_id a,
      ∀ row ∈ (s.seen noop node).streams.get stream_id, row.state = .closed →
        (s.seen noop node).pending_transfers.get stream_id = none →
          row.epoch < epoch ∧
            ∀ (landed : MetadataState) (node_epoch : ℤ), landed.streams.get stream_id = some row →
              ∀ expired message, (apply noop landed
                (.openStream ⟨node_id, node_epoch⟩ stream_id (asI64 epoch))).2 ≠
                  .error (.streamFenced stream_id expired message)

/-! ## When they are -/

/-- The stream's epoch in a state is not above the counter. -/
def AtMost (stream_id : ℕ) (state : MetadataState) (epoch : ℕ) : Prop :=
  ∀ row ∈ state.streams.get stream_id, row.epoch ≤ epoch

instance (state : MetadataState) (epoch : ℕ) : Decidable (AtMost stream_id state epoch) :=
  inferInstanceAs (Decidable (∀ row ∈ _, _))

/-- No epoch that the next open is computed from is the greatest one. -/
def EpochsLeft (stream_id : ℕ) (view : MetadataState) (node : NodeStreams) : Prop :=
  (∀ epoch ∈ node.epochs, epoch < 2 ^ 63 - 1) ∧
    ∀ row ∈ view.streams.get stream_id, row.epoch < 2 ^ 63 - 1

instance (view : MetadataState) (node : NodeStreams) : Decidable (EpochsLeft stream_id view node) :=
  inferInstanceAs (Decidable ((∀ epoch ∈ _, _) ∧ ∀ row ∈ _, _))

/-- A node that does not hold the stream is shown no epoch above its counter, nor is one that begins
to destroy the stream it holds. -/
def CountersKeepUp (a : Step) : Prop :=
  ∀ node_id ∈ a.node, ∀ node ∈ s.nodes.get node_id,
    match a with
    | .view _ len => node.held = none → ∀ epoch ∈ node.epochs,
        AtMost stream_id (history noop s.log (max node.view len)) epoch
    | .ensure_open _ => EpochsLeft stream_id (s.seen noop node) node
    | .destroy _ => EpochsLeft stream_id (s.seen noop node) node ∧
        (node.held.isSome = true → ∀ epoch ∈ node.epochs,
          AtMost stream_id (s.seen noop node) epoch)
    | _ => True

instance : DecidablePred (s.CountersKeepUp noop stream_id)
  | .view n len => inferInstanceAs (Decidable (∀ id ∈ some n, ∀ node ∈ s.nodes.get id, _ →
      ∀ epoch ∈ node.epochs,
        AtMost stream_id (history noop s.log (max node.view len)) epoch))
  | .ensure_open n => inferInstanceAs (Decidable (∀ id ∈ some n, ∀ node ∈ s.nodes.get id,
      EpochsLeft stream_id (s.seen noop node) node))
  | .destroy n => inferInstanceAs (Decidable (∀ id ∈ some n, ∀ node ∈ s.nodes.get id,
      EpochsLeft stream_id (s.seen noop node) node ∧ (_ → ∀ epoch ∈ node.epochs,
        AtMost stream_id (s.seen noop node) epoch)))
  | .command _ | .start _ | .opened _ _ | .open_failed _ _ | .release _ | .destroyed _ _
  | .destroy_failed _ _ => .isTrue fun _ _ _ _ => trivial

end Holders

end PicoMq.Server
