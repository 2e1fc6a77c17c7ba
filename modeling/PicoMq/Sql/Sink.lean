import PicoMq.Metadata.History
import PicoMq.Sql.Store

/-!
# The SQL command sink

The cold start, the tailer, the snapshot task and the flusher of a node. Each is a state machine
whose steps are the points where another task or node can act in between.
-/

namespace PicoMq.Sql

open Metadata

/-! ## Rows, batches and views -/

/-- Encodings of batches and snapshots, with decoding the inverse of encoding. For the bytes that nodes
write, `Metadata.Codec.decode_encode_batch` proves it of all batches whose lists and strings have
fewer than `2 ^ 32` elements; longer ones are not modelled here. -/
structure Codec (noop : ℕ) (Payload : Type) where
  encode_batch : List MetadataCommand → Payload
  decode_batch : Payload → Except String (List MetadataCommand)
  encode : MetadataState → Payload
  decode : Payload → Except String MetadataState
  decode_encode_batch : ∀ commands, decode_batch (encode_batch commands) = .ok commands
  decode_encode : ∀ commands,
    decode (encode (Run.run (step noop) {} commands)) =
      .ok (Run.run (step noop) {} commands)

/-- The apply outcomes of one log row, in batch order. -/
abbrev BatchResults := List (Except MetadataError MetadataResult)

/-- The state after the commands of a batch, with a result for each. -/
def apply_batch (noop : ℕ) (state : MetadataState) :
    List MetadataCommand → MetadataState × BatchResults
  | [] => (state, [])
  | command :: commands =>
    let (state, result) := apply noop state command
    let (state, results) := apply_batch noop state commands
    (state, result :: results)

/-- An immutable view: the state and how far the log is applied to it. -/
structure MetadataView where
  applied_index : ℕ
  state : MetadataState

/-- What a proposer is told of an applied command. -/
structure Proposed where
  applied_index : ℕ
  result : MetadataResult
deriving DecidableEq

/-- A queued proposal: the command, and the proposer that waits for its outcome. -/
structure ProposeRequest where
  command : MetadataCommand
  waiter : ℕ

/-- A drained batch; the number tells batches with equal commands apart. -/
structure Batch where
  id : ℕ
  requests : List ProposeRequest

def Batch.commands (batch : Batch) : List MetadataCommand := batch.requests.map (·.command)

/-- A row of the log, as it was appended: its index, and the batch it was encoded from. -/
structure Row where
  idx : ℕ
  batch : ℕ
  commands : List MetadataCommand

/-- What a batch's proposers are sent: the results of log index `index`, or an error; `view_index`
is the index published then. -/
structure Answer where
  batch : Batch
  index : Option ℕ
  replies : List (ℕ × Except MetadataError Proposed)
  view_index : ℕ

/-! ## Shared state -/

structure SqlSinkConfig where
  max_batch : ℕ := 256
  fetch_limit : ℕ := 1024
  queue_depth : ℕ := 4096
  snapshot_every : ℕ := 1024

/-- A result channel, made for the index `idx`. -/
structure Channel where
  serial : ℕ
  idx : ℕ
deriving DecidableEq

/-- Who waits for the results of an index. Once poisoned, nobody can. -/
structure Pending where
  poisoned : Bool := false
  map : OrdMap ℕ Channel := .empty

/-- The state the tasks share. `inbox` holds what was sent on a channel. -/
structure Shared where
  view : MetadataView
  pending : Pending := {}
  last_seen : ℕ
  inbox : Channel → Option BatchResults := fun _ => none
  next_channel : ℕ := 0

variable (shared : Shared)

def Shared.see (idx : ℕ) : Shared :=
  { shared with last_seen := max shared.last_seen idx }

def Shared.publish (view : MetadataView) : Shared := { shared with view := view }

/-- Replaces the registrations. -/
def Shared.register (map : OrdMap ℕ Channel) : Shared :=
  { shared with pending := { shared.pending with map := map } }

/-- Drops every registration and refuses later ones. -/
def Shared.poison : Shared :=
  { shared with pending := { poisoned := true, map := .empty } }

def Shared.send (channel : Channel) (results : BatchResults) : Shared :=
  { shared with inbox := Function.update shared.inbox channel (some results) }

section Tasks

variable {Payload : Type} {noop : ℕ} (codec : Codec noop Payload)

/-! ## Cold start -/

inductive SqlSinkError where
  | store (error : StoreError)
  | snapshot (error : String)
  | corruptLog (idx : ℕ) (error : String)
  | truncatedWithoutSnapshot (idx : ℕ)
deriving DecidableEq

/-- What a cold start has replayed, and the snapshot it started from. -/
structure Replay where
  state : MetadataState
  applied : ℕ
  snapshot_base : ℕ

/-- How far a cold start has come. -/
inductive Opening (Payload : Type) where
  | load
  | fetch (replay : Replay)
  | rows (replay : Replay) (rows : List (ℕ × Payload))
  | reload (replay : Replay) (idx : ℕ)

inductive Opened (Payload : Type) where
  | running (next : Opening Payload)
  | done (replay : Replay)
  | failed (error : SqlSinkError)

def install (idx : ℕ) (payload : Payload) : Opened Payload :=
  match codec.decode payload with
  | .ok state => .running (.fetch ⟨state, idx, idx⟩)
  | .error error => .failed (.snapshot error)

variable (config : SqlSinkConfig)

def open_step (fault : Option Fault) (store : MetaStore Payload) :
    Opening Payload → Opened Payload
  | .load =>
    match read fault (.ok store.load_snapshot) with
    | .error error => .failed (.store error)
    | .ok none => .running (.fetch ⟨{}, 0, 0⟩)
    | .ok (some (idx, payload)) => install codec idx payload
  | .fetch replay =>
    match read fault (store.fetch_after replay.applied config.fetch_limit) with
    | .error error => .failed (.store error)
    | .ok [] => .done replay
    | .ok rows => .running (.rows replay rows)
  | .rows replay [] => .running (.fetch replay)
  | .rows replay ((idx, payload) :: rows) =>
    if replay.applied + 1 < idx then
      -- another node snapshotted and truncated past this one
      .running (.reload replay idx)
    else
      match codec.decode_batch payload with
      | .error error => .failed (.corruptLog idx error)
      | .ok commands =>
        let state := (apply_batch noop replay.state commands).1
        .running (.rows { replay with state := state, applied := idx } rows)
  | .reload _ idx =>
    match read fault (.ok store.load_snapshot) with
    | .error error => .failed (.store error)
    | .ok none => .failed (.truncatedWithoutSnapshot idx)
    | .ok (some (snap_idx, payload)) => install codec snap_idx payload

/-! ## Tailer -/

/-- Where the tailer stands. From `seen` on, the row at the applied index is being handed out. -/
inductive TailerPc (Payload : Type) where
  | fetch
  | emptyTail
  | rows (rows : List (ℕ × Payload))
  | restore
  | restoreSeen (snap_idx : ℕ) (state : MetadataState)
  | restorePublish (snap_idx : ℕ) (state : MetadataState)
  | restoreRetain (snap_idx : ℕ) (state : MetadataState)
  | seen (results : BatchResults) (rows : List (ℕ × Payload))
  | publish (results : BatchResults) (rows : List (ℕ × Payload))
  | deliver (results : BatchResults) (rows : List (ℕ × Payload))
  | send (waiter : Channel) (results : BatchResults) (rows : List (ℕ × Payload))
  | halted

/-- The tailer's own state and how far the log is applied to it. -/
structure Tailer (Payload : Type) where
  state : MetadataState
  applied : ℕ
  pc : TailerPc Payload := .fetch

/-- Whether the tailer has taken the sender of a channel and not used it yet. -/
def Tailer.holds (tailer : Tailer Payload) (channel : Channel) : Bool :=
  match tailer.pc with
  | .send waiter _ _ => decide (waiter = channel)
  | _ => false

/-- What a step of the tailer leads to, and the view it published. -/
structure TailerStep (Payload : Type) where
  shared : Shared
  tailer : Tailer Payload
  published : Option MetadataView := none

/-- The tailer stops for good. -/
def halt (shared : Shared) (tailer : Tailer Payload) : TailerStep Payload :=
  { shared := shared.poison, tailer := { tailer with pc := .halted } }

/-- One step of `tailer_task`, `restore_from_snapshot` included. -/
def tailer_step (fault : Option Fault) (store : MetaStore Payload)
    (shared : Shared) (tailer : Tailer Payload) : TailerStep Payload :=
  match tailer.pc with
  | .fetch =>
    match read fault (store.fetch_after tailer.applied config.fetch_limit) with
    | .error _ => { shared, tailer }
    | .ok [] => { shared, tailer := { tailer with pc := .emptyTail } }
    | .ok rows => { shared, tailer := { tailer with pc := .rows rows } }
  | .emptyTail =>
    -- nothing new, or the rows were folded into a snapshot
    match read fault (.ok store.snapshot_idx) with
    | .ok (some snap_idx) =>
      if tailer.applied < snap_idx then { shared, tailer := { tailer with pc := .restore } }
      else { shared, tailer := { tailer with pc := .fetch } }
    | _ => { shared, tailer := { tailer with pc := .fetch } }
  | .rows [] => { shared, tailer := { tailer with pc := .fetch } }
  | .rows ((idx, payload) :: rows) =>
    if tailer.applied + 1 < idx then { shared, tailer := { tailer with pc := .restore } }
    else
      match codec.decode_batch payload with
      | .error _ => halt shared tailer
      | .ok commands =>
        let (state, results) := apply_batch noop tailer.state commands
        { shared, tailer := { state := state, applied := idx, pc := .seen results rows } }
  | .restore =>
    match read fault (.ok store.load_snapshot) with
    | .error _ => { shared, tailer := { tailer with pc := .fetch } }
    | .ok none => halt shared tailer
    | .ok (some (snap_idx, payload)) =>
      if snap_idx ≤ tailer.applied then halt shared tailer
      else
        match codec.decode payload with
        | .error _ => halt shared tailer
        | .ok state => { shared, tailer := { tailer with pc := .restoreSeen snap_idx state } }
  | .restoreSeen snap_idx state =>
    { shared := shared.see snap_idx, tailer := { tailer with pc := .restorePublish snap_idx state } }
  | .restorePublish snap_idx state =>
    { shared := shared.publish ⟨snap_idx, state⟩
      tailer := { tailer with pc := .restoreRetain snap_idx state }
      published := some ⟨snap_idx, state⟩ }
  | .restoreRetain snap_idx state =>
    { shared := shared.register (shared.pending.map.retain fun idx => decide (snap_idx < idx))
      tailer := { state := state, applied := snap_idx } }
  | .seen results rows =>
    { shared := shared.see tailer.applied, tailer := { tailer with pc := .publish results rows } }
  | .publish results rows =>
    { shared := shared.publish ⟨tailer.applied, tailer.state⟩
      tailer := { tailer with pc := .deliver results rows }
      published := some ⟨tailer.applied, tailer.state⟩ }
  | .deliver results rows =>
    match shared.pending.map.get tailer.applied with
    | some waiter =>
      { shared := shared.register (shared.pending.map.remove tailer.applied)
        tailer := { tailer with pc := .send waiter results rows } }
    | none => { shared, tailer := { tailer with pc := .rows rows } }
  | .send waiter results rows =>
    { shared := shared.send waiter results, tailer := { tailer with pc := .rows rows } }
  | .halted => { shared, tailer }

/-! ## Snapshot task -/

inductive SnapshotPc where
  | waiting (last_snapshot : ℕ)
  | store (last_snapshot : ℕ) (view : MetadataView)
  | truncate (applied : ℕ)

def snapshot_step (fault : Option Fault) (store : MetaStore Payload)
    (view : MetadataView) : SnapshotPc → MetaStore Payload × SnapshotPc
  | .waiting last_snapshot =>
    if config.snapshot_every ≠ 0 ∧ last_snapshot + config.snapshot_every ≤ view.applied_index then
      (store, .store last_snapshot view)
    else (store, .waiting last_snapshot)
  | .store last_snapshot view =>
    let done := call fault store (·.store_snapshot view.applied_index (codec.encode view.state))
    match done.answer with
    | .ok () => (done.store, .truncate view.applied_index)
    | .error _ => (done.store, .waiting last_snapshot)
  | .truncate applied =>
    ((call fault store (·.truncate_log applied)).store, .waiting applied)

/-! ## Flusher -/

/-- Where the flusher stands. From `load` on, it is inside `commit_batch`. -/
inductive FlusherPc where
  | recv
  | gather (requests : List ProposeRequest)
  | load (batch : Batch)
  | register (batch : Batch) (next : ℕ)
  | append (batch : Batch) (next : ℕ) (rx : Channel)
  | await (batch : Batch) (next : ℕ) (rx : Channel)
  | lost (batch : Batch) (next : ℕ)
  | refresh (batch : Batch)
  | unregister (batch : Batch) (next : ℕ) (error : StoreError)

/-- What a step of the flusher leads to, the row it appended and what it answered. -/
structure FlusherStep (Payload : Type) where
  store : MetaStore Payload
  shared : Shared
  queue : List ProposeRequest
  pc : FlusherPc
  appended : Option Row := none
  answered : Option Answer := none

/-- Every waiter gets the same error. -/
def refuse (batch : Batch) (error : MetadataError) : Answer where
  batch := batch
  index := none
  replies := batch.requests.map fun request => (request.waiter, .error error)
  view_index := shared.view.applied_index

/-- Every waiter is told that the outcome is unknown. -/
def unavailable (batch : Batch) (message : String) : Answer :=
  refuse shared batch (.unavailable message)

/-- Every waiter is told that the sink is broken. -/
def fail_all (batch : Batch) (message : String) : Answer :=
  refuse shared batch (.unexpected message)

def fan_out (batch : Batch) (next : ℕ) (results : BatchResults) : Answer where
  batch := batch
  index := some next
  replies := (batch.requests.zip results).map fun (request, result) =>
    (request.waiter, result.map fun result => ⟨next, result⟩)
  view_index := shared.view.applied_index

/-- One step of `flusher_task`, `commit_batch` included. -/
def flusher_step (fault : Option Fault) (fresh : ℕ)
    (store : MetaStore Payload) (shared : Shared) (tailer : Tailer Payload)
    (queue : List ProposeRequest) : FlusherPc → FlusherStep Payload
  | .recv =>
    match queue with
    | [] => { store, shared, queue, pc := .recv }
    | first :: queue => { store, shared, queue, pc := .gather [first] }
  | .gather requests =>
    match queue with
    | request :: queue' =>
      if requests.length < config.max_batch then
        { store, shared, queue := queue', pc := .gather (requests ++ [request]) }
      else { store, shared, queue, pc := .load ⟨fresh, requests⟩ }
    | [] => { store, shared, queue, pc := .load ⟨fresh, requests⟩ }
  | .load batch => { store, shared, queue, pc := .register batch (shared.last_seen + 1) }
  | .register batch next =>
    if shared.pending.poisoned then
      { store, shared, queue, pc := .recv
        answered := some (fail_all shared batch "metadata log is poisoned (corrupt row)") }
    else
      let rx : Channel := ⟨shared.next_channel, next⟩
      { store, queue, pc := .append batch next rx
        shared := { shared.register (shared.pending.map.insert next rx) with
          next_channel := shared.next_channel + 1 } }
  | .append batch next rx =>
    let done := call fault store (·.append next (codec.encode_batch batch.commands))
    { store := done.store, shared, queue
      pc :=
        match done.answer with
        | .ok true => .await batch next rx
        | .ok false => .lost batch next
        | .error error => .unregister batch next error
      appended := if done.executed = some true then some ⟨next, batch.id, batch.commands⟩ else none }
  | .await batch next rx =>
    match shared.inbox rx with
    | some results =>
      { store, shared, queue, pc := .recv, answered := some (fan_out shared batch next results) }
    | none =>
      if shared.pending.map.get next = some rx ∨ tailer.holds rx then
        { store, shared, queue, pc := .await batch next rx }
      else if shared.pending.poisoned then
        { store, shared, queue, pc := .recv
          answered := some (fail_all shared batch "metadata log is poisoned (corrupt row)") }
      else
        { store, shared, queue, pc := .recv
          answered := some (unavailable shared batch
            ("the write committed, but another node's snapshot covered it before " ++
              "this node applied it, so its result is unknown")) }
  | .lost batch next =>
    { store, shared := shared.register (shared.pending.map.remove next), queue
      pc := .refresh batch }
  | .refresh batch =>
    match read fault (.ok store.last_idx) with
    | .ok last => { store, shared := shared.see last, queue, pc := .load batch }
    | .error error =>
      { store, shared, queue, pc := .recv
        answered := some (unavailable shared batch
          s!"refreshing log tail failed: {error.display}") }
  | .unregister batch next error =>
    { store, shared := shared.register (shared.pending.map.remove next), queue, pc := .recv
      answered := some (unavailable shared batch s!"append failed: {error.display}") }

end Tasks

end PicoMq.Sql
