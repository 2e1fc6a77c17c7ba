import Mathlib.Data.Finset.Card
import PicoMq.Metadata.History

/-!
# Failover

The lease holder fences nodes that stopped heartbeating, and measures silence in its own heartbeats
as they land in the metadata log.
-/

namespace PicoMq.Server

open Metadata

/-! ## Durations -/

structure Duration where
  nanos : ℕ
deriving DecidableEq, Repr

namespace Duration

def from_millis (millis : ℕ) : Duration := ⟨millis * 1000000⟩

/-- Whole milliseconds; the rest is cut off. -/
def as_millis (d : Duration) : ℕ := d.nanos / 1000000

end Duration

def div_ceil (a b : ℕ) : ℕ := (a + (b - 1)) / b

/-! ## Liveness -/

/-- Whether `node` is still that node's current, unfenced incarnation. -/
def is_live (state : MetadataState) (node : Proposer) : Bool :=
  (state.nodes.get node.node_id).any fun row => row.epoch = node.node_epoch ∧ row.fenced = false

structure Liveness where
  beats : ℕ
  /-- Of a node as it was seen, the holder's heartbeat count at that time. -/
  since : OrdMap (ℤ ×ₗ ℤ ×ₗ ℕ) ℕ := .empty

namespace Liveness

def new (heartbeat_interval node_timeout : Duration) : Liveness where
  beats :=
    let beats := div_ceil node_timeout.as_millis (max heartbeat_interval.as_millis 1)
    max (if beats < 2 ^ 64 then beats else 2 ^ 64 - 1) 1

def forget (liveness : Liveness) : Liveness := { liveness with since := .empty }

def seen (row : NodeRow) : ℤ ×ₗ ℤ ×ₗ ℕ := toLex (row.node_id, toLex (row.epoch, row.heartbeats))

/-- Whether the view still shows the node of a key as it was. -/
def still (state : MetadataState) (key : ℤ ×ₗ ℤ ×ₗ ℕ) : Bool :=
  (state.nodes.get (ofLex key).1).any fun row =>
    (row.epoch, row.heartbeats) = ofLex (ofLex key).2

/-- One row of the scan: the clock starts for a new row, and reports it once it has run long enough.
-/
def observe (clock : ℕ) (acc : Liveness × List NodeRow) (row : NodeRow) :
    Liveness × List NodeRow :=
  let since := (acc.1.since.get (seen row)).getD clock
  let liveness := { acc.1 with since := acc.1.since.insert (seen row) since }
  (liveness, if clock - since ≥ liveness.beats then acc.2 ++ [row] else acc.2)

/-- Nodes that stayed silent for the timeout, as last seen. -/
def dead (liveness : Liveness) (state : MetadataState) (holder : Proposer) :
    Liveness × List NodeRow :=
  match state.nodes.get holder.node_id with
  | none => (liveness, [])
  | some row =>
    let clock := row.heartbeats
    let liveness := { liveness with since := liveness.since.retain (still state) }
    let rows := state.nodes.values.filter fun row =>
      row.node_id ≠ holder.node_id ∧ row.fenced = false
    rows.foldl (observe clock) (liveness, [])

end Liveness

/-! ## The loop -/

/-- Whether the node holds the lease, and how much of the log its view covers. -/
structure Tick where
  leading : Bool
  view : ℕ
deriving DecidableEq, Repr

section Loop

variable (noop : ℕ) (log : List MetadataCommand) (holder : Proposer)

/-- A round: the clocks after it, and the nodes to be fenced. -/
def tick (liveness : Liveness) (t : Tick) : Liveness × List NodeRow :=
  let state := history noop log t.view
  if !t.leading || !is_live state holder then (liveness.forget, [])
  else liveness.dead state holder

def clocks (liveness : Liveness) (ticks : List Tick) (k : ℕ) : Liveness :=
  Run.after (fun liveness t => (tick noop log holder liveness t).1) liveness ticks k

/-- The command that round `k` proposes for a node it reports. -/
def fence_of (row : NodeRow) : MetadataCommand :=
  .fenceNode holder row.node_id row.epoch row.heartbeats

/-- The loop, started with the timeouts of the node, reports `row` in a round with view `view`. -/
def Reports (heartbeat_interval node_timeout : Duration) (ticks : List Tick) (view : ℕ)
    (row : NodeRow) : Prop :=
  ∃ k t, ticks[k]? = some t ∧ t.view = view ∧
    row ∈ (tick noop log holder
      (clocks noop log holder (.new heartbeat_interval node_timeout) ticks k) t).2

end Loop

/-! ## Silence in the log -/

section Silence

variable (noop : ℕ) (log : List MetadataCommand)

/-- Command `i` of the log is an accepted heartbeat of the node, of whatever incarnation. -/
def Beats (n : ℤ) (i : ℕ) : Prop :=
  ∃ epoch, Accepted noop log i (.heartbeat ⟨n, epoch⟩)

/-- Command `i` of the log is an accepted heartbeat or registration of the node. -/
def Heard (n : ℤ) (i : ℕ) : Prop :=
  Beats noop log n i ∨ ∃ epoch http_address slots protocol_addresses wal,
    Accepted noop log i
      (.registerNode n epoch http_address slots protocol_addresses wal)

/-- The last time before command `j` that the log hears of the node is command `m`. -/
def LastHeard (n : ℤ) (j m : ℕ) : Prop :=
  Heard noop log n m ∧ m < j ∧ ∀ m', m < m' → m' < j → ¬Heard noop log n m'

/-- At least `count` accepted heartbeats of the node lie strictly between two commands. -/
def BeatsBetween (n : ℤ) (m j count : ℕ) : Prop :=
  ∃ positions : Finset ℕ, count ≤ positions.card ∧
    ∀ i ∈ positions, m < i ∧ i < j ∧ Beats noop log n i

end Silence

end PicoMq.Server
