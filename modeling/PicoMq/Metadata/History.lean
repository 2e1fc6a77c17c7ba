import PicoMq.Library.Run
import PicoMq.Metadata.Apply

/-!
# Runs of the metadata log

The state after each prefix of a list of commands, and which of them were accepted.
-/

namespace PicoMq.Metadata

variable (noop : ℕ) (s : MetadataState) (log : List MetadataCommand) (i : ℕ) (c : MetadataCommand)

/-- The state after a command, accepted or not. -/
def step : MetadataState :=
  (apply noop s c).1

/-- The state that command `i` of the log is applied to. -/
def history : MetadataState :=
  Run.after (step noop) {} log i

/-- Command `i` of the log is `c`, and it was accepted. -/
def Accepted : Prop :=
  log[i]? = some c ∧ ∃ r, (apply noop (history noop log i) c).2 = .ok r

/-! ## Kinds of commands -/

/-- The commands that write the leases and nothing but the leases. -/
def MetadataCommand.IsLeaseCommand : MetadataCommand → Prop
  | .prepareObject .. => True
  | .expirePreparedObjects .. => True
  | _ => False

/-- How many heartbeats of node `n` the command is. -/
def MetadataCommand.beats (n : ℤ) : ℕ :=
  match c with
  | .heartbeat p => if p.node_id = n then 1 else 0
  | _ => 0

/-! ## Registrations -/

def MetadataCommand.registered_epoch : MetadataCommand → Option ℤ
  | .registerNode _ node_epoch .. => some node_epoch
  | _ => none

/-- The epoch in a registration is a 64-bit signed integer. -/
def MetadataCommand.EpochInRange : Prop :=
  ∀ epoch ∈ c.registered_epoch, -2 ^ 63 ≤ epoch ∧ epoch < 2 ^ 63

instance : Decidable c.EpochInRange :=
  inferInstanceAs (Decidable (∀ _ ∈ c.registered_epoch, _))

/-- No stored node epoch is the greatest 64-bit signed integer. -/
def EpochsBelowMax : Prop :=
  ∀ row ∈ s.nodes.values, row.epoch < 2 ^ 63 - 1

instance : Decidable (EpochsBelowMax s) :=
  inferInstanceAs (Decidable (∀ _ ∈ _, _))

/-- Command `i` of the log is a registration of `node_id`, and the epoch it assigned is `epoch`. -/
def Registration (node_id epoch : ℤ) : Prop :=
  ∃ node_epoch http_address slots protocol_addresses wal,
    log[i]? = some
      (.registerNode node_id node_epoch http_address slots protocol_addresses wal) ∧
    ((history noop log (i + 1)).nodes.get node_id).map (·.epoch) = some epoch

/-- From command `i` on, every command that `p` proposes is refused and changes nothing. -/
def SilencedFrom (p : Proposer) : Prop :=
  ∀ j c, i ≤ j → log[j]? = some c → c.proposer = some p →
    ∃ e, apply noop (history noop log j) c =
      (history noop log j, .error e)

/-! ## Opens -/

/-- Command `i` is an accepted open of the stream by `node_id` at `epoch` that changed the row. -/
def RowChangingOpen (sid : ℕ) (epoch node_id : ℤ) : Prop :=
  ∃ p : Proposer, p.node_id = node_id ∧ Accepted noop log i (.openStream p sid epoch) ∧
    (history noop log (i + 1)).streams.get sid ≠
      (history noop log i).streams.get sid

def IsOpened (sid : ℕ) : Prop :=
  ∃ row, s.streams.get sid = some row ∧ row.state = .opened

def IsFenced (node_id : ℤ) : Prop :=
  ∃ row, s.nodes.get node_id = some row ∧ row.fenced = true

def owner_of (sid : ℕ) : Option ℤ :=
  (s.streams.get sid).map (·.node_id)

/-! ## Transfers -/

/-- A pending transfer is between two different nodes, and its stream still names the source. -/
def TransfersHeld : Prop :=
  ∀ sid pending, s.pending_transfers.get sid = some pending →
    pending.from_node ≠ pending.to_node ∧ owner_of s sid = some pending.from_node

/-- The command opens or places a closed stream with a pending transfer on another node. -/
def MovesPending : Prop :=
  ∃ sid pending row, s.pending_transfers.get sid = some pending ∧
    s.streams.get sid = some row ∧ row.state = .closed ∧
    ((∃ p epoch, c = .openStream p sid epoch ∧ check_proposer s p = .ok () ∧ row.epoch < epoch ∧
        p.node_id ≠ row.node_id) ∨
      ∃ p requested winner, c = .placeStream p sid requested ∧ check_proposer s p = .ok () ∧
        node_live s row.node_id = false ∧ placement_winner s requested = some winner ∧
        winner ≠ row.node_id)

end PicoMq.Metadata
