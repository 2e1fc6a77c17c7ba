import PicoMq.Groups.Requests

/-!
# Rebalances over the runs of a group

What members can rely on while a group goes from rebalance to rebalance.
-/

namespace PicoMq.Groups

namespace Group

variable (g : Group)

/-- Whether a join is only given an id to join with later. -/
def hands_out (fresh : String) (input : JoinInput) : Bool :=
  match g.check_join fresh input with
  | .ok (_, true) => input.require_known_member_id
  | _ => false

def Action.leaving : Action → List String
  | .leave _ members => members.map Prod.fst
  | _ => []

/-! ## Who is in a round -/

def tells (round : Round) (member_id : String) : Joined → Prop
  | .subscribed assignment members =>
    round.mode = some .subscribed ∧ assignment = streams_of round.members member_id ∧
      members = round.members.keys
  | .client protocol_type protocol_name leader members =>
    round.mode = some (.client protocol_type protocol_name leader) ∧
      members = if member_id = leader then list_members round.members protocol_name else []

/-- The members of a round are those that joined it, or none if their protocols do not fit. -/
structure OfJoined : Prop where
  rounds : ∀ round ∈ g.rounds, (∀ id ∈ round.members.keys, id ∈ round.joined.keys) ∧
    (round.mode.isSome → ∀ id ∈ round.joined.keys, id ∈ round.members.keys)
  /-- Whoever is told of a round has joined it, and is told of its members. -/
  answers : ∀ sender outcome joined, (sender, .join outcome) ∈ g.sent →
    outcome.result = .ok joined → ∃ round ∈ g.rounds, round.generation = outcome.generation ∧
      outcome.member_id ∈ round.joined.keys ∧ tells round outcome.member_id joined
  /-- While the leader is to give out partitions, there are no others to give them to. -/
  completing : g.phase = .completingRebalance →
    ∃ round, g.rounds.getLast? = some round ∧ ∀ id ∈ g.members.keys, id ∈ round.joined.keys

/-- No id is handed out while a rebalance is pending or its leader is to give out partitions. -/
def NoLateId : Action → Prop
  | .join now fresh _ input =>
    (g.refresh now).hands_out fresh input →
      (g.refresh now).rebalance = none ∧ (g.refresh now).phase ≠ .completingRebalance
  | _ => True

instance : ∀ a, Decidable (g.NoLateId a)
  | .join _ _ _ _ => inferInstanceAs (Decidable (_ → _))
  | .sync _ _ _ | .heartbeat _ _ | .assignment _ _ | .leave _ _ | .expire _ | .begin_commit _ _ _
  | .begin_delete_offsets _ _ | .fetch_offsets _ | .record_applied _ | .snapshot _ _
  | .watch _ _ _ | .reload _ _ _ _ => isTrue trivial

/-! ## Parked syncs -/

/-- Syncs are parked only while the leader is to give out assignments. -/
def SyncsParked : Prop :=
  g.sync_waiters = OrdMap.empty ∨ g.phase = .completingRebalance

instance : Decidable g.SyncsParked := inferInstanceAs (Decidable (_ ∨ _))

variable (a : Action)

/-- An action that begins a rebalance tells the parked syncs of the members that stay. -/
def SyncsTold : Prop :=
  g.phase ≠ .preparingRebalance → (g.apply a).phase = .preparingRebalance →
    ∀ id sender, g.sync_waiters.get id = some sender →
      (sender, .sync (.error .rebalanceInProgress)) ∈ (g.apply a).sent ∨
        ((∃ now ∈ a.expires, id ∈ g.expired now) ∨ id ∈ a.leaving) ∧
          (sender, .sync (.error .unknownMember)) ∈ (g.apply a).sent

/-- A join that starts a rebalance finds no parked sync. -/
def NoSyncWaits : Action → Prop
  | .join now fresh _ input =>
    (g.refresh now).takes_part fresh input → (g.refresh now).rebalance = none →
      (g.refresh now).sync_waiters = OrdMap.empty
  | _ => True

instance : ∀ a, Decidable (g.NoSyncWaits a)
  | .join _ _ _ _ => inferInstanceAs (Decidable (_ → _ → _))
  | .sync _ _ _ | .heartbeat _ _ | .assignment _ _ | .leave _ _ | .expire _ | .begin_commit _ _ _
  | .begin_delete_offsets _ _ | .fetch_offsets _ | .record_applied _ | .snapshot _ _
  | .watch _ _ _ | .reload _ _ _ _ => isTrue trivial

/-! ## Refused joins -/

/-- What a join is told at once, by itself or by the rebalance it completes. -/
def AnsweredAtOnce (now : ℕ) (fresh : String) (sender : ℕ) (input : JoinInput)
    (outcome : JoinOutcome) : Prop :=
  (g.join now fresh sender input).2 = .answered outcome ∨
    (sender, .join outcome) ∈ (g.join now fresh sender input).1.sent

/-- Members keep their membership and what they have pending, and the group is where it was. -/
structure Untouched (g g' : Group) : Prop where
  members : g'.members = g.members
  sync_waiters : g'.sync_waiters = g.sync_waiters
  rebalance : g'.rebalance = g.rebalance
  phase : g'.phase = g.phase
  generation : g'.generation = g.generation
  sent : g'.sent = g.sent

/-- A rebalance of clients is complete, and no protocol is known to all who joined it. -/
def NoCommonProtocol : Prop :=
  ∃ r ∈ g.rebalance, r.ready ∧ g.mode ≠ some .subscribed ∧
    ∀ name, ∃ id ∈ r.joined.keys, is_known g.members name id = false

/-! ## Parked joins -/

/-- The join of a member waits for a pending rebalance. -/
def Parked (id : String) (sender : ℕ) : Prop :=
  ∃ r, g.rebalance = some r ∧ r.waiters.get id = some sender

/-- A sender is given an answer between two states. -/
def Told (g g' : Group) (sender : ℕ) (answer : Answer) : Prop :=
  ∃ answers, g'.sent = g.sent ++ answers ∧ (sender, answer) ∈ answers

/-- What a parked join may be told without its member being lost. -/
def Explained (id : String) (outcome : JoinOutcome) : Prop :=
  (∃ joined, outcome = ⟨next_generation g.generation, id, .ok joined⟩) ∨
  (outcome = .error .superseded id ∧ ∃ now fresh sender input is_new,
    a = .join now fresh sender input ∧
      (g.refresh now).check_join fresh input = .ok (id, is_new)) ∨
  (outcome = .error .unknownMember id ∧ id ∈ a.leaving) ∨
  (outcome = .error .fencedInstance id ∧ ∃ now fresh sender input m,
    a = .join now fresh sender input ∧ (g.refresh now).members.get id = some m ∧
      m.instance_id.isSome ∧ m.instance_id = input.instance_id) ∨
  (outcome = .error .notCoordinator id ∧ ∃ epoch offsets replayed now,
    a = .reload epoch offsets replayed now)

/-- Every parked join waits on, or has an explanation. -/
def JoinsHeard : Prop :=
  ∀ id sender, g.Parked id sender → (g.apply a).Parked id sender ∨
    ∃ outcome, Told g (g.apply a) sender (.join outcome) ∧ g.Explained a id outcome

/-- No session of a member with a parked join has run out. -/
def SessionsLast : Prop :=
  ∀ now ∈ a.expires, ∀ r ∈ g.rebalance, ∀ id ∈ r.waiters.keys, id ∉ g.expired now

/-- The names of all protocols that some member knows. -/
def protocol_names : List String :=
  g.members.values.flatMap fun member =>
    match member.role with
    | .client protocols _ => protocols.map JoinProtocol.name
    | .subscribed _ _ => []

/-- Whether the action is not the join of a client that lacks the protocol. -/
def Action.fits (name : String) : Action → Bool
  | .join _ _ _ { membership := .client _ protocols, .. } =>
    protocols.any fun protocol => protocol.name = name
  | _ => true

/-- The clients of a pending rebalance, and those that join, know a protocol in common. -/
def OneProtocol : Prop :=
  g.rebalance = none ∨ g.mode = some .subscribed ∨ ∃ name ∈ g.protocol_names,
    (∀ id ∈ g.members.keys, is_known g.members name id) ∧ a.fits name

instance : Decidable (g.SessionsLast a) :=
  inferInstanceAs (Decidable (∀ now ∈ a.expires, ∀ r ∈ g.rebalance, ∀ id ∈ r.waiters.keys,
    id ∉ g.expired now))

instance : Decidable (g.OneProtocol a) :=
  inferInstanceAs (Decidable (_ ∨ _))

end Group

end PicoMq.Groups
