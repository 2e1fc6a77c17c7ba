import Mathlib.Algebra.Group.Int.Defs
import PicoMq.Groups.Assign

/-!
# The state of one consumer group

Members depart, and the group settles afterwards, under its lock and with one reading of the clock.
A sender stands for the request at the other end of its channel. Beside its own fields a group
records here what it sent, which senders it let go of without an answer, its panics, and what each
rebalance came to.
-/

namespace PicoMq.Groups

/-- How long a group without members stays loaded. -/
def IDLE_GROUP_TTL : ℕ := 300 * 1000

def I64_MIN : ℤ := -2 ^ 63

/-- `generation.wrapping_add(1).max(1)` on an `i32`. -/
def next_generation (generation : ℤ) : ℤ :=
  max (if generation = 2 ^ 31 - 1 then -2 ^ 31 else generation + 1) 1

/-- `id.wrapping_add(1).max(1)` on a `u64`. -/
def next_id (id : ℕ) : ℕ := max ((id + 1) % 2 ^ 64) 1

/-- The calls of `unreachable`, `expect` and the index operator. -/
inductive Panic where
  /-- A rebalance completes in a group without a mode. -/
  | no_mode
  /-- A stream without a subscriber, or a candidate that is not a member. -/
  | no_candidate
  | rebalance_not_initialized
  /-- A member that was looked up before is not there. -/
  | no_such_member
deriving DecidableEq, Repr

/-- A pending rebalance: who is expected, who has joined, and the parked joins. -/
structure Rebalance where
  id : ℕ
  expected : NameSet
  joined : NameSet := OrdMap.empty
  waiters : OrdMap String ℕ := OrdMap.empty
  /-- When it is to complete; the program hands this to the watcher only. -/
  deadline : ℕ
  /-- The join that started it. -/
  started_by : ℕ
deriving DecidableEq

namespace Rebalance

/-- Every member still expected has joined. -/
def ready (r : Rebalance) : Bool := ! r.joined.is_empty && r.joined = r.expected

/-- The expected members that have not joined. -/
def missing (r : Rebalance) : List String := r.expected.keys.filter fun id => ! r.joined.contains_key id

def remove (r : Rebalance) (member_id : String) : Rebalance :=
  { r with
    expected := r.expected.remove member_id
    joined := r.joined.remove member_id
    waiters := r.waiters.remove member_id }

end Rebalance

/-- What a rebalance came to: who had joined, and the members it left. -/
structure Round where
  generation : ℤ
  mode : Option Mode
  joined : NameSet
  members : OrdMap String Member
deriving DecidableEq

/-- The state of one group. The last four fields record what has happened to it. -/
structure Group where
  loaded_epoch : ℤ
  phase : GroupState := .empty
  generation : ℤ := 0
  mode : Option Mode := none
  names : NameSet := OrdMap.empty
  members : OrdMap String Member := OrdMap.empty
  offsets : OffsetTable
  appends_since_snapshot : ℕ
  next_rebalance_id : ℕ := 1
  rebalance : Option Rebalance := none
  sync_waiters : OrdMap String ℕ := OrdMap.empty
  last_activity : ℕ
  sent : List (ℕ × Answer) := []
  dropped : List ℕ := []
  panics : List Panic := []
  rounds : List Round := []
deriving DecidableEq

namespace Group

/-- A group that was just loaded: of the old state only the offsets are left. -/
def loaded (epoch : ℤ) (offsets : OffsetTable) (appends_since_snapshot now : ℕ) : Group :=
  { loaded_epoch := epoch, offsets, appends_since_snapshot, last_activity := now }

variable (g : Group)

def join_waiters : OrdMap String ℕ :=
  match g.rebalance with
  | some rebalance => rebalance.waiters
  | none => OrdMap.empty

/-- The senders that the group holds. -/
def pending : List ℕ := g.join_waiters.values ++ g.sync_waiters.values

def send (answers : List (ℕ × Answer)) : Group := { g with sent := g.sent ++ answers }

/-- A panic, and the senders that go away with it. -/
def panic (panic : Panic) (dropped : List ℕ) : Group :=
  { g with panics := g.panics ++ [panic], dropped := g.dropped ++ dropped }

/-- `names.sweep`: keeps the names that some member points to. -/
def sweep : Group :=
  { g with names := g.names.retain fun name => g.members.values.any fun m => m.role.holds name }

def reset_empty : Group := { g with phase := .empty, mode := none }.sweep

/-- Answers all parked joins with the same error. -/
def refuse_joins (waiters : OrdMap String ℕ) (error : GroupError) : List (ℕ × Answer) :=
  waiters.entries.map fun e => (e.2, .join (.error error e.1))

/-- Answers all parked syncs with the same error. -/
def refuse_syncs (waiters : OrdMap String ℕ) (error : GroupError) : List (ℕ × Answer) :=
  waiters.entries.map fun e => (e.2, .sync (.error error))

def answer_syncs (error : GroupError) : Group :=
  { g with sync_waiters := OrdMap.empty }.send (refuse_syncs g.sync_waiters error)

/-! ## Completing a rebalance -/

def protocol_name : String :=
  match g.mode with
  | some (.client _ protocol_name _) => protocol_name
  | _ => ""

def protocol_type : String :=
  match g.mode with
  | some (.client protocol_type _ _) => protocol_type
  | _ => ""

variable (members : OrdMap String Member)

def is_known (protocol member_id : String) : Bool :=
  match members.get member_id with
  | some member => member.role.knows protocol
  | none => false

/-- The first protocol of the leader that all of `joined` know. -/
def select_protocol (leader : String) (joined : NameSet) :
    Option String :=
  match members.get leader with
  | some { role := .client protocols _, .. } =>
    (protocols.find? fun candidate =>
      joined.keys.all fun id => is_known members candidate.name id).map JoinProtocol.name
  | _ => none

/-- The previous leader if it joined, or else the first that did. -/
def elect (joined : NameSet) (previous_leader : String) : String :=
  if joined.contains_key previous_leader then previous_leader else joined.keys.head?.getD ""

/-- The Kafka clients with their metadata for the chosen protocol. -/
def list_members (protocol_name : String) : List JoinMember :=
  members.entries.filterMap fun e =>
    match e.2.role with
    | .client protocols _ =>
      (protocols.find? fun protocol => protocol.name = protocol_name).map fun protocol =>
        ⟨e.1, e.2.instance_id, protocol.metadata⟩
    | .subscribed _ _ => none

def streams_of (member_id : String) : List StreamName :=
  match members.get member_id with
  | some { role := .subscribed _ assignment, .. } => assignment
  | _ => []

/-- The members with their new streams, all of them heard of now. -/
def give_streams (assignments : OrdMap String (List StreamName))
    (now : ℕ) : OrdMap String Member :=
  members.map_with_key fun id member =>
    { member with
      last_heartbeat := now
      role := member.role.set_streams ((assignments.get id).getD []) }

/-- Notes what the rebalance came to. -/
def record (rebalance : Rebalance) : Group :=
  { g with rounds := g.rounds ++ [⟨g.generation, g.mode, rebalance.joined, g.members⟩] }

/-- The group assigns the streams and tells each parked join its own. -/
def complete_subscribed (rebalance : Rebalance) (now : ℕ) : Group :=
  match assign g.members with
  | none => g.panic .no_candidate rebalance.waiters.values
  | some assignments =>
    let g := { g with phase := .stable, members := give_streams g.members assignments now }.sweep
    (g.record rebalance).send (rebalance.waiters.entries.map fun e =>
      (e.2, .join ⟨g.generation, e.1, .ok (.subscribed (streams_of g.members e.1) g.members.keys)⟩))

/-- The clients get a leader and a protocol. Without a common protocol the group is dissolved. -/
def complete_client (rebalance : Rebalance) (protocol_type previous_leader : String)
    (now : ℕ) : Group :=
  let leader := elect rebalance.joined previous_leader
  match select_protocol g.members leader rebalance.joined with
  | none =>
    ({ g with members := OrdMap.empty }.reset_empty.record rebalance).send
      (refuse_joins rebalance.waiters .inconsistentProtocol)
  | some protocol_name =>
    let g :=
      { g with
        mode := some (.client protocol_type protocol_name leader)
        phase := .completingRebalance
        members := g.members.map fun member =>
          { member with last_heartbeat := now, role := member.role.set_assignment [] } }
    (g.record rebalance).send (rebalance.waiters.entries.map fun e =>
      (e.2, .join ⟨g.generation, e.1, .ok (.client protocol_type protocol_name leader
        (if e.1 = leader then list_members g.members protocol_name else []))⟩))

/-- The next generation begins, and parked syncs are told so. -/
def next_round : Group :=
  { g with rebalance := none, generation := next_generation g.generation }.answer_syncs
    .rebalanceInProgress

/-- Ends the pending rebalance, in the way of the group's mode. -/
def complete_rebalance (now : ℕ) : Group :=
  match g.rebalance with
  | none => g
  | some rebalance =>
    match g.mode with
    | some .subscribed => g.next_round.complete_subscribed rebalance now
    | some (.client protocol_type _ leader) =>
      g.next_round.complete_client rebalance protocol_type leader now
    | none => g.next_round.panic .no_mode rebalance.waiters.values

/-! ## Departures -/

/-- The answers to what a member has pending when it departs. -/
def departure_answers (member_id : String) (error : GroupError) : List (ℕ × Answer) :=
  (g.sync_waiters.get member_id).toList.map (fun sender => (sender, .sync (.error error))) ++
    (g.join_waiters.get member_id).toList.map
      (fun sender => (sender, .join (.error error member_id)))

/-- Removes a member, answering its pending join or sync with `error`. The caller settles the group.
-/
def depart (member_id : String) (error : GroupError) : Group :=
  { g with
    members := g.members.remove member_id
    sync_waiters := g.sync_waiters.remove member_id
    rebalance := g.rebalance.map fun rebalance : Rebalance => rebalance.remove member_id
    sent := g.sent ++ g.departure_answers member_id error }

def depart_all (member_ids : List String) (error : GroupError) : Group :=
  member_ids.foldl (fun g id => g.depart id error) g

/-- Moves the group on after its membership changed. -/
def settle (now : ℕ) : Group :=
  if g.members.is_empty then
    { g with rebalance := none, dropped := g.dropped ++ g.join_waiters.values }.reset_empty
  else
    let g := g.sweep
    match g.rebalance with
    | some rebalance => if rebalance.ready then g.complete_rebalance now else g
    | none =>
      if g.phase ≠ .preparingRebalance then
        { g with phase := .preparingRebalance }.answer_syncs .rebalanceInProgress
      else g

/-- The session of the member has run out. -/
def lapsed (now : ℕ) (member : Member) : Bool := member.session_timeout ≤ now - member.last_heartbeat

def expired (now : ℕ) : List String :=
  (g.members.entries.filter fun e => lapsed now e.2).map Prod.fst

/-- Members whose sessions have run out depart, and the group moves on. -/
def expire_members (now : ℕ) : Group :=
  if g.expired now = [] then g else (g.depart_all (g.expired now) .unknownMember).settle now

/-- Answers everything pending before this state is discarded. -/
def unload : Group :=
  ({ g with rebalance := none }.send (refuse_joins g.join_waiters .notCoordinator)).answer_syncs
    .notCoordinator

/-- The state is replaced by a new one, read from the log at another epoch. -/
def reload (epoch : ℤ) (offsets : OffsetTable) (replayed now : ℕ) : Group :=
  { loaded epoch offsets replayed now with
    sent := g.unload.sent
    dropped := g.unload.dropped ++ g.unload.pending
    panics := g.unload.panics
    rounds := g.unload.rounds }

def subscription_entries : ℕ :=
  (g.members.values.map fun member => member.wanted.length).sum

/-- For how long the group has had nothing to do. -/
def idle_since (now : ℕ) : Option ℕ :=
  if g.members.is_empty ∧ g.rebalance.isNone then some (now - g.last_activity) else none

/-! ## What holds of every state -/

/-- Parked joins are joined, the joined are expected, the expected are members; parked syncs belong
to members; a rebalance goes with a mode and its phase. -/
structure Nested : Prop where
  waiters_joined : ∀ r ∈ g.rebalance, r.waiters.keys ⊆ r.joined.keys
  joined_expected : ∀ r ∈ g.rebalance, r.joined.keys ⊆ r.expected.keys
  expected_members : ∀ r ∈ g.rebalance, r.expected.keys ⊆ g.members.keys
  syncs_members : g.sync_waiters.keys ⊆ g.members.keys
  has_mode : ∀ r ∈ g.rebalance, g.mode.isSome
  preparing : ∀ r ∈ g.rebalance, g.phase = .preparingRebalance

/-- All senders the group was ever given: it holds them, has sent an answer or has dropped them. -/
def tokens : List ℕ := g.pending ++ g.sent.map Prod.fst ++ g.dropped

end Group

end PicoMq.Groups
