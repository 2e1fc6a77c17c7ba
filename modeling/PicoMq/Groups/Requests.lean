import PicoMq.Groups.State

/-!
# Requests to a loaded group

What each request does while it holds the lock of the group. A request that parks leaves a sender
behind and waits without the lock.
-/

namespace PicoMq.Groups

def MAX_MEMBERS_PER_GROUP : ℕ := 10000

def MAX_STREAMS_PER_GROUP : ℕ := 10000

def MAX_PARTITIONS_PER_GROUP : ℕ := 10000

def MAX_SUBSCRIPTION_ENTRIES_PER_GROUP : ℕ := 1000000

def MAX_GROUP_ID_BYTES : ℕ := 255

def MAX_MEMBER_ID_BYTES : ℕ := 512

def MAX_STREAM_NAME_BYTES : ℕ := 1024

def MAX_PROTOCOLS_PER_MEMBER : ℕ := 32

def MAX_METADATA_BYTES_PER_MEMBER : ℕ := 1024 * 1024

def MIN_SESSION_TIMEOUT_MS : ℤ := 1000

def MAX_SESSION_TIMEOUT_MS : ℤ := 300000

/-! ## Checks of a request by itself -/

def validate_group_id (group_id : String) : Except GroupError Unit :=
  if group_id = "" ∨ MAX_GROUP_ID_BYTES < group_id.utf8ByteSize then .error .invalidRequest
  else .ok ()

def validate_stream_name (name : StreamName) : Except GroupError Unit :=
  if name = "" ∨ MAX_STREAM_NAME_BYTES < name.utf8ByteSize then .error .invalidRequest
  else .ok ()

/-- The limits on what a join asks for. -/
def validate_membership : Membership → Except GroupError Unit
  | .subscribed subscription =>
    if MAX_STREAMS_PER_GROUP < subscription.length then .error .invalidRequest
    else subscription.forM validate_stream_name
  | .client protocol_type protocols =>
    if protocol_type = "" ∨ protocols = [] ∨ MAX_PROTOCOLS_PER_MEMBER < protocols.length ∨
        (∃ protocol ∈ protocols, protocol.name = "") ∨
        MAX_METADATA_BYTES_PER_MEMBER < (protocols.map fun p => p.metadata.length).sum then
      .error .invalidRequest
    else .ok ()

def validate_join (input : JoinInput) : Except GroupError Unit := do
  validate_group_id input.group_id
  if MAX_MEMBER_ID_BYTES < input.member_id.utf8ByteSize ∨
      input.session_timeout_ms < MIN_SESSION_TIMEOUT_MS ∨
      MAX_SESSION_TIMEOUT_MS < input.session_timeout_ms then
    throw .invalidRequest
  validate_membership input.membership

/-- The rebalance timeout of a join, by default its session timeout. -/
def rebalance_timeout_of (input : JoinInput) : ℕ :=
  (max (if input.rebalance_timeout_ms ≤ 0 then input.session_timeout_ms
    else input.rebalance_timeout_ms) 1).toNat

def mode_of : Membership → Mode
  | .subscribed _ => .subscribed
  | .client protocol_type _ => .client protocol_type "" ""

/-- Whether such a member can join a group of this mode. -/
def compatible : Mode → Membership → Bool
  | .subscribed, .subscribed _ => true
  | .client protocol_type _ _, .client protocol_type' _ => protocol_type = protocol_type'
  | _, _ => false

def name_set (subscription : List StreamName) : NameSet :=
  OrdMap.ofList (subscription.map fun name => (name, ()))

def role_of : Membership → Role
  | .subscribed subscription => .subscribed (name_set subscription) []
  | .client _ protocols => .client protocols []

def member_from_input (input : JoinInput) (now : ℕ) : Member where
  instance_id := input.instance_id
  role := role_of input.membership
  session_timeout := input.session_timeout_ms.toNat
  rebalance_timeout := rebalance_timeout_of input
  last_heartbeat := now

namespace Group

variable (g : Group) (now : ℕ)

def touch : Group := { g with last_activity := now }

/-- How most requests begin. -/
def refresh : Group := (g.expire_members now).touch now

/-! ## Join -/

/-- The member id of the request, or the member that has its instance id. -/
def resolve_member_id (input : JoinInput) : String :=
  if input.member_id ≠ "" then input.member_id
  else
    match input.instance_id with
    | none => ""
    | some instance_id =>
      match g.members.entries.find? fun e => e.2.instance_id = some instance_id with
      | some e => e.1
      | none => ""

variable (member_id : String)

/-- Whether the subscription is too much for the group. -/
def over_capacity : Membership → Bool
  | .subscribed subscription =>
    let previous := match g.members.get member_id with
      | some member => member.wanted.length
      | none => 0
    let new_names := (name_set (subscription.filter fun name => ! g.names.contains_key name)).len
    MAX_STREAMS_PER_GROUP < g.names.len + new_names ∨
      MAX_SUBSCRIPTION_ENTRIES_PER_GROUP <
        g.subscription_entries - previous + subscription.length
  | .client _ _ => false

/-- A refusal, or the id the join goes on with and whether it is new. -/
def check_join (fresh : String) (input : JoinInput) :
    Except JoinOutcome (String × Bool) :=
  let known := g.resolve_member_id input
  let is_new : Bool := known = ""
  let member_id := if is_new then fresh else known
  if is_new ∧ MAX_MEMBERS_PER_GROUP ≤ g.members.len then
    .error (.error .capacityExceeded "")
  else if ¬ is_new ∧ ¬ g.members.contains_key member_id then
    .error (.error .unknownMember member_id)
  else if g.mode.any fun mode => ! compatible mode input.membership then
    .error (.error .inconsistentProtocol member_id)
  else if g.over_capacity member_id input.membership then
    .error (.error .capacityExceeded member_id)
  else .ok (member_id, is_new)

/-- `names.intern` for every name of the membership. -/
def intern (names : NameSet) : Membership → NameSet
  | .subscribed subscription => subscription.foldl (fun names name => names.insert name ()) names
  | .client _ _ => names

def put_member (input : JoinInput) (now : ℕ) : Group :=
  { g with
    names := intern g.names input.membership
    members := g.members.insert member_id (member_from_input input now) }

/-- The other members with the instance id of the request. -/
def stale (instance_id : Option String) : List String :=
  match instance_id with
  | none => []
  | some instance_id =>
    (g.members.entries.filter fun e =>
      e.1 ≠ member_id ∧ e.2.instance_id = some instance_id).map Prod.fst

/-- The other members with the instance id of the request depart. -/
def fence_stale (instance_id : Option String) : Group :=
  g.depart_all (g.stale member_id instance_id) .fencedInstance

/-- A new member is put into the group at once. -/
def admit_new (is_new : Bool) (input : JoinInput) (now : ℕ) :
    Group :=
  if is_new then g.put_member member_id input now else g

/-- A member that was there before is replaced. -/
def admit_known (is_new : Bool) (input : JoinInput) (now : ℕ) :
    Group :=
  if is_new then g else g.put_member member_id input now

def set_mode (membership : Membership) : Group :=
  { g with mode := some (g.mode.getD (mode_of membership)) }

/-- What the watcher of a rebalance is given. -/
structure Schedule where
  id : ℕ
  deadline : ℕ
deriving DecidableEq, Repr

/-- Starts a rebalance of all members, unless one is pending. -/
def start_rebalance (now sender : ℕ) : Group × Option Schedule :=
  match g.rebalance with
  | some _ => (g, none)
  | none =>
    let timeout := (g.members.values.map fun member => member.rebalance_timeout).max?.getD 1000
    ({ g with
        phase := .preparingRebalance
        next_rebalance_id := next_id g.next_rebalance_id
        rebalance := some
          { id := g.next_rebalance_id
            expected := g.members.map fun _ => ()
            deadline := now + timeout
            started_by := sender } },
      some ⟨g.next_rebalance_id, now + timeout⟩)

/-- Parks the join; an older one of the same member is answered. -/
def park_join (sender : ℕ) : Group :=
  match g.rebalance with
  | none => g.panic .rebalance_not_initialized [sender]
  | some rebalance =>
    { g with
      rebalance := some
        { rebalance with
          expected := rebalance.expected.insert member_id ()
          joined := rebalance.joined.insert member_id ()
          waiters := rebalance.waiters.insert member_id sender }
      sent := g.sent ++ (rebalance.waiters.get member_id).toList.map
        fun previous => (previous, .join (.error .superseded member_id)) }

/-- What a join comes to while it holds the lock. -/
inductive JoinReply where
  | answered (outcome : JoinOutcome)
  /-- The request waits; it may have to start a watcher. -/
  | parked (schedule : Option Schedule)
  | panicked
deriving DecidableEq

/-- The end of `join`: the member is in the group under its id, and takes part in a rebalance. -/
def enter (now sender : ℕ) (member_id : String) (membership : Membership) :
    Group × JoinReply :=
  let started := (g.set_mode membership).start_rebalance now sender
  ((started.1.park_join member_id sender).settle now, .parked started.2)

/-- Other members with the instance id depart, and the member itself must have it. -/
def claim_instance (now sender : ℕ) (member_id : String) (is_new : Bool)
    (input : JoinInput) : Group × JoinReply :=
  let g := g.fence_stale member_id input.instance_id
  match g.members.get member_id with
  | none => (g.panic .no_such_member [], .panicked)
  | some member =>
    if member.instance_id ≠ input.instance_id then
      (g, .answered (.error .fencedInstance member_id))
    else
      (g.admit_known member_id is_new input now).enter now sender member_id input.membership

/-- `join`, with the id it gives to a new member. -/
def join (fresh : String) (sender : ℕ) (input : JoinInput) :
    Group × JoinReply :=
  let g := g.refresh now
  match g.check_join fresh input with
  | .error outcome => (g, .answered outcome)
  | .ok (member_id, is_new) =>
    let g := g.admit_new member_id is_new input now
    if is_new ∧ input.require_known_member_id then
      (g, .answered (.error .memberIdRequired member_id))
    else g.claim_instance now sender member_id is_new input

/-- Whether a join gets past all checks and takes part in a rebalance. -/
def takes_part (fresh : String) (input : JoinInput) : Bool :=
  match g.check_join fresh input with
  | .error _ => false
  | .ok (member_id, is_new) =>
    if is_new then ! input.require_known_member_id
    else (g.members.get member_id).any fun member => member.instance_id = input.instance_id

/-- The join takes part in a rebalance, and there is none pending. -/
def starts (fresh : String) (input : JoinInput) : Prop :=
  (g.refresh now).takes_part fresh input = true ∧ (g.refresh now).rebalance = none

instance (g : Group) (now : ℕ) (fresh : String) (input : JoinInput) :
    Decidable (g.starts now fresh input) := inferInstanceAs (Decidable (_ ∧ _))

/-! ## The watcher of a rebalance -/

/-- One round of `watch_rebalance`, and when to wake next; `none` if the watcher is done. -/
def watch (now rebalance_id deadline : ℕ) : Group × Option ℕ :=
  let g := g.expire_members now
  match g.rebalance with
  | none => (g, none)
  | some rebalance =>
    if rebalance.id ≠ rebalance_id then (g, none)
    else if deadline ≤ now then
      ((g.depart_all rebalance.missing .unknownMember).settle now, none)
    else
      let lapses := rebalance.missing.filterMap fun id =>
        (g.members.get id).map fun member => member.last_heartbeat + member.session_timeout
      (g, some (min (lapses.min?.getD deadline) deadline))

/-! ## Requests of members -/

/-- The member must exist, with the instance id and generation of the request. -/
def check_fence (fence : MemberFence) : Except GroupError Unit :=
  match g.members.get fence.member_id with
  | none => .error .unknownMember
  | some member =>
    if member.instance_id ≠ fence.instance_id then .error .fencedInstance
    else if g.generation ≠ fence.generation then .error .illegalGeneration
    else .ok ()

/-- What the sync of a member is told. -/
def sync_outcome : SyncOutcome where
  protocol_type := g.protocol_type
  protocol_name := g.protocol_name
  assignment :=
    match g.members.get member_id with
    | some { role := .client _ assignment, .. } => assignment
    | _ => []

/-- What a sync comes to while it holds the lock. -/
inductive SyncReply where
  | answered (result : Except GroupError SyncOutcome)
  /-- The request waits for at most so long. -/
  | parked (timeout : ℕ)
  | panicked
deriving DecidableEq

/-- The sync of the leader: every member gets its assignment, and parked syncs are answered. -/
def distribute (input : SyncInput) : Group × SyncReply :=
  let assignments := OrdMap.ofList input.assignments
  if assignments.keys.any fun id => ! g.members.contains_key id then
    (g, .answered (.error .unknownMember))
  else
    let members := g.members.map_with_key fun id member =>
      { member with
        last_heartbeat := now
        role := member.role.set_assignment ((assignments.get id).getD []) }
    let g := { g with members, phase := .stable }
    ({ g with
        sync_waiters := OrdMap.empty
        sent := g.sent ++ g.sync_waiters.entries.map
          fun e => (e.2, .sync (.ok (g.sync_outcome e.1))) },
      .answered (.ok (g.sync_outcome input.member_id)))

/-- Parks the sync of a follower; an older one of the same member is answered. -/
def park_sync (sender : ℕ) : Group × SyncReply :=
  match g.members.get member_id with
  | none => (g.panic .no_such_member [], .panicked)
  | some member =>
    ({ g with
        sync_waiters := g.sync_waiters.insert member_id sender
        sent := g.sent ++ (g.sync_waiters.get member_id).toList.map
          fun previous => (previous, .sync (.error .superseded)) },
      .parked member.rebalance_timeout)

/-- `sync`: the leader distributes the assignments, and the others wait for them. -/
def sync (now sender : ℕ) (input : SyncInput) : Group × SyncReply :=
  let g := g.expire_members now
  match g.check_fence ⟨input.generation, input.member_id, input.instance_id⟩ with
  | .error error => (g, .answered (.error error))
  | .ok () =>
    match g.mode with
    | some (.client _ _ leader) =>
      if g.phase = .preparingRebalance then (g, .answered (.error .rebalanceInProgress))
      else if g.phase = .stable then (g, .answered (.ok (g.sync_outcome input.member_id)))
      else if input.member_id = leader then g.distribute now input
      else g.park_sync input.member_id sender
    | _ => (g, .answered (.error .invalidRequest))

/-- What a request that never waits comes to. -/
inductive QueryReply (α : Type) where
  | answered (result : Except GroupError α)
  | panicked
deriving DecidableEq

/-- `assignment`: the streams of a subscribed member, in a stable group. -/
def assignment (fence : MemberFence) :
    Group × QueryReply (List StreamName) :=
  let g := g.expire_members now
  match g.check_fence fence with
  | .error error => (g, .answered (.error error))
  | .ok () =>
    if g.phase ≠ .stable then (g, .answered (.error .rebalanceInProgress))
    else
      match g.members.get fence.member_id with
      | none => (g.panic .no_such_member [], .panicked)
      | some { role := .subscribed _ assignment, .. } => (g, .answered (.ok assignment))
      | some { role := .client _ _, .. } => (g, .answered (.error .invalidRequest))

/-- `heartbeat`: the member is heard of, and told of a rebalance. -/
def heartbeat (fence : MemberFence) : Group × QueryReply Unit :=
  let g := g.expire_members now
  match g.check_fence fence with
  | .error error => (g, .answered (.error error))
  | .ok () =>
    match g.members.get fence.member_id with
    | none => (g.panic .no_such_member [], .panicked)
    | some member =>
      ({ g with
          members := g.members.insert fence.member_id { member with last_heartbeat := now } },
        .answered (if g.phase ≠ .stable then .error .rebalanceInProgress else .ok ()))

/-- One round of the loop of `leave`. -/
def leave_one (member : String × Option String) : Group × Except GroupError Unit :=
  match g.members.get member.1 with
  | none => (g, .error .unknownMember)
  | some found =>
    if found.instance_id ≠ member.2 then (g, .error .fencedInstance)
    else (g.depart member.1 .unknownMember, .ok ())

/-- The loop of `leave`, with one result for each member. -/
def leave_all (g : Group) : List (String × Option String) → Group × List (Except GroupError Unit)
  | [] => (g, [])
  | member :: members =>
    let left := g.leave_one member
    let rest := left.1.leave_all members
    (rest.1, left.2 :: rest.2)

/-- `leave`: the members depart, and the group moves on if at least one did. -/
def leave (members : List (String × Option String)) :
    Group × List (Except GroupError Unit) :=
  let g := g.refresh now
  let left := g.leave_all members
  (if .ok () ∈ left.2 then left.1.settle now else left.1, left.2)

/-! ## Offsets -/

/-- Up to the append to the log; `none` if there is nothing to append. -/
def begin_commit (fence : Option MemberFence) (commits : List OffsetCommit) :
    Group × Except GroupError (Option OffsetRecord) :=
  let g := g.refresh now
  let allowed : Except GroupError Unit :=
    match fence with
    | some fence => do
      g.check_fence fence
      if g.phase ≠ .stable then throw .rebalanceInProgress
    | none => if g.phase ≠ .empty then .error .unknownMember else .ok ()
  (g, do
    allowed
    if commits = [] then return none
    let new_partitions := (OrdMap.ofList
      ((commits.filter fun commit => ! g.offsets.contains_key commit.partition).map
        fun commit => (commit.partition, ()))).len
    if MAX_PARTITIONS_PER_GROUP < g.offsets.len + new_partitions then throw .capacityExceeded
    return some (.delta commits))

/-- The beginning of `delete_offsets`, up to the append to the log. -/
def begin_delete_offsets (partitions : List Partition) :
    Group × Option OffsetRecord :=
  let g := g.touch now
  let committed := partitions.filter fun partition => g.offsets.contains_key partition
  (g, if committed = [] then none else some (.delete committed))

/-- The table after a record that was appended to the log. -/
def record_applied (record : OffsetRecord) : Group :=
  { g with
    offsets := record.apply g.offsets
    appends_since_snapshot := g.appends_since_snapshot + 1 }

/-- The table after a snapshot, which leaves out the partitions of deleted topics. -/
def snapshot (deleted : List ℕ) (trimmed : Bool) : Group :=
  { g with
    offsets := purge deleted g.offsets
    appends_since_snapshot := if trimmed then 0 else g.appends_since_snapshot }

/-! ## Runs -/

/-- What can happen to a group while somebody holds its lock. -/
inductive Action where
  /-- `fresh` is the id of a new member. -/
  | join (now : ℕ) (fresh : String) (sender : ℕ) (input : JoinInput)
  | sync (now sender : ℕ) (input : SyncInput)
  | heartbeat (now : ℕ) (fence : MemberFence)
  | assignment (now : ℕ) (fence : MemberFence)
  | leave (now : ℕ) (members : List (String × Option String))
  /-- The group is described, listed, checked before its deletion or looked at for eviction. -/
  | expire (now : ℕ)
  | begin_commit (now : ℕ) (fence : Option MemberFence) (commits : List OffsetCommit)
  | begin_delete_offsets (now : ℕ) (partitions : List Partition)
  | fetch_offsets (now : ℕ)
  | record_applied (record : OffsetRecord)
  | snapshot (deleted : List ℕ) (trimmed : Bool)
  | watch (now rebalance_id deadline : ℕ)
  | reload (epoch : ℤ) (offsets : OffsetTable) (replayed now : ℕ)
deriving DecidableEq

/-- The time at which an action lets sessions run out. -/
def Action.expires : Action → Option ℕ
  | .join now _ _ _ | .sync now _ _ | .heartbeat now _ | .assignment now _ | .leave now _
  | .expire now | .begin_commit now _ _ | .watch now _ _ => some now
  | .begin_delete_offsets _ _ | .fetch_offsets _ | .record_applied _ | .snapshot _ _
  | .reload _ _ _ _ => none

/-- The group after an action. -/
def apply : Action → Group
  | .join now fresh sender input => (g.join now fresh sender input).1
  | .sync now sender input => (g.sync now sender input).1
  | .heartbeat now fence => (g.heartbeat now fence).1
  | .assignment now fence => (g.assignment now fence).1
  | .leave now members => (g.leave now members).1
  | .expire now => g.expire_members now
  | .begin_commit now fence commits => (g.begin_commit now fence commits).1
  | .begin_delete_offsets now partitions => (g.begin_delete_offsets now partitions).1
  | .fetch_offsets now => g.touch now
  | .record_applied record => g.record_applied record
  | .snapshot deleted trimmed => g.snapshot deleted trimmed
  | .watch now rebalance_id deadline => (g.watch now rebalance_id deadline).1
  | .reload epoch offsets replayed now => g.reload epoch offsets replayed now

end Group

end PicoMq.Groups
