import PicoMq.Groups.Requests

/-!
# The coordinator of one node

The coordinator maps the id of a group to its state. A request looks its group up under the lock of
the map, loads it if the group log is at another epoch, and locks the group again to act on it; a
commit and a deletion hold that lock until the log has answered. A lookup of a group that is not
there evicts idle ones first.
-/

namespace PicoMq.Groups

def OFFSET_SNAPSHOT_INTERVAL : ℕ := 64

/-- The log of a group, open on this node at an epoch. -/
structure GroupLog where
  epoch : ℕ
  /-- From the start of the log. -/
  records : List OffsetRecord := []
deriving DecidableEq

/-- The requests of the clients. -/
inductive Request where
  /-- `fresh` is the id a new member is given. -/
  | join (input : JoinInput) (fresh : String)
  | sync (input : SyncInput)
  | heartbeat (group_id : String) (fence : MemberFence)
  | assignment (group_id : String) (fence : MemberFence)
  | leave (group_id : String) (members : List (String × Option String))
  /-- `describe`, `members` and `listed_group`. -/
  | describe (group_id : String)
  /-- `listed_groups` and `coordinated`, which take the group from the map as it is. -/
  | list (group_id : String)
  | commit_offsets (group_id : String) (fence : Option MemberFence) (commits : List OffsetCommit)
  | delete_offsets (group_id : String) (partitions : List Partition)
  | fetch_offsets (group_id : String)
  | delete (group_id : String)
deriving DecidableEq

namespace Request

def group_id : Request → String
  | join input _ => input.group_id
  | sync input => input.group_id
  | heartbeat group_id _ | assignment group_id _ | leave group_id _ | describe group_id
  | list group_id | commit_offsets group_id _ _ | delete_offsets group_id _
  | fetch_offsets group_id | delete group_id => group_id

/-- Whether the lookup creates the log of the group. -/
def creates : Request → Bool
  | join _ _ | commit_offsets _ _ _ => true
  | _ => false

/-- Whether the request takes its group from the map as it is. -/
def listing : Request → Bool
  | list _ => true
  | _ => false

def validate : Request → Except GroupError Unit
  | join input _ => validate_join input
  | list _ => .ok ()
  | request => validate_group_id request.group_id

end Request

/-- What a request is answered in the end. -/
inductive Reply where
  | joined (outcome : JoinOutcome)
  | synced (result : Except GroupError SyncOutcome)
  | assigned (result : Except GroupError (List StreamName))
  | left (results : List (Except GroupError Unit))
  | fetched (offsets : OffsetTable)
  | ended (result : Except GroupError Unit)
  /-- The request ran into a panic. -/
  | panicked
deriving DecidableEq

/-- The reply to a request for which there is no group. -/
def Request.refusal (error : GroupError) : Request → Reply
  | join input _ => .joined (.error error input.member_id)
  | sync _ => .synced (.error error)
  | assignment _ _ => .assigned (.error error)
  | leave _ members => .left (members.map fun _ => .error error)
  | fetch_offsets _ =>
    if error = .groupNotFound then .fetched OrdMap.empty else .ended (.error error)
  | heartbeat _ _ | describe _ | list _ | commit_offsets _ _ _ | delete_offsets _ _
  | delete _ => .ended (.error error)

/-- How far a request has come. -/
inductive Phase where
  | arrived
  /-- The group log is open here at this epoch. -/
  | opened (epoch : ℕ)
  /-- The state is taken from the map. -/
  | found (arc : ℕ) (epoch : ℕ)
  /-- The log is replayed, with the lock of the state. -/
  | reloading (arc : ℕ) (epoch : ℕ)
  /-- `local_group` has returned. -/
  | ready (arc : ℕ)
  /-- A record is being appended to the log, with the lock of the state. -/
  | recording (arc : ℕ) (record : OffsetRecord)
  | recorded (arc : ℕ) (record : OffsetRecord)
  /-- The log is being destroyed, with the lock of the state. -/
  | destroying (arc : ℕ)
  | unlisting (arc : ℕ)
  /-- The request waits for an answer. -/
  | parked (arc : ℕ)
  /-- The client went away. -/
  | hung_up
  | done (reply : Reply)
deriving DecidableEq

namespace Phase

/-- The state that the request points to. -/
def arc : Phase → Option ℕ
  | found arc _ | reloading arc _ | ready arc | recording arc _ | recorded arc _ | destroying arc
  | unlisting arc | parked arc => some arc
  | arrived | opened _ | hung_up | done _ => none

/-- The state whose lock the request holds. -/
def locked : Phase → Option ℕ
  | reloading arc _ | recording arc _ | recorded arc _ | destroying arc | unlisting arc => some arc
  | _ => none

end Phase

/-- A request on its way. -/
structure Call where
  request : Request
  phase : Phase := .arrived
deriving DecidableEq

/-- The task that completes a rebalance at its deadline. -/
structure Watcher where
  group_id : String
  schedule : Group.Schedule
  /-- The join that started the rebalance. -/
  started_by : ℕ
  /-- The state it watches, once it has taken it from the map. -/
  arc : Option ℕ := none
deriving DecidableEq

/-- The map of the groups, their states and logs, and the tasks that use them. A state is shared:
several calls and watchers can hold its number, its `arc`. -/
structure Coordinator where
  max_groups : ℕ
  now : ℕ := 0
  groups : OrdMap String ℕ := OrdMap.empty
  /-- The states that something points to. -/
  states : OrdMap ℕ Group := OrdMap.empty
  next_arc : ℕ := 0
  logs : OrdMap String GroupLog := OrdMap.empty
  calls : OrdMap ℕ Call := OrdMap.empty
  watchers : OrdMap ℕ Watcher := OrdMap.empty
  next_watcher : ℕ := 0
deriving DecidableEq

namespace Coordinator

/-- What happens next on the node. Between two steps any other task can run. -/
inductive Step where
  | tick (elapsed : ℕ)
  | arrive (c : ℕ) (request : Request)
  /-- The log is found, or created at an epoch, and opened, unless that fails. -/
  | open_log (c : ℕ) (epoch : ℕ) (available : Bool)
  | look_up (c : ℕ)
  | check_epoch (c : ℕ)
  | finish_reload (c : ℕ) (readable : Bool)
  /-- The request locks its group and acts. -/
  | act (c : ℕ)
  /-- The append ends; a record may be in the log although its append failed. -/
  | append (c : ℕ) (succeeded stored : Bool)
  /-- The table takes the record over. The snapshot that may be due can fail, and so can the trim.
  -/
  | apply_record (c : ℕ) (deleted : List ℕ) (snapshot trimmed : Bool)
  | destroy_log (c : ℕ)
  | unlist (c : ℕ)
  /-- The task of a parked request runs. -/
  | resume (c : ℕ)
  /-- The timeout of a parked sync passes. -/
  | time_out (c : ℕ)
  | hang_up (c : ℕ)
  | start_watch (w : ℕ)
  | watch (w : ℕ)
  /-- Nothing points to a state any more. -/
  | free (arc : ℕ)
  /-- The log moves to another epoch or another log; what it then holds is arbitrary. -/
  | move_log (group_id : String) (log : Option GroupLog)
deriving DecidableEq

variable (s : Coordinator)

def set_phase (c : ℕ) (phase : Phase) : Coordinator :=
  match s.calls.get c with
  | some call => { s with calls := s.calls.insert c { call with phase } }
  | none => s

def put_state (arc : ℕ) (g : Group) : Coordinator :=
  { s with states := s.states.insert arc g }

/-- The call ends with an error. -/
def refuse (c : ℕ) (request : Request) (error : GroupError) : Coordinator :=
  s.set_phase c (.done (request.refusal error))

/-- Some call holds the lock of the state. -/
def locked (arc : ℕ) : Bool :=
  s.calls.values.any fun call => call.phase.locked = some arc

/-- Whether something other than the map points to the state. -/
def held (arc : ℕ) : Bool :=
  (s.calls.values.any fun call => call.phase.arc = some arc) ||
    s.watchers.values.any fun watcher => watcher.arc = some arc

/-! ## Lookup -/

/-- Whether eviction by age keeps the state. -/
def keeps (arc : ℕ) : Bool :=
  s.locked arc ||
    match s.states.get arc with
    | some g =>
      match g.idle_since s.now with
      | some idle => idle < IDLE_GROUP_TTL
      | none => true
    | none => true

/-- The groups that may be evicted for room, with the time they have been idle. -/
def evictable : List (ℕ ×ₗ String) :=
  s.groups.entries.filterMap fun e =>
    if s.locked e.2 then none
    else (s.states.get e.2).bind fun g => (g.idle_since s.now).map fun idle => toLex (idle, e.1)

/-- Sessions run out in the groups of the map that nobody has locked. -/
def expire_unlocked : Coordinator :=
  { s with
    states := s.states.map_with_key fun arc g =>
      if s.groups.values.contains arc ∧ ¬ s.locked arc then g.expire_members s.now else g }

/-- Idle groups leave the map when they are old enough. -/
def evict_old : Coordinator :=
  { s with
    groups := s.groups.retain fun id =>
      match s.groups.get id with
      | some arc => s.keeps arc
      | none => true }

/-- Without room after that, the group that was idle for longest leaves, too. -/
def evict_idle_groups : Coordinator :=
  let s := s.expire_unlocked.evict_old
  if s.groups.len < s.max_groups then s
  else
    match s.evictable.max? with
    | some idlest => { s with groups := s.groups.remove (ofLex idlest).2 }
    | none => s

/-- Takes the state of the group from the map, or puts an empty one there. -/
def look_up (c : ℕ) (request : Request) (epoch : ℕ) : Coordinator :=
  match s.groups.get request.group_id with
  | some arc => s.set_phase c (.found arc epoch)
  | none =>
    let s := s.evict_idle_groups
    if s.max_groups ≤ s.groups.len then s.refuse c request .capacityExceeded
    else
      { s with
        groups := s.groups.insert request.group_id s.next_arc
        states := s.states.insert s.next_arc (Group.loaded I64_MIN OrdMap.empty 0 s.now)
        next_arc := s.next_arc + 1 }.set_phase c (.found s.next_arc epoch)

/-- The request is checked and reads the epoch of its log, which it may have to create. -/
def open_log (c : ℕ) (request : Request) (epoch : ℕ) (available : Bool) :
    Coordinator :=
  match request.validate with
  | .error error => s.refuse c request error
  | .ok () =>
    if request.listing then
      match s.groups.get request.group_id with
      | some arc => s.set_phase c (.ready arc)
      | none => s.set_phase c (.done (.ended (.ok ())))
    else if ! available then s.refuse c request .coordinatorNotAvailable
    else
      match s.logs.get request.group_id with
      | some log => s.set_phase c (.opened log.epoch)
      | none =>
        if request.creates then
          { s with logs := s.logs.insert request.group_id ⟨epoch, []⟩ }.set_phase c (.opened epoch)
        else s.refuse c request .groupNotFound

/-- The state is replaced by what the log adds up to. -/
def finish_reload (c arc : ℕ) (g : Group) (request : Request) (epoch : ℕ)
    (readable : Bool) : Coordinator :=
  match s.logs.get request.group_id with
  | some log =>
    if readable then
      (s.put_state arc (g.reload epoch (replay log.records) log.records.length s.now)).set_phase c
        (.ready arc)
    else s.refuse c request .notCoordinator
  | none => s.refuse c request .notCoordinator

/-! ## Acting on a group -/

/-- The watcher of a rebalance that the call has started. -/
def spawn (group_id : String) (c : ℕ) (schedule : Option Group.Schedule) :
    Coordinator :=
  match schedule with
  | none => s
  | some schedule =>
    { s with
      watchers := s.watchers.insert s.next_watcher ⟨group_id, schedule, c, none⟩
      next_watcher := s.next_watcher + 1 }

def finish_join (c arc : ℕ) (group_id : String) (reply : Group.JoinReply) :
    Coordinator :=
  match reply with
  | .answered outcome => s.set_phase c (.done (.joined outcome))
  | .panicked => s.set_phase c (.done .panicked)
  | .parked schedule => (s.set_phase c (.parked arc)).spawn group_id c schedule

def finish_sync (c arc : ℕ) (reply : Group.SyncReply) : Coordinator :=
  match reply with
  | .answered result => s.set_phase c (.done (.synced result))
  | .panicked => s.set_phase c (.done .panicked)
  | .parked _ => s.set_phase c (.parked arc)

def finish_query {α : Type} (s : Coordinator) (c : ℕ) (reply : Group.QueryReply α)
    (wrap : Except GroupError α → Reply) : Coordinator :=
  match reply with
  | .answered result => s.set_phase c (.done (wrap result))
  | .panicked => s.set_phase c (.done .panicked)

/-- What a request does with its group, as far as it gets without waiting. -/
def act (c arc : ℕ) (g : Group) (request : Request) : Coordinator :=
  match request with
  | .join input fresh =>
    let joined := g.join s.now fresh c input
    (s.put_state arc joined.1).finish_join c arc input.group_id joined.2
  | .sync input =>
    let synced := g.sync s.now c input
    (s.put_state arc synced.1).finish_sync c arc synced.2
  | .heartbeat _ fence =>
    let beaten := g.heartbeat s.now fence
    (s.put_state arc beaten.1).finish_query c beaten.2 .ended
  | .assignment _ fence =>
    let queried := g.assignment s.now fence
    (s.put_state arc queried.1).finish_query c queried.2 .assigned
  | .leave _ members =>
    let left := g.leave s.now members
    (s.put_state arc left.1).set_phase c (.done (.left left.2))
  | .describe _ | .list _ =>
    (s.put_state arc (g.expire_members s.now)).set_phase c (.done (.ended (.ok ())))
  | .commit_offsets _ fence commits =>
    let begun := g.begin_commit s.now fence commits
    (s.put_state arc begun.1).set_phase c
      (match begun.2 with
        | .error error => .done (.ended (.error error))
        | .ok none => .done (.ended (.ok ()))
        | .ok (some record) => .recording arc record)
  | .delete_offsets _ partitions =>
    let begun := g.begin_delete_offsets s.now partitions
    (s.put_state arc begun.1).set_phase c
      (match begun.2 with
        | none => .done (.ended (.ok ()))
        | some record => .recording arc record)
  | .fetch_offsets _ =>
    (s.put_state arc (g.touch s.now)).set_phase c (.done (.fetched g.offsets))
  | .delete _ =>
    let g := g.expire_members s.now
    (s.put_state arc g).set_phase c
      (if g.members.is_empty then .destroying arc else .done (.ended (.error .nonEmpty)))

def append_to_log (group_id : String) (record : OffsetRecord) : Coordinator :=
  match s.logs.get group_id with
  | some log =>
    { s with logs := s.logs.insert group_id { log with records := log.records ++ [record] } }
  | none => s

/-- The append of a record has ended. A failed one may have stored the record. -/
def append (c arc : ℕ) (group_id : String) (record : OffsetRecord)
    (succeeded stored : Bool) : Coordinator :=
  match s.logs.get group_id with
  | none => s.set_phase c (.done (.ended (.error .notCoordinator)))
  | some _ =>
    if succeeded then (s.append_to_log group_id record).set_phase c (.recorded arc record)
    else
      (if stored then s.append_to_log group_id record else s).set_phase c
        (.done (.ended (.error .storage)))

def snapshot_log (group_id : String) (offsets : OffsetTable) (trimmed : Bool) :
    Coordinator :=
  match s.logs.get group_id with
  | some log =>
    { s with
      logs := s.logs.insert group_id
        { log with
          records := if trimmed then [.snapshot offsets] else log.records ++ [.snapshot offsets] } }
  | none => s

/-- A snapshot that is due. -/
def snapshot_and_trim (group_id : String) (offsets : OffsetTable)
    (snapshot trimmed : Bool) : Coordinator :=
  if snapshot then s.snapshot_log group_id offsets trimmed else s

/-- The table takes the record over, and every so many appends a snapshot is due. -/
def apply_record (c arc : ℕ) (g : Group) (group_id : String)
    (record : OffsetRecord) (deleted : List ℕ) (snapshot trimmed : Bool) : Coordinator :=
  let g := g.record_applied record
  if g.appends_since_snapshot < OFFSET_SNAPSHOT_INTERVAL then
    (s.put_state arc g).set_phase c (.done (.ended (.ok ())))
  else
    let g := g.snapshot deleted (snapshot && trimmed)
    ((s.snapshot_and_trim group_id g.offsets snapshot trimmed).put_state arc g).set_phase c
      (.done (.ended (.ok ())))

def answer_of (g : Group) (c : ℕ) : Option Answer :=
  (g.sent.find? fun sent => sent.1 = c).map Prod.snd

def deliver : Answer → Reply
  | .join outcome => .joined outcome
  | .sync result => .synced result

/-- A parked request whose sender is gone without an answer panics. -/
def resume (c arc : ℕ) : Coordinator :=
  match s.states.get arc with
  | none => s.set_phase c (.done .panicked)
  | some g =>
    match answer_of g c with
    | some answer => s.set_phase c (.done (deliver answer))
    | none => if g.pending.contains c then s else s.set_phase c (.done .panicked)

/-- The watcher runs, and ends if it is done. -/
def watch (w arc : ℕ) (g : Group) (schedule : Group.Schedule) : Coordinator :=
  let watched := g.watch s.now schedule.id schedule.deadline
  let s := s.put_state arc watched.1
  if watched.2.isNone then { s with watchers := s.watchers.remove w } else s

def with_state (arc : ℕ) (f : Group → Coordinator) : Coordinator :=
  match s.states.get arc with
  | some g => f g
  | none => s

/-- The state, once nobody else has locked it. -/
def with_lock (arc : ℕ) (f : Group → Coordinator) : Coordinator :=
  if s.locked arc then s else s.with_state arc f

/-- The watcher takes its state from the map, or ends if the group has gone. -/
def start_watch (w : ℕ) (watcher : Watcher) : Coordinator :=
  match s.groups.get watcher.group_id with
  | some arc => { s with watchers := s.watchers.insert w { watcher with arc := some arc } }
  | none => { s with watchers := s.watchers.remove w }

/-- The node after a step. A step that is not possible changes nothing. -/
def step : Step → Coordinator
  | .tick elapsed => { s with now := s.now + elapsed }
  | .arrive c request =>
    if s.calls.contains_key c then s else { s with calls := s.calls.insert c { request } }
  | .open_log c epoch available =>
    match s.calls.get c with
    | some ⟨request, .arrived⟩ => s.open_log c request epoch available
    | _ => s
  | .look_up c =>
    match s.calls.get c with
    | some ⟨request, .opened epoch⟩ => s.look_up c request epoch
    | _ => s
  | .check_epoch c =>
    match s.calls.get c with
    | some ⟨_, .found arc epoch⟩ =>
      s.with_lock arc fun g =>
        s.set_phase c (if g.loaded_epoch = epoch then .ready arc else .reloading arc epoch)
    | _ => s
  | .finish_reload c readable =>
    match s.calls.get c with
    | some ⟨request, .reloading arc epoch⟩ =>
      s.with_state arc fun g => s.finish_reload c arc g request epoch readable
    | _ => s
  | .act c =>
    match s.calls.get c with
    | some ⟨request, .ready arc⟩ => s.with_lock arc fun g => s.act c arc g request
    | _ => s
  | .append c succeeded stored =>
    match s.calls.get c with
    | some ⟨request, .recording arc record⟩ =>
      s.append c arc request.group_id record succeeded stored
    | _ => s
  | .apply_record c deleted snapshot trimmed =>
    match s.calls.get c with
    | some ⟨request, .recorded arc record⟩ =>
      s.with_state arc fun g =>
        s.apply_record c arc g request.group_id record deleted snapshot trimmed
    | _ => s
  | .destroy_log c =>
    match s.calls.get c with
    | some ⟨request, .destroying arc⟩ =>
      { s with logs := s.logs.remove request.group_id }.set_phase c (.unlisting arc)
    | _ => s
  | .unlist c =>
    match s.calls.get c with
    | some ⟨request, .unlisting _⟩ =>
      { s with groups := s.groups.remove request.group_id }.set_phase c (.done (.ended (.ok ())))
    | _ => s
  | .resume c =>
    match s.calls.get c with
    | some ⟨_, .parked arc⟩ => s.resume c arc
    | _ => s
  | .time_out c =>
    match s.calls.get c with
    | some ⟨.sync _, .parked _⟩ =>
      s.set_phase c (.done (.synced (.error .rebalanceInProgress)))
    | _ => s
  | .hang_up c =>
    match s.calls.get c with
    | some ⟨_, .parked _⟩ => s.set_phase c .hung_up
    | _ => s
  | .start_watch w =>
    match s.watchers.get w with
    | some ⟨group_id, schedule, started_by, none⟩ =>
      s.start_watch w ⟨group_id, schedule, started_by, none⟩
    | _ => s
  | .watch w =>
    match s.watchers.get w with
    | some ⟨_, schedule, _, some arc⟩ =>
      s.with_lock arc fun g => s.watch w arc g schedule
    | _ => s
  | .free arc =>
    if s.groups.values.contains arc ∨ s.held arc then s
    else { s with states := s.states.remove arc }
  | .move_log group_id log =>
    { s with
      logs := match log with
        | some log => s.logs.insert group_id log
        | none => s.logs.remove group_id }

/-! ## What holds of every state -/

/-- Parked requests are nested; each is held by one state and answered at most once; none is
forgotten, and nothing panics. -/
structure Answers : Prop where
  nested : ∀ arc g, s.states.get arc = some g → g.Nested
  at_most_once : ∀ arc g, s.states.get arc = some g → g.tokens.Nodup
  one_state : ∀ arc arc' g g' c, s.states.get arc = some g → s.states.get arc' = some g' →
    c ∈ g.tokens → c ∈ g'.tokens → arc = arc'
  none_dropped : ∀ arc g, s.states.get arc = some g → g.dropped = []
  /-- A request that waits is held by its state, or its answer is there. -/
  waits : ∀ c call arc, s.calls.get c = some call → call.phase = .parked arc →
    ∃ g, s.states.get arc = some g ∧ (c ∈ g.pending ∨ ∃ answer, (c, answer) ∈ g.sent)
  no_panic : ∀ arc g, s.states.get arc = some g → g.panics = []
  no_call_panics : ∀ c call, s.calls.get c = some call → call.phase ≠ .done .panicked

end Coordinator

end PicoMq.Groups
