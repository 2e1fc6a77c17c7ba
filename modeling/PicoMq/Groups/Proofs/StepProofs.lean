import PicoMq.Groups.Coordinator
import PicoMq.Groups.Proofs.RequestProofs

/-!
# What one step of the coordinator changes

The ends of a step: a request goes on from one phase to the next, and with it change the states, the
map, the logs or the watchers.
-/

namespace PicoMq.Groups

open OrdMap

/-! ## What a request does to its group -/

namespace Request

def action (now c : ℕ) : Request → Group.Action
  | join input fresh => .join now fresh c input
  | sync input => .sync now c input
  | heartbeat _ fence => .heartbeat now fence
  | assignment _ fence => .assignment now fence
  | leave _ members => .leave now members
  | describe _ | list _ | delete _ => .expire now
  | commit_offsets _ fence commits => .begin_commit now fence commits
  | delete_offsets _ partitions => .begin_delete_offsets now partitions
  | fetch_offsets _ => .fetch_offsets now

def next_phase (now c arc : ℕ) (g : Group) : Request → Phase
  | join input fresh =>
    match (g.join now fresh c input).2 with
    | .answered outcome => .done (.joined outcome)
    | .panicked => .done .panicked
    | .parked _ => .parked arc
  | sync input =>
    match (g.sync now c input).2 with
    | .answered result => .done (.synced result)
    | .panicked => .done .panicked
    | .parked _ => .parked arc
  | heartbeat _ fence =>
    match (g.heartbeat now fence).2 with
    | .answered result => .done (.ended result)
    | .panicked => .done .panicked
  | assignment _ fence =>
    match (g.assignment now fence).2 with
    | .answered result => .done (.assigned result)
    | .panicked => .done .panicked
  | leave _ members => .done (.left (g.leave now members).2)
  | describe _ | list _ => .done (.ended (.ok ()))
  | commit_offsets _ fence commits =>
    match (g.begin_commit now fence commits).2 with
    | .error error => .done (.ended (.error error))
    | .ok none => .done (.ended (.ok ()))
    | .ok (some record) => .recording arc record
  | delete_offsets _ partitions =>
    match (g.begin_delete_offsets now partitions).2 with
    | none => .done (.ended (.ok ()))
    | some record => .recording arc record
  | fetch_offsets _ => .done (.fetched g.offsets)
  | delete _ =>
    if (g.expire_members now).members.is_empty then .destroying arc
    else .done (.ended (.error .nonEmpty))

/-- The rebalance the request starts a watcher for. -/
def schedule (now c : ℕ) (g : Group) : Request → Option Group.Schedule
  | join input fresh =>
    match (g.join now fresh c input).2 with
    | .parked schedule => schedule
    | _ => none
  | _ => none

end Request

namespace Coordinator

variable {s : Coordinator} {x : Step} {c arc w : ℕ} {g g' : Group} {request : Request}

theorem spawn_set_phase {group_id : String} {c' : ℕ} {phase : Phase}
    {schedule : Option Group.Schedule} : (s.set_phase c phase).spawn group_id c' schedule =
      (s.spawn group_id c' schedule).set_phase c phase := by
  cases schedule with
  | none => rfl
  | some schedule =>
    unfold set_phase
    dsimp only [spawn]
    split <;> rfl

/-- A request puts its state back, may start a watcher, and goes on. -/
theorem act_eq (s : Coordinator) (c arc : ℕ) (g : Group) (request : Request) :
    s.act c arc g request =
      ((s.put_state arc (g.apply (request.action s.now c))).spawn request.group_id c
        (request.schedule s.now c g)).set_phase c (request.next_phase s.now c arc g) := by
  rw [← spawn_set_phase]
  cases request with
  | join input fresh =>
    simp only [act, finish_join, Request.next_phase, Request.schedule]
    cases (g.join s.now fresh c input).2 <;> rfl
  | sync input =>
    simp only [act, finish_sync, Request.next_phase]
    cases (g.sync s.now c input).2 <;> rfl
  | heartbeat group_id fence =>
    simp only [act, finish_query, Request.next_phase]
    cases (g.heartbeat s.now fence).2 <;> rfl
  | assignment group_id fence =>
    simp only [act, finish_query, Request.next_phase]
    cases (g.assignment s.now fence).2 <;> rfl
  | _ => rfl

/-! ## Eviction -/

theorem evict_idle_groups_eq (s : Coordinator) : ∃ groups,
    s.evict_idle_groups = { s.expire_unlocked with groups } ∧
      ∀ id arc, groups.get id = some arc → s.groups.get id = some arc := by
  have hold : ∀ id arc, s.expire_unlocked.evict_old.groups.get id = some arc →
      s.groups.get id = some arc := by
    intro id arc h
    rw [evict_old, get_retain] at h
    split_ifs at h
    exact h
  unfold evict_idle_groups
  dsimp only
  split_ifs
  · exact ⟨_, rfl, hold⟩
  · split
    · exact ⟨_, rfl, fun id arc h => hold id arc (of_get_remove h).2⟩
    · exact ⟨_, rfl, hold⟩

theorem states_expire_unlocked (h : s.expire_unlocked.states.get arc = some g') :
    ∃ g, s.states.get arc = some g ∧ (g' = g ∨ g' = g.expire_members s.now) := by
  rw [expire_unlocked, get_map_with_key] at h
  obtain ⟨g, hg, heq⟩ := Option.map_eq_some_iff.1 h
  refine ⟨g, hg, ?_⟩
  split_ifs at heq
  · exact .inr heq.symm
  · exact .inl heq.symm

/-! ## The ends of a step -/

/-- A group is put into the map with a new state. -/
def place (s : Coordinator) (group_id : String) : Coordinator :=
  { s with
    groups := s.groups.insert group_id s.next_arc
    states := s.states.insert s.next_arc (Group.loaded I64_MIN OrdMap.empty 0 s.now)
    next_arc := s.next_arc + 1 }

inductive StepEnd (s : Coordinator) : Step → Coordinator → Prop
  | idle (x : Step) : StepEnd s x s
  | ticked (elapsed : ℕ) : StepEnd s (.tick elapsed) { s with now := s.now + elapsed }
  | arrived (c : ℕ) (request : Request) (hnew : s.calls.get c = none) :
      StepEnd s (.arrive c request) { s with calls := s.calls.insert c { request } }
  | not_opened (c epoch : ℕ) (available : Bool) (request : Request) (error : GroupError)
      (hcall : s.calls.get c = some ⟨request, .arrived⟩) :
      StepEnd s (.open_log c epoch available) (s.refuse c request error)
  | listed (c epoch : ℕ) (available : Bool) (request : Request) (arc : ℕ)
      (hcall : s.calls.get c = some ⟨request, .arrived⟩)
      (harc : s.groups.get request.group_id = some arc) :
      StepEnd s (.open_log c epoch available) (s.set_phase c (.ready arc))
  | not_listed (c epoch : ℕ) (available : Bool) (request : Request)
      (hcall : s.calls.get c = some ⟨request, .arrived⟩) :
      StepEnd s (.open_log c epoch available) (s.set_phase c (.done (.ended (.ok ()))))
  | opened (c epoch : ℕ) (available : Bool) (request : Request) (log : GroupLog)
      (hcall : s.calls.get c = some ⟨request, .arrived⟩) :
      StepEnd s (.open_log c epoch available) (s.set_phase c (.opened log.epoch))
  | created (c epoch : ℕ) (available : Bool) (request : Request)
      (hcall : s.calls.get c = some ⟨request, .arrived⟩) :
      StepEnd s (.open_log c epoch available)
        ({ s with logs := s.logs.insert request.group_id ⟨epoch, []⟩ }.set_phase c (.opened epoch))
  | found (c : ℕ) (request : Request) (epoch arc : ℕ)
      (hcall : s.calls.get c = some ⟨request, .opened epoch⟩)
      (harc : s.groups.get request.group_id = some arc) :
      StepEnd s (.look_up c) (s.set_phase c (.found arc epoch))
  | no_room (c : ℕ) (request : Request) (epoch : ℕ)
      (hcall : s.calls.get c = some ⟨request, .opened epoch⟩) :
      StepEnd s (.look_up c) (s.evict_idle_groups.refuse c request .capacityExceeded)
  | placed (c : ℕ) (request : Request) (epoch : ℕ)
      (hcall : s.calls.get c = some ⟨request, .opened epoch⟩) :
      StepEnd s (.look_up c)
        ((s.evict_idle_groups.place request.group_id).set_phase c
          (.found s.evict_idle_groups.next_arc epoch))
  | current (c : ℕ) (request : Request) (arc epoch : ℕ) (g : Group)
      (hcall : s.calls.get c = some ⟨request, .found arc epoch⟩) (hg : s.states.get arc = some g) :
      StepEnd s (.check_epoch c) (s.set_phase c (.ready arc))
  | outdated (c : ℕ) (request : Request) (arc epoch : ℕ) (g : Group)
      (hcall : s.calls.get c = some ⟨request, .found arc epoch⟩) (hg : s.states.get arc = some g) :
      StepEnd s (.check_epoch c) (s.set_phase c (.reloading arc epoch))
  | reloaded (c : ℕ) (request : Request) (arc epoch : ℕ) (log : GroupLog) (g : Group)
      (hcall : s.calls.get c = some ⟨request, .reloading arc epoch⟩)
      (hlog : s.logs.get request.group_id = some log) (hg : s.states.get arc = some g) :
      StepEnd s (.finish_reload c true)
        ((s.put_state arc (g.apply (.reload epoch (replay log.records) log.records.length
          s.now))).set_phase c (.ready arc))
  | not_reloaded (c : ℕ) (readable : Bool) (request : Request) (arc epoch : ℕ)
      (hcall : s.calls.get c = some ⟨request, .reloading arc epoch⟩) :
      StepEnd s (.finish_reload c readable) (s.refuse c request .notCoordinator)
  | acted (c : ℕ) (request : Request) (arc : ℕ) (g : Group)
      (hcall : s.calls.get c = some ⟨request, .ready arc⟩) (hg : s.states.get arc = some g) :
      StepEnd s (.act c) (((s.put_state arc (g.apply (request.action s.now c))).spawn
        request.group_id c (request.schedule s.now c g)).set_phase c
          (request.next_phase s.now c arc g))
  | appended (c : ℕ) (stored : Bool) (request : Request) (arc : ℕ) (record : OffsetRecord)
      (logs : OrdMap String GroupLog)
      (hcall : s.calls.get c = some ⟨request, .recording arc record⟩) :
      StepEnd s (.append c true stored) ({ s with logs }.set_phase c (.recorded arc record))
  | not_appended (c : ℕ) (succeeded stored : Bool) (request : Request) (arc : ℕ)
      (record : OffsetRecord) (logs : OrdMap String GroupLog) (error : GroupError)
      (hcall : s.calls.get c = some ⟨request, .recording arc record⟩) :
      StepEnd s (.append c succeeded stored)
        ({ s with logs }.set_phase c (.done (.ended (.error error))))
  | recorded (c : ℕ) (deleted : List ℕ) (snapshot trimmed : Bool) (request : Request) (arc : ℕ)
      (record : OffsetRecord) (g : Group)
      (hcall : s.calls.get c = some ⟨request, .recorded arc record⟩)
      (hg : s.states.get arc = some g) :
      StepEnd s (.apply_record c deleted snapshot trimmed)
        ((s.put_state arc (g.apply (.record_applied record))).set_phase c (.done (.ended (.ok ()))))
  | snapshotted (c : ℕ) (deleted : List ℕ) (snapshot trimmed : Bool) (request : Request) (arc : ℕ)
      (record : OffsetRecord) (g g' : Group) (logs : OrdMap String GroupLog)
      (hcall : s.calls.get c = some ⟨request, .recorded arc record⟩)
      (hg : s.states.get arc = some g)
      (hg' : g' = (g.apply (.record_applied record)).apply
        (.snapshot deleted (snapshot && trimmed))) :
      StepEnd s (.apply_record c deleted snapshot trimmed)
        (({ s with logs }.put_state arc g').set_phase c (.done (.ended (.ok ()))))
  | destroyed (c : ℕ) (request : Request) (arc : ℕ)
      (hcall : s.calls.get c = some ⟨request, .destroying arc⟩) :
      StepEnd s (.destroy_log c)
        ({ s with logs := s.logs.remove request.group_id }.set_phase c (.unlisting arc))
  | unlisted (c : ℕ) (request : Request) (arc : ℕ)
      (hcall : s.calls.get c = some ⟨request, .unlisting arc⟩) :
      StepEnd s (.unlist c)
        ({ s with groups := s.groups.remove request.group_id }.set_phase c
          (.done (.ended (.ok ()))))
  | answered (c : ℕ) (request : Request) (arc : ℕ) (answer : Answer)
      (hcall : s.calls.get c = some ⟨request, .parked arc⟩) :
      StepEnd s (.resume c) (s.set_phase c (.done (deliver answer)))
  | panicked (c : ℕ) (request : Request) (arc : ℕ)
      (hcall : s.calls.get c = some ⟨request, .parked arc⟩) :
      StepEnd s (.resume c) (s.set_phase c (.done .panicked))
  | timed_out (c : ℕ) (input : SyncInput) (arc : ℕ)
      (hcall : s.calls.get c = some ⟨.sync input, .parked arc⟩) :
      StepEnd s (.time_out c) (s.set_phase c (.done (.synced (.error .rebalanceInProgress))))
  | hung_up (c : ℕ) (request : Request) (arc : ℕ)
      (hcall : s.calls.get c = some ⟨request, .parked arc⟩) :
      StepEnd s (.hang_up c) (s.set_phase c .hung_up)
  | watch_started (w : ℕ) (watcher : Watcher) (arc : ℕ) (hw : s.watchers.get w = some watcher)
      (hnone : watcher.arc = none) (harc : s.groups.get watcher.group_id = some arc) :
      StepEnd s (.start_watch w)
        { s with watchers := s.watchers.insert w { watcher with arc := some arc } }
  | watch_ended (w : ℕ) (watcher : Watcher) (hw : s.watchers.get w = some watcher)
      (hnone : watcher.arc = none) (harc : s.groups.get watcher.group_id = none) :
      StepEnd s (.start_watch w) { s with watchers := s.watchers.remove w }
  | watched (w : ℕ) (watcher : Watcher) (arc : ℕ) (g : Group) (watchers : OrdMap ℕ Watcher)
      (hw : s.watchers.get w = some watcher) (harc : watcher.arc = some arc)
      (hg : s.states.get arc = some g)
      (hwatchers : watchers = s.watchers ∨ watchers = s.watchers.remove w) :
      StepEnd s (.watch w)
        { s.put_state arc (g.apply (.watch s.now watcher.schedule.id watcher.schedule.deadline))
          with watchers }
  | freed (arc : ℕ) (hmapped : arc ∉ s.groups.values) (hheld : s.held arc = false) :
      StepEnd s (.free arc) { s with states := s.states.remove arc }
  | moved (group_id : String) (log : Option GroupLog) (logs : OrdMap String GroupLog) :
      StepEnd s (.move_log group_id log) { s with logs }

section Ends

theorem with_state_end {f : Group → Coordinator}
    (hf : ∀ g, s.states.get arc = some g → StepEnd s x (f g)) :
    StepEnd s x (s.with_state arc f) := by
  unfold with_state
  split
  · rename_i g hg
    exact hf g hg
  · exact .idle x

theorem with_lock_end {f : Group → Coordinator}
    (hf : ∀ g, s.states.get arc = some g → StepEnd s x (f g)) :
    StepEnd s x (s.with_lock arc f) := by
  unfold with_lock
  split
  · exact .idle x
  · exact with_state_end hf

theorem open_log_end (hcall : s.calls.get c = some ⟨request, .arrived⟩) (epoch : ℕ)
    (available : Bool) :
    StepEnd s (.open_log c epoch available) (s.open_log c request epoch available) := by
  unfold open_log
  split
  · exact .not_opened c epoch available request _ hcall
  split
  · split
    · rename_i arc harc
      exact .listed c epoch available request arc hcall harc
    · exact .not_listed c epoch available request hcall
  split
  · exact .not_opened c epoch available request _ hcall
  split
  · exact .opened c epoch available request _ hcall
  · split
    · exact .created c epoch available request hcall
    · exact .not_opened c epoch available request _ hcall

theorem look_up_end {epoch : ℕ} (hcall : s.calls.get c = some ⟨request, .opened epoch⟩) :
    StepEnd s (.look_up c) (s.look_up c request epoch) := by
  unfold look_up
  split
  · rename_i arc harc
    exact .found c request epoch arc hcall harc
  · dsimp only
    split_ifs
    · exact .no_room c request epoch hcall
    · exact .placed c request epoch hcall

theorem finish_reload_end {epoch : ℕ} (hcall : s.calls.get c = some ⟨request, .reloading arc epoch⟩)
    (hg : s.states.get arc = some g) (readable : Bool) :
    StepEnd s (.finish_reload c readable) (s.finish_reload c arc g request epoch readable) := by
  unfold finish_reload
  split
  · rename_i log hlog
    split_ifs with hreadable
    · subst hreadable
      exact .reloaded c request arc epoch log g hcall hlog hg
    · exact .not_reloaded c readable request arc epoch hcall
  · exact .not_reloaded c readable request arc epoch hcall

theorem append_to_log_eq (s : Coordinator) (group_id : String) (record : OffsetRecord) :
    ∃ logs, s.append_to_log group_id record = { s with logs } := by
  unfold append_to_log
  split <;> exact ⟨_, rfl⟩

theorem snapshot_and_trim_eq (s : Coordinator) (group_id : String) (offsets : OffsetTable)
    (snapshot trimmed : Bool) :
    ∃ logs, s.snapshot_and_trim group_id offsets snapshot trimmed = { s with logs } := by
  unfold snapshot_and_trim snapshot_log
  split
  · split <;> exact ⟨_, rfl⟩
  · exact ⟨_, rfl⟩

theorem append_end {record : OffsetRecord}
    (hcall : s.calls.get c = some ⟨request, .recording arc record⟩) (succeeded stored : Bool) :
    StepEnd s (.append c succeeded stored)
      (s.append c arc request.group_id record succeeded stored) := by
  unfold append
  split
  · exact .not_appended c succeeded stored request arc record s.logs _ hcall
  · obtain ⟨logs, hlogs⟩ := append_to_log_eq s request.group_id record
    split_ifs with hsucceeded hstored
    · subst hsucceeded
      exact hlogs ▸ .appended c stored request arc record logs hcall
    · exact hlogs ▸ .not_appended c succeeded stored request arc record logs _ hcall
    · exact .not_appended c succeeded stored request arc record s.logs _ hcall

theorem apply_record_end {record : OffsetRecord} {deleted : List ℕ} {snapshot trimmed : Bool}
    (hcall : s.calls.get c = some ⟨request, .recorded arc record⟩)
    (hg : s.states.get arc = some g) :
    StepEnd s (.apply_record c deleted snapshot trimmed)
      (s.apply_record c arc g request.group_id record deleted snapshot trimmed) := by
  unfold apply_record
  dsimp only
  split
  · exact .recorded c deleted snapshot trimmed request arc record g hcall hg
  · obtain ⟨logs, hlogs⟩ := snapshot_and_trim_eq s request.group_id _ snapshot trimmed
    exact hlogs ▸ .snapshotted c deleted snapshot trimmed request arc record g _ logs hcall hg rfl

theorem resume_end (hcall : s.calls.get c = some ⟨request, .parked arc⟩) :
    StepEnd s (.resume c) (s.resume c arc) := by
  unfold resume
  split
  · exact .panicked c request arc hcall
  · split
    · rename_i answer _
      exact .answered c request arc answer hcall
    · split
      · exact .idle _
      · exact .panicked c request arc hcall

theorem start_watch_end {watcher : Watcher} (hw : s.watchers.get w = some watcher)
    (hnone : watcher.arc = none) : StepEnd s (.start_watch w) (s.start_watch w watcher) := by
  unfold start_watch
  split
  · rename_i arc harc
    exact .watch_started w watcher arc hw hnone harc
  · rename_i harc
    exact .watch_ended w watcher hw hnone harc

theorem watch_end_of {watcher : Watcher} (hw : s.watchers.get w = some watcher)
    (harc : watcher.arc = some arc) (hg : s.states.get arc = some g) :
    StepEnd s (.watch w) (s.watch w arc g watcher.schedule) := by
  unfold watch
  dsimp only
  split
  · exact .watched w watcher arc g _ hw harc hg (.inr rfl)
  · exact .watched w watcher arc g _ hw harc hg (.inl rfl)

/-- Every step comes to one of these ends. -/
theorem step_end (s : Coordinator) (x : Step) : StepEnd s x (s.step x) := by
  cases x with
  | tick elapsed => exact .ticked elapsed
  | arrive c request =>
    rw [step]
    split
    · exact .idle _
    · rename_i hnew
      exact .arrived c request (contains_key_eq_false.1 (Bool.eq_false_iff.2 hnew))
  | open_log c epoch available =>
    rw [step]
    split
    · rename_i request hcall
      exact open_log_end hcall epoch available
    · exact .idle _
  | look_up c =>
    rw [step]
    split
    · rename_i request epoch hcall
      exact look_up_end hcall
    · exact .idle _
  | check_epoch c =>
    rw [step]
    split
    · rename_i request arc epoch hcall
      refine with_lock_end fun g hg => ?_
      split_ifs
      · exact .current c request arc epoch g hcall hg
      · exact .outdated c request arc epoch g hcall hg
    · exact .idle _
  | finish_reload c readable =>
    rw [step]
    split
    · rename_i request arc epoch hcall
      exact with_state_end fun g hg => finish_reload_end hcall hg readable
    · exact .idle _
  | act c =>
    rw [step]
    split
    · rename_i request arc hcall
      refine with_lock_end fun g hg => ?_
      rw [act_eq]
      exact .acted c request arc g hcall hg
    · exact .idle _
  | append c succeeded stored =>
    rw [step]
    split
    · rename_i request arc record hcall
      exact append_end hcall succeeded stored
    · exact .idle _
  | apply_record c deleted snapshot trimmed =>
    rw [step]
    split
    · rename_i request arc record hcall
      exact with_state_end fun g hg => apply_record_end hcall hg
    · exact .idle _
  | destroy_log c =>
    rw [step]
    split
    · rename_i request arc hcall
      exact .destroyed c request arc hcall
    · exact .idle _
  | unlist c =>
    rw [step]
    split
    · rename_i request arc hcall
      exact .unlisted c request arc hcall
    · exact .idle _
  | resume c =>
    rw [step]
    split
    · rename_i request arc hcall
      exact resume_end hcall
    · exact .idle _
  | time_out c =>
    rw [step]
    split
    · rename_i input arc hcall
      exact .timed_out c input arc hcall
    · exact .idle _
  | hang_up c =>
    rw [step]
    split
    · rename_i request arc hcall
      exact .hung_up c request arc hcall
    · exact .idle _
  | start_watch w =>
    rw [step]
    split
    · rename_i group_id schedule started_by hw
      exact start_watch_end hw rfl
    · exact .idle _
  | watch w =>
    rw [step]
    split
    · rename_i group_id schedule started_by arc hw
      exact with_lock_end fun g hg => watch_end_of hw rfl hg
    · exact .idle _
  | free arc =>
    rw [step]
    split
    · exact .idle _
    · rename_i hfree
      rw [not_or] at hfree
      exact .freed arc (fun hin => hfree.1 (List.contains_iff_mem.2 hin))
        (Bool.eq_false_iff.2 hfree.2)
  | move_log group_id log => exact .moved group_id log _

end Ends

end Coordinator

end PicoMq.Groups
