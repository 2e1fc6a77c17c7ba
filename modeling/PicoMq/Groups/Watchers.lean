import PicoMq.Groups.Coordinator

/-!
# The watchers of rebalances

A watcher is started with the number and the deadline of a rebalance, and takes the pending
rebalance with its number for its own.
-/

namespace PicoMq.Groups

/-- The state that the request is about to lock and act on. -/
def Phase.acts_on : Phase → Option ℕ
  | ready arc => some arc
  | _ => none

/-- Whether the request is a join that starts a rebalance. -/
def Request.starts (now : ℕ) (g : Group) : Request → Prop
  | join input fresh => g.starts now fresh input
  | _ => False

instance (now : ℕ) (g : Group) : DecidablePred (Request.starts now g)
  | .join input fresh => inferInstanceAs (Decidable (g.starts now fresh input))
  | .sync _ | .heartbeat _ _ | .assignment _ _ | .leave _ _ | .describe _ | .list _
  | .commit_offsets _ _ _ | .delete_offsets _ _ | .fetch_offsets _ | .delete _ =>
    .isFalse fun h => h

namespace Coordinator

variable (s : Coordinator)

/-- The state is the one the watcher has, or the one it would now take from the map. -/
def points (watcher : Watcher) (arc : ℕ) : Prop :=
  watcher.arc = some arc ∨ watcher.arc = none ∧ s.groups.get watcher.group_id = some arc

instance (watcher : Watcher) (arc : ℕ) : Decidable (s.points watcher arc) :=
  inferInstanceAs (Decidable (_ ∨ _))

/-- A watcher removes missing members of its own rebalance only, and not before the deadline. -/
def RemovesInTime : Step → Prop
  | .watch w =>
    ∀ watcher ∈ s.watchers.get w, ∀ arc ∈ watcher.arc, ∀ g ∈ s.states.get arc,
      ∀ g' ∈ (s.step (.watch w)).states.get arc, ∀ r ∈ (g.expire_members s.now).rebalance,
        ∀ id ∈ r.missing, g'.members.get id = none →
          watcher.started_by = r.started_by ∧ r.deadline ≤ s.now
  | _ => True

instance : DecidablePred s.RemovesInTime
  | .watch w => inferInstanceAs (Decidable (∀ watcher ∈ s.watchers.get w, ∀ arc ∈ watcher.arc,
      ∀ g ∈ s.states.get arc, ∀ g' ∈ (s.step (.watch w)).states.get arc,
        ∀ r ∈ (g.expire_members s.now).rebalance, ∀ id ∈ r.missing, _ → _ ∧ _))
  | .tick _ | .arrive _ _ | .open_log _ _ _ | .look_up _ | .check_epoch _ | .finish_reload _ _
  | .act _ | .append _ _ _ | .apply_record _ _ _ _ | .destroy_log _ | .unlist _ | .resume _
  | .time_out _ | .hang_up _ | .start_watch _ | .free _ | .move_log _ _ => .isTrue trivial

/-- A join starts a rebalance only in the mapped state, under a number that no watcher of it has. -/
def NewNumber : Step → Prop
  | .act c =>
    ∀ call ∈ s.calls.get c, ∀ arc ∈ call.phase.acts_on, ∀ g ∈ s.states.get arc,
      call.request.starts s.now g →
        s.groups.get call.request.group_id = some arc ∧
          ∀ e ∈ s.watchers.entries, s.points e.2 arc → e.2.schedule.id ≠ g.next_rebalance_id
  | _ => True

instance : DecidablePred s.NewNumber
  | .act c => inferInstanceAs (Decidable (∀ call ∈ s.calls.get c, ∀ arc ∈ call.phase.acts_on,
      ∀ g ∈ s.states.get arc, call.request.starts s.now g → _ ∧ ∀ e ∈ s.watchers.entries, _))
  | .tick _ | .arrive _ _ | .open_log _ _ _ | .look_up _ | .check_epoch _ | .finish_reload _ _
  | .append _ _ _ | .apply_record _ _ _ _ | .destroy_log _ | .unlist _ | .resume _ | .time_out _
  | .hang_up _ | .start_watch _ | .watch _ | .free _ | .move_log _ _ => .isTrue trivial

end Coordinator

end PicoMq.Groups
