import PicoMq.Groups.Proofs.CoordinatorProofs
import PicoMq.Groups.Proofs.MemberProofs
import PicoMq.Groups.Watchers

/-!
# A watcher knows its rebalance

A watcher that finds its number finds the rebalance it was started for, with its deadline.
-/

namespace PicoMq.Groups

open OrdMap

namespace Coordinator

variable {s s' : Coordinator} {x : Step} {c arc w : ℕ} {g g' : Group} {request : Request}

theorem act_of_not_starts {now : ℕ} (hg : g.Sound) (h : ¬ request.starts now g) :
    Group.NoneStarted g (g.apply (request.action now c)) ∧ request.schedule now c g = none := by
  cases request with
  | join input fresh =>
    have hjoin : Group.NoneStarted g (g.join now fresh c input).1 ∧
        ∀ schedule, (g.join now fresh c input).2 ≠ .parked (some schedule) :=
      Group.join_of_not_starts hg h
    obtain ⟨hnone, hreply⟩ := hjoin
    refine ⟨hnone, ?_⟩
    rw [Request.schedule]
    split
    · rename_i schedule hparked
      cases schedule with
      | none => rfl
      | some schedule => exact absurd hparked (hreply schedule)
    · rfl
  | _ =>
    refine ⟨Group.none_started_apply hg ?_, rfl⟩
    intro now' fresh sender input ha
    cases ha

/-- Whoever watches a state and has the number of its rebalance was started for that rebalance. -/
def Owned (s : Coordinator) : Prop :=
  ∀ w watcher arc g r, s.watchers.get w = some watcher → s.points watcher arc →
    s.states.get arc = some g → g.rebalance = some r → r.id = watcher.schedule.id →
      watcher.started_by = r.started_by ∧ watcher.schedule.deadline = r.deadline

/-- The watcher is the same, and points where it did. -/
def SameWatcher (s : Coordinator) (w : ℕ) (watcher' : Watcher) (arc : ℕ) : Prop :=
  ∃ watcher, s.watchers.get w = some watcher ∧ s.points watcher arc ∧
    watcher'.schedule = watcher.schedule ∧ watcher'.started_by = watcher.started_by

namespace Owned

section

variable (h : Owned s)
include h

theorem of_none_started (hstates : ∀ arc g', s'.states.get arc = some g' → g'.rebalance.isSome →
      ∃ g, s.states.get arc = some g ∧ Group.NoneStarted g g')
    (hwatchers : ∀ w watcher arc, s'.watchers.get w = some watcher → s'.points watcher arc →
      arc ∈ s.states.keys → SameWatcher s w watcher arc) : Owned s' := by
  intro w watcher' arc g' r' hw' hpoints' hg' hr' hid
  obtain ⟨g, hg, hnone⟩ := hstates arc g' hg' (hr' ▸ rfl)
  obtain ⟨r, hr, hsame⟩ := hnone r' hr'
  obtain ⟨watcher, hw, hpoints, hschedule, hby⟩ :=
    hwatchers w watcher' arc hw' hpoints' (mem_keys_of_get hg)
  rw [hschedule] at hid ⊢
  rw [hby, hsame.started_by, hsame.deadline]
  exact h w watcher arc g r hw hpoints hg hr (hsame.id.symm.trans hid)

theorem frame (hstates : s'.states = s.states) (hgroups : s'.groups = s.groups)
    (hwatchers : s'.watchers = s.watchers) : Owned s' := by
  refine h.of_none_started (fun arc g' hg' _ => ?_) (fun w watcher arc hw hpoints _ => ?_)
  · exact ⟨g', hstates ▸ hg', .refl g'⟩
  · rw [hwatchers] at hw
    rw [points, hgroups] at hpoints
    exact ⟨watcher, hw, hpoints, rfl, rfl⟩

theorem put_state (hg : s.states.get arc = some g)
    (hnone : Group.NoneStarted g g') : Owned (s.put_state arc g') := by
  refine h.of_none_started (fun arc' g'' hg'' _ => ?_) fun w watcher arc' hw hpoints _ =>
    ⟨watcher, hw, hpoints, rfl, rfl⟩
  rcases get_insert_cases hg'' with ⟨rfl, rfl⟩ | ⟨-, hold⟩
  · exact ⟨g, hg, hnone⟩
  · exact ⟨g'', hold, .refl g''⟩

section

variable (ht : Tracked s)
include ht

theorem evict_idle_groups : Owned s.evict_idle_groups := by
  obtain ⟨groups, heq, hgroups⟩ := evict_idle_groups_eq s
  rw [heq]
  refine h.of_none_started (fun arc g' hg' _ => ?_) fun w watcher arc hw hpoints _ => ?_
  · obtain ⟨g, hg, rfl | rfl⟩ := states_expire_unlocked hg'
    · exact ⟨g', hg, .refl g'⟩
    · exact ⟨g, hg, (Group.NoneStarted.kept g).expire_members (ht.sound arc g hg) (.refl g) s.now⟩
  · refine ⟨watcher, hw, hpoints.imp_right fun ⟨hnone, harc⟩ => ⟨hnone, hgroups _ _ harc⟩, rfl, rfl⟩

theorem place (group_id : String) : Owned (s.place group_id) := by
  refine h.of_none_started (fun arc g' hg' hsome => ?_) fun w watcher arc hw hpoints harc => ?_
  · rcases get_insert_cases hg' with ⟨rfl, rfl⟩ | ⟨-, hold⟩
    · cases hsome
    · exact ⟨g', hold, .refl g'⟩
  · refine ⟨watcher, hw, hpoints.imp_right fun ⟨hnone, hmapped⟩ => ⟨hnone, ?_⟩, rfl, rfl⟩
    rcases get_insert_cases hmapped with ⟨-, rfl⟩ | ⟨-, hold⟩
    · exact absurd (ht.fresh _ harc) (Nat.lt_irrefl _)
    · exact hold

theorem start {input : JoinInput} {fresh : String}
    (hg : s.states.get arc = some g) (hstarts : g.starts s.now fresh input)
    (hmapped : s.groups.get input.group_id = some arc)
    (hnew : ∀ w watcher, s.watchers.get w = some watcher → s.points watcher arc →
      watcher.schedule.id ≠ g.next_rebalance_id) :
    Owned ((s.put_state arc (g.apply (.join s.now fresh c input))).spawn input.group_id c
      ((Request.join input fresh).schedule s.now c g)) := by
  obtain ⟨deadline, hreply, hrebalance⟩ := Group.join_of_starts (ht.sound arc g hg) hstarts c
  have hschedule : (Request.join input fresh).schedule s.now c g =
      some ⟨g.next_rebalance_id, deadline⟩ := by
    rw [Request.schedule, hreply]
  rw [hschedule]
  intro w watcher arc' g' r hw hpoints hg' hr hid
  rcases get_insert_cases hw with ⟨-, rfl⟩ | ⟨-, hw⟩
  · -- the new watcher would take the state that the rebalance was started in
    rcases hpoints with hsome | ⟨-, harc⟩
    · cases hsome
    cases hmapped.symm.trans harc
    cases (get_insert_self ..).symm.trans hg'
    obtain ⟨-, hdeadline, hby⟩ := hrebalance r hr
    exact ⟨hby.symm, hdeadline.symm⟩
  · rcases get_insert_cases hg' with ⟨rfl, rfl⟩ | ⟨-, hold⟩
    · exact absurd (hid.symm.trans (hrebalance r hr).1) (hnew w watcher hw hpoints)
    · exact h w watcher arc' g' r hw hpoints hold hr hid

theorem act (hcall : s.calls.get c = some ⟨request, .ready arc⟩)
    (hg : s.states.get arc = some g) (hnew : s.NewNumber (.act c)) :
    Owned ((s.put_state arc (g.apply (request.action s.now c))).spawn request.group_id c
      (request.schedule s.now c g)) := by
  by_cases hstarts : request.starts s.now g
  · obtain ⟨hmapped, hfree⟩ := hnew _ hcall arc rfl g hg hstarts
    cases request with
    | join input fresh =>
      exact h.start ht hg hstarts hmapped fun w watcher hw hpoints =>
        hfree (w, watcher) (mem_entries.2 hw) hpoints
    | _ => cases hstarts
  · obtain ⟨hnone, hschedule⟩ := act_of_not_starts (c := c) (ht.sound arc g hg) hstarts
    rw [hschedule]
    exact h.put_state hg hnone

theorem step (hnew : s.NewNumber x) : Owned (s.step x) := by
  have hend := step_end s x
  generalize s.step x = s' at hend
  cases hend with
  | idle => exact h
  | ticked | arrived | moved => exact h.frame rfl rfl rfl
  | not_opened | listed | not_listed | opened | created | found | current | outdated
  | not_reloaded | appended | not_appended | destroyed | answered | panicked | timed_out
  | hung_up => exact h.frame states_set_phase groups_set_phase watchers_set_phase
  | no_room =>
    exact (h.evict_idle_groups ht).frame states_set_phase groups_set_phase watchers_set_phase
  | placed c request =>
    exact ((h.evict_idle_groups ht).place ht.evict_idle_groups request.group_id).frame
      states_set_phase groups_set_phase watchers_set_phase
  | reloaded c request arc epoch log g hcall hlog hg =>
    exact (h.put_state hg (Group.none_started_apply (ht.sound arc g hg)
      fun _ _ _ _ ha => by cases ha)).frame states_set_phase groups_set_phase watchers_set_phase
  | acted c request arc g hcall hg =>
    exact (h.act ht hcall hg hnew).frame states_set_phase groups_set_phase watchers_set_phase
  | recorded c deleted snapshot trimmed request arc record g hcall hg =>
    have hnone : Group.NoneStarted g (g.apply (.record_applied record)) := .refl g
    exact (h.put_state hg hnone).frame states_set_phase groups_set_phase watchers_set_phase
  | snapshotted c deleted snapshot trimmed request arc record g g' logs hcall hg hg' =>
    have hnone : Group.NoneStarted g g' := hg' ▸ .refl g
    exact (h.put_state hg hnone).frame states_set_phase groups_set_phase watchers_set_phase
  | unlisted c request arc hcall =>
    have hremoved : Owned { s with groups := s.groups.remove request.group_id } :=
      h.of_none_started (fun arc g hg _ => ⟨g, hg, .refl g⟩) fun w watcher arc hw hpoints _ =>
        ⟨watcher, hw, hpoints.imp_right fun ⟨hnone, harc⟩ => ⟨hnone, (of_get_remove harc).2⟩,
          rfl, rfl⟩
    exact hremoved.frame states_set_phase groups_set_phase watchers_set_phase
  | watch_started w watcher arc hw hnone harc =>
    refine h.of_none_started (fun arc g hg _ => ⟨g, hg, .refl g⟩) fun w' watcher' arc' hw' hpoints _ => ?_
    rcases get_insert_cases hw' with ⟨rfl, rfl⟩ | ⟨-, hold⟩
    · rcases hpoints with hsome | ⟨hnone', -⟩
      · cases hsome
        exact ⟨watcher, hw, .inr ⟨hnone, harc⟩, rfl, rfl⟩
      · cases hnone'
    · exact ⟨watcher', hold, hpoints, rfl, rfl⟩
  | watch_ended w watcher hw hnone harc =>
    exact h.of_none_started (fun arc g hg _ => ⟨g, hg, .refl g⟩) fun w' watcher' arc' hw' hpoints _ =>
      ⟨watcher', (of_get_remove hw').2, hpoints, rfl, rfl⟩
  | watched w watcher arc g watchers hw harc hg hwatchers =>
    have hput := h.put_state hg (Group.none_started_apply (ht.sound arc g hg)
      (a := .watch s.now watcher.schedule.id watcher.schedule.deadline) fun _ _ _ _ ha => by cases ha)
    refine hput.of_none_started (fun arc g hg _ => ⟨g, hg, .refl g⟩)
      fun w' watcher' arc' hw' hpoints _ => ⟨watcher', ?_, hpoints, rfl, rfl⟩
    rcases hwatchers with rfl | rfl
    · exact hw'
    · exact (of_get_remove hw').2
  | freed arc hmapped hheld =>
    exact h.of_none_started (fun arc' g hg _ => ⟨g, (of_get_remove hg).2, .refl g⟩)
      fun w watcher arc hw hpoints _ => ⟨watcher, hw, hpoints, rfl, rfl⟩

/-- Whoever is removed for being missing is removed by the watcher of the rebalance. -/
theorem removes_in_time (x : Step) : s.RemovesInTime x := by
  cases x with
  | watch w =>
    intro watcher hw arc harc g hg g' hg' r hr id hid hgone
    have hsound := ht.sound arc g hg
    have hmember : id ∈ (g.expire_members s.now).members.keys :=
      hsound.expire_members.expected_members r hr (List.mem_filter.1 hid).1
    have hend := step_end s (.watch w)
    generalize s.step (.watch w) = s' at hend hg'
    cases hend with
    | idle =>
      cases hg.symm.trans hg'
      have hkept : (g.expire_members s.now).members.keys ⊆ g.members.keys :=
        (Group.members_kept g.members.keys).expire_members hsound (List.Subset.refl _) s.now
      exact absurd (hkept hmember) (not_mem_keys.2 hgone)
    | watched _ watcher' arc' g₀ watchers hw' harc' hg₀ hwatchers =>
      cases hw.symm.trans hw'
      cases harc.symm.trans harc'
      cases hg.symm.trans hg₀
      cases (get_insert_self ..).symm.trans hg'
      rcases Group.watch_end g s.now watcher.schedule.id watcher.schedule.deadline with
        heq | ⟨r', hr', hsame, hdeadline, -⟩
      · rw [Group.apply, heq] at hgone
        exact absurd hmember (not_mem_keys.2 hgone)
      · cases hr.symm.trans hr'
        obtain ⟨r₀, hr₀, hid₀, hdeadline₀, hby₀⟩ :=
          (Group.NoneStarted.kept g).expire_members hsound (.refl g) s.now r hr
        obtain ⟨hby, hsched⟩ := h w watcher arc g r₀ hw (.inl harc) hg hr₀
          (hid₀.symm.trans hsame)
        exact ⟨hby.trans hby₀.symm, hdeadline₀.trans hsched.symm ▸ hdeadline⟩
  | _ => exact trivial

end

end

end Owned

section Runs

variable {max_groups : ℕ} {steps : List Step}

/-- If every rebalance starts in the mapped state, under a number that no watcher of it has, missing
members are removed by the watcher of their rebalance only, and not before its deadline. -/
theorem removed_at_deadline (h : Run.EachStep step { max_groups } steps NewNumber) :
    Run.EachStep step { max_groups } steps RemovesInTime := by
  have hboth : Run.Always step { max_groups } steps fun s => Tracked s ∧ Owned s :=
    Run.always_of_eachStep ⟨Tracked.init max_groups, fun w watcher arc g r hw => by cases hw⟩
      (fun s x hs hnew => ⟨hs.1.step x, hs.2.step hs.1 hnew⟩) h
  exact fun i x _ => (hboth i).2.removes_in_time (hboth i).1 x

/-- A request is served without a pause. -/
def serve (c : ℕ) (request : Request) : List Step :=
  [.arrive c request, .open_log c 1 true, .look_up c, .check_epoch c, .finish_reload c true, .act c]

/-- A new member joins for one stream. -/
def newcomer (fresh : String) : Request :=
  .join { group_id := "g", member_id := "", membership := .subscribed ["s"],
          session_timeout_ms := 300000, rebalance_timeout_ms := 60000 } fresh

/-- The second member joins, and the first one does not join again. -/
def missing_member : List Step :=
  serve 0 (newcomer "a") ++ .tick 1 :: serve 1 (newcomer "b") ++ [.start_watch 1, .watch 1]

theorem missing_member_removed :
    Run.EachStep step { max_groups := 1 } (missing_member ++ [.tick 60000, .watch 1]) NewNumber ∧
      Run.EachStep step { max_groups := 1 } (missing_member ++ [.tick 60000, .watch 1])
        RemovesInTime ∧
      ((Run.run step { max_groups := 1 } missing_member).states.get 0).map
        (fun g => g.members.keys) = some ["a", "b"] ∧
      ((Run.run step { max_groups := 1 } (missing_member ++ [.tick 60000, .watch 1])).states.get
        0).map (fun g => g.members.keys) = some ["b"] := by
  have h : Run.EachStep step { max_groups := 1 } (missing_member ++ [.tick 60000, .watch 1])
      NewNumber := by
    decide +kernel
  exact ⟨h, removed_at_deadline h, by decide +kernel, by decide +kernel⟩

/-- The log moves while the watcher sleeps, and in the reloaded group the numbers begin anew. -/
def reloaded_group : List Step :=
  missing_member ++ .move_log "g" (some ⟨2, []⟩) :: .tick 9 :: serve 2 (newcomer "c") ++
    .tick 20 :: serve 3 (newcomer "d") ++ [.tick 59971]

/-- The old watcher removes a member from the second rebalance, 29 ms before its deadline. -/
theorem removed_by_old_watcher :
    let s := Run.run step { max_groups := 1 } reloaded_group
    ¬ s.RemovesInTime (.watch 1) ∧ s.now = 60001 ∧
      s.watchers.get 1 = some ⟨"g", ⟨2, 60001⟩, 1, some 0⟩ ∧
      ((s.states.get 0).bind Group.rebalance).map
        (fun r => (r.id, r.started_by, r.deadline, r.missing)) = some (2, 3, 60030, ["c"]) ∧
      (s.states.get 0).map (fun g => g.members.keys) = some ["c", "d"] ∧
      ((s.step (.watch 1)).states.get 0).map (fun g => g.members.keys) = some ["d"] := by
  decide +kernel

end Runs

end Coordinator

end PicoMq.Groups
