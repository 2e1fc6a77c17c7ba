import PicoMq.Groups.Proofs.MemberProofs
import PicoMq.Groups.Rounds

/-!
# When syncs wait, and what they are told

Departures take their own syncs along, and settling answers all others; only the join that starts a
rebalance leaves them.
-/

namespace PicoMq.Groups

open List OrdMap

namespace Group

variable {g : Group} {now sender t : ℕ} {fresh id : String} {input : JoinInput} {r : Rebalance}
  {membership : Membership} {a : Action}

/-! ## Parked syncs -/

/-- Syncs are parked only while a rebalance completes; a group with a mode is not empty. -/
structure SyncsFit (g : Group) : Prop where
  parked : g.SyncsParked
  not_empty : g.mode.isSome → g.phase ≠ .empty

theorem SyncsFit.none_parked (h : SyncsFit g) (hphase : g.phase = .preparingRebalance) :
    g.sync_waiters = empty := by
  rcases h.parked with hnone | hcompleting
  · exact hnone
  · rw [hphase] at hcompleting
    cases hcompleting

theorem SyncsFit.settle (h : SyncsFit g) (hg : Sound g) : SyncsFit (g.settle now) := by
  have hend := settle_end hg.has_mode now
  generalize g.settle now = g' at hend
  cases hend with
  | emptied hmembers =>
    have hnone : g.sync_waiters = empty := by
      refine eq_empty_of_keys fun id hid => ?_
      have hin := hg.syncs_members hid
      rwa [hmembers] at hin
    exact ⟨.inl hnone, fun hmode => by cases hmode⟩
  | waiting r hr hready => exact ⟨h.parked, h.not_empty⟩
  | assigned => exact ⟨.inl rfl, fun _ hphase => by cases hphase⟩
  | elected => exact ⟨.inl rfl, fun _ hphase => by cases hphase⟩
  | dissolved => exact ⟨.inl rfl, fun hmode => by cases hmode⟩
  | rebalancing => exact ⟨.inl rfl, fun _ hphase => by cases hphase⟩
  | unchanged => exact ⟨h.parked, h.not_empty⟩

theorem SyncsFit.kept : Kept SyncsFit where
  frame := by
    intro g g' h hphase _ hmode _ _ hsync _ _
    refine ⟨?_, ?_⟩
    · rw [SyncsParked, hsync, hphase]
      exact h.parked
    · rw [hmode, hphase]
      exact h.not_empty
  depart := by
    intro g id error h
    refine ⟨h.parked.imp_left fun hnone => ?_, h.not_empty⟩
    show g.sync_waiters.remove id = _
    rw [hnone]
    rfl
  beat := fun _ h _ => ⟨h.parked, h.not_empty⟩
  settle := fun _ hg h => h.settle hg

theorem SyncsFit.joining (h : SyncsFit g) (hg : Sound g)
    (hsync : g.rebalance = none → g.sync_waiters = empty) :
    SyncsFit (g.joining now sender id membership) := by
  cases hr : g.rebalance with
  | none =>
    rw [joining_start hr]
    exact ⟨.inl (hsync hr), fun _ hphase => by cases hphase⟩
  | some r =>
    have hphase := hg.preparing r hr
    rw [joining_pending hr]
    refine ⟨.inl (h.none_parked hphase), fun _ hempty => ?_⟩
    rw [show _ = GroupState.preparingRebalance from hphase] at hempty
    cases hempty

theorem NoSyncWaits.depart {error : GroupError}
    (h : g.rebalance = none → g.sync_waiters = empty)
    (hr : (g.depart id error).rebalance = none) :
    (g.depart id error).sync_waiters = empty := by
  show g.sync_waiters.remove id = _
  rw [h (Option.map_eq_none_iff.1 hr)]
  rfl

theorem SyncsFit.put_member (h : SyncsFit g) : SyncsFit (g.put_member id input now) :=
  ⟨h.parked, h.not_empty⟩

theorem SyncsFit.join (h : SyncsFit g) (hg : Sound g)
    (hwaits : g.NoSyncWaits (.join now fresh sender input)) :
    SyncsFit (g.join now fresh sender input).1 := by
  have hrefresh := SyncsFit.kept.refresh hg h now
  refine SyncsFit.kept.join hg hrefresh (fun _ _ => hrefresh.put_member) fun id hpart hfenced => ?_
  refine hfenced.put_member.joining hg.admitted ?_
  exact depart_all_invariant (P := fun g => g.rebalance = none → g.sync_waiters = empty)
    (fun _ _ h => NoSyncWaits.depart h) (hwaits hpart) _

theorem SyncsFit.sync {input : SyncInput} (h : SyncsFit g) (hg : Sound g) :
    SyncsFit (g.sync now sender input).1 := by
  have hexpire := SyncsFit.kept.expire_members hg h now
  have hend := sync_end g now sender input
  generalize g.sync now sender input = result at hend
  cases hend with
  | answered result => exact hexpire
  | distributed => exact ⟨.inl rfl, fun _ hempty => by cases hempty⟩
  | parked m protocol_type protocol_name leader hm hmode hpreparing hstable =>
    have hempty : (g.expire_members now).phase ≠ .empty := hexpire.not_empty (by rw [hmode]; rfl)
    refine ⟨.inr ?_, hexpire.not_empty⟩
    show (g.expire_members now).phase = _
    cases hphase : (g.expire_members now).phase with
    | empty => exact absurd hphase hempty
    | preparingRebalance => exact absurd hphase hpreparing
    | completingRebalance => rfl
    | stable => exact absurd hphase hstable

/-- A join that starts a rebalance is the only action that can leave a sync parked. -/
theorem SyncsFit.apply (h : SyncsFit g) (hg : Sound g) (hwaits : g.NoSyncWaits a) :
    SyncsFit (g.apply a) := by
  refine SyncsFit.kept.apply hg h a ?_ ?_ ?_
  · rintro now fresh sender input rfl
    exact h.join hg hwaits
  · rintro now sender input rfl
    exact h.sync hg
  · rintro epoch offsets replayed now rfl
    exact ⟨.inl rfl, fun hmode => by cases hmode⟩

/-! ## What parked syncs are told -/

section

variable (h : g.sync_waiters.get id = some t)
include h

theorem sync_depart (id' : String) (error : GroupError) :
    id = id' ∧ (t, .sync (.error error)) ∈ (g.depart id' error).sent ∨
      (g.depart id' error).sync_waiters.get id = some t := by
  by_cases hid : id = id'
  · subst hid
    refine .inl ⟨rfl, mem_append_right _ (mem_append_left _ ?_)⟩
    rw [h]
    exact mem_singleton.2 rfl
  · refine .inr ?_
    show (g.sync_waiters.remove id').get id = _
    rw [get_remove, if_neg hid]
    exact h

theorem sync_depart_all (ids : List String)
    (error : GroupError) :
    id ∈ ids ∧ (t, .sync (.error error)) ∈ (g.depart_all ids error).sent ∨
      (g.depart_all ids error).sync_waiters.get id = some t := by
  induction ids generalizing g with
  | nil => exact .inr h
  | cons id' ids ih =>
    rcases sync_depart h id' error with ⟨rfl, hsent⟩ | hstill
    · exact .inl ⟨mem_cons_self .., (sent_depart_all ids error).subset hsent⟩
    · exact (ih hstill).imp_left fun ⟨hid, hsent⟩ => ⟨mem_cons_of_mem _ hid, hsent⟩

theorem sync_leave_all
    (members : List (String × Option String)) :
    id ∈ members.map Prod.fst ∧
        (t, .sync (.error .unknownMember)) ∈ (g.leave_all members).1.sent ∨
      (g.leave_all members).1.sync_waiters.get id = some t := by
  induction members generalizing g with
  | nil => exact .inr h
  | cons member members ih =>
    have hone : id = member.1 ∧ (t, .sync (.error .unknownMember)) ∈ (g.leave_one member).1.sent ∨
        (g.leave_one member).1.sync_waiters.get id = some t := by
      unfold leave_one
      split
      · exact .inr h
      · split_ifs
        · exact .inr h
        · exact sync_depart h member.1 .unknownMember
    rcases hone with ⟨rfl, hsent⟩ | hstill
    · exact .inl ⟨mem_cons_self .., (sent_leave_all members).subset hsent⟩
    · exact (ih hstill).imp_left fun ⟨hid, hsent⟩ => ⟨mem_cons_of_mem _ hid, hsent⟩

end

theorem mem_refuse_syncs {waiters : OrdMap String ℕ} (h : waiters.get id = some t)
    (error : GroupError) : (t, .sync (.error error)) ∈ refuse_syncs waiters error :=
  mem_map.2 ⟨(id, t), mem_entries.2 h, rfl⟩

theorem sync_settle (hg : Sound g) (h : g.sync_waiters.get id = some t) :
    (t, .sync (.error .rebalanceInProgress)) ∈ (g.settle now).sent ∨
      (g.settle now).sync_waiters.get id = some t := by
  have hend := settle_end hg.has_mode now
  have hmem := mem_refuse_syncs h .rebalanceInProgress
  generalize g.settle now = g' at hend
  cases hend with
  | emptied | waiting | unchanged => exact .inr h
  | assigned | elected | dissolved =>
    exact .inl (mem_append_left _ (mem_append_right _ hmem))
  | rebalancing => exact .inl (mem_append_right _ hmem)

theorem sync_expire_members (hg : Sound g) (h : g.sync_waiters.get id = some t) :
    ((t, .sync (.error .rebalanceInProgress)) ∈ (g.expire_members now).sent ∨
        id ∈ g.expired now ∧ (t, .sync (.error .unknownMember)) ∈ (g.expire_members now).sent) ∨
      (g.expire_members now).sync_waiters.get id = some t := by
  unfold expire_members
  split
  · exact .inr h
  · have hdeparted := hg.depart_all (g.expired now) .unknownMember
    rcases sync_depart_all h (g.expired now) .unknownMember with ⟨hid, hsent⟩ | hstill
    · exact .inl (.inr ⟨hid, (sent_settle hdeparted.has_mode).subset hsent⟩)
    · exact (sync_settle hdeparted hstill).imp_left .inl

theorem SyncsFit.completing (h : SyncsFit g) (hstill : g.sync_waiters.get id = some t) :
    g.phase = .completingRebalance := by
  rcases h.parked with hnone | hphase
  · rw [hnone] at hstill
    cases hstill
  · exact hphase

theorem SyncsFit.told_by_join (h : SyncsFit g) (hg : Sound g)
    (hwaits : g.NoSyncWaits (.join now fresh sender input))
    (hstill : (g.refresh now).sync_waiters.get id = some t) :
    (g.join now fresh sender input).1.phase ≠ .preparingRebalance := by
  have hcompleting := (SyncsFit.kept.refresh hg h now).completing hstill
  have hphase : (g.refresh now).phase ≠ .preparingRebalance := by
    rw [hcompleting]
    exact fun hpreparing => by cases hpreparing
  have hend := join_end g now fresh sender input
  generalize g.join now fresh sender input = result at hend
  cases hend with
  | refused | id_required => exact hphase
  | fenced id' m hcheck hm hne =>
    show ((g.refresh now).depart_all _ _).phase ≠ _
    rw [phase_depart_all]
    exact hphase
  | parked id' is_new hcheck hpart =>
    have hnone : (g.refresh now).rebalance = none := by
      cases hr : (g.refresh now).rebalance with
      | none => rfl
      | some r => exact absurd (hg.refresh.preparing r hr) hphase
    rw [hwaits hpart hnone] at hstill
    cases hstill

theorem phase_sync (g : Group) (now sender : ℕ) (input : SyncInput) :
    (g.sync now sender input).1.phase = (g.expire_members now).phase ∨
      (g.sync now sender input).1.phase = .stable := by
  have hend := sync_end g now sender input
  generalize g.sync now sender input = result at hend
  cases hend with
  | answered | parked => exact .inl rfl
  | distributed => exact .inr rfl

theorem SyncsFit.told_late (h : SyncsFit g) (hg : Sound g) (hwaits : g.NoSyncWaits a)
    (hnow : a.expires = some now) (hafter : (g.apply a).phase = .preparingRebalance)
    (hstill : (g.expire_members now).sync_waiters.get id = some t)
    (hanswered : (g.apply a).sync_waiters.get id ≠ some t) :
    (t, .sync (.error .rebalanceInProgress)) ∈ (g.apply a).sent ∨
      id ∈ a.leaving ∧ (t, .sync (.error .unknownMember)) ∈ (g.apply a).sent := by
  have hcompleting := (SyncsFit.kept.expire_members hg h now).completing hstill
  have hphase : (g.expire_members now).phase ≠ .preparingRebalance := by
    rw [hcompleting]
    exact fun hpreparing => by cases hpreparing
  cases a with
  | join =>
    cases hnow
    exact absurd hafter (h.told_by_join hg hwaits hstill)
  | sync now' sender input =>
    cases hnow
    rcases phase_sync g now sender input with heq | heq
    · exact absurd (heq.symm.trans hafter) hphase
    · cases heq.symm.trans hafter
  | heartbeat now' fence =>
    cases hnow
    rcases heartbeat_end g now fence with ⟨error, heq⟩ | ⟨m, result, hm, heq⟩
    · rw [Group.apply, heq] at hafter
      exact absurd hafter hphase
    · rw [Group.apply, heq] at hafter
      exact absurd hafter hphase
  | assignment now' fence =>
    cases hnow
    obtain ⟨result, heq⟩ := assignment_end g now fence
    rw [Group.apply, heq] at hafter
    exact absurd hafter hphase
  | leave now' members =>
    cases hnow
    have hleft : Sound ((g.refresh now).leave_all members).1 := hg.refresh.leave_all members
    rw [Group.apply, leave] at hanswered ⊢
    dsimp only at hanswered ⊢
    split_ifs at hanswered ⊢
    · rcases sync_leave_all (g := g.refresh now) hstill members with ⟨hid, hsent⟩ | hstill'
      · exact .inr ⟨hid, (sent_settle hleft.has_mode).subset hsent⟩
      · exact .inl ((sync_settle hleft hstill').resolve_right hanswered)
    · rcases sync_leave_all (g := g.refresh now) hstill members with ⟨hid, hsent⟩ | hstill'
      · exact .inr ⟨hid, hsent⟩
      · exact absurd hstill' hanswered
  | expire | begin_commit =>
    cases hnow
    exact absurd hafter hphase
  | watch now' rebalance_id deadline =>
    cases hnow
    rcases watch_end g now rebalance_id deadline with heq | ⟨r, hr, -, -, heq⟩
    · rw [Group.apply, heq] at hafter
      exact absurd hafter hphase
    · exact absurd (hg.expire_members.preparing r hr) hphase
  | _ => cases hnow

/-- Whatever begins a rebalance tells the parked syncs, since none stays parked. -/
theorem SyncsFit.told (h : SyncsFit g) (hg : Sound g) (hwaits : g.NoSyncWaits a) :
    g.SyncsTold a := by
  intro hbefore hafter id t hparked
  have hanswered : (g.apply a).sync_waiters.get id ≠ some t := by
    intro hstill
    have hcompleting := (h.apply hg hwaits).completing hstill
    rw [hafter] at hcompleting
    cases hcompleting
  cases hnow : a.expires with
  | none =>
    -- without a look at the clock no rebalance begins
    cases a with
    | reload => cases hafter
    | begin_delete_offsets | fetch_offsets | record_applied | snapshot =>
      exact absurd hafter hbefore
    | _ => cases hnow
  | some now =>
    rcases sync_expire_members hg hparked with (hsent | ⟨hid, hsent⟩) | hstill
    · exact .inl ((sent_expires hg hnow).subset hsent)
    · exact .inr ⟨.inl ⟨now, rfl, hid⟩, (sent_expires hg hnow).subset hsent⟩
    · exact (h.told_late hg hwaits hnow hafter hstill hanswered).imp_right
        fun ⟨hid, hsent⟩ => ⟨.inr hid, hsent⟩

section Runs

variable {epoch : ℤ} {offsets : OffsetTable} {appends : ℕ} {actions : List Action}

theorem SyncsFit.loaded : SyncsFit (loaded epoch offsets appends now) :=
  ⟨.inl rfl, fun hmode => by cases hmode⟩

/-- If no join starts a rebalance while a sync is parked, syncs are parked only while the leader is
to give out assignments, and whatever begins a rebalance tells them. -/
theorem syncs_parked_while_completing
    (h : Run.EachStep apply (loaded epoch offsets appends now) actions NoSyncWaits) :
    Run.Always apply (loaded epoch offsets appends now) actions SyncsParked ∧
      Run.EachStep apply (loaded epoch offsets appends now) actions SyncsTold := by
  have hboth : Run.Always apply (Group.loaded epoch offsets appends now) actions
      fun g => Sound g ∧ SyncsFit g :=
    Run.always_of_eachStep ⟨Sound.loaded, SyncsFit.loaded⟩
      (fun g a hg hwaits => ⟨hg.1.apply a, hg.2.apply hg.1 hwaits⟩) h
  exact ⟨fun i => (hboth i).2.parked, fun i a ha => (hboth i).2.told (hboth i).1 (h i a ha)⟩

/-- A client that knows one protocol joins, with an id or without. -/
def client_joins (now : ℕ) (fresh : String) (sender : ℕ) (member_id : String) : Action :=
  .join now fresh sender
    { group_id := "g", member_id, membership := .client "consumer" [⟨"range", []⟩],
      session_timeout_ms := 300000, rebalance_timeout_ms := 60000 }

/-- Two clients have joined, and the follower waits for its assignment. -/
def follower_waits : List Action :=
  [client_joins 0 "a" 0 "", client_joins 1 "b" 1 "", client_joins 2 "" 2 "a",
    .sync 3 3 ⟨"g", 2, "b", none, []⟩]

theorem follower_waits_while_completing :
    Run.EachStep apply (loaded 0 OrdMap.empty 0 0) follower_waits NoSyncWaits ∧
      Run.Always apply (loaded 0 OrdMap.empty 0 0) follower_waits SyncsParked ∧
      (Run.run apply (loaded 0 OrdMap.empty 0 0) follower_waits).sync_waiters.get "b" = some 3 := by
  have h : Run.EachStep apply (Group.loaded 0 OrdMap.empty 0 0) follower_waits NoSyncWaits := by
    decide +kernel
  exact ⟨h, (syncs_parked_while_completing h).1, by decide +kernel⟩

/-- A third client joins: the group does not tell the follower, and removes it at the deadline. -/
theorem follower_not_told :
    let g := Run.run apply (loaded 0 OrdMap.empty 0 0) (follower_waits ++ [client_joins 4 "c" 4 ""])
    let g' := g.apply (.watch 60004 3 60004)
    (¬ g.SyncsParked ∧ g.phase = .preparingRebalance ∧ g.sync_waiters.get "b" = some 3 ∧
      3 ∉ g.sent.map Prod.fst) ∧
    g'.members.get "b" = none ∧ (3, .sync (.error .unknownMember)) ∈ g'.sent := by
  decide +kernel

end Runs

end Group

end PicoMq.Groups
