import PicoMq.Groups.Proofs.StateProofs
import PicoMq.Groups.Requests

/-!
# Requests keep a group sound

A request that parks adds its own sender to those of the group, and no other does; no request runs
into a panic.
-/

namespace PicoMq.Groups

open List OrdMap

namespace Group

variable {g : Group} {now sender t : ℕ} {fresh id : String} {input : JoinInput} {is_new : Bool}
variable {instance_id : Option String}

/-! ## What a join does -/

theorem check_join_ok (h : g.check_join fresh input = .ok (id, is_new)) :
    is_new = true ∧ id = fresh ∧ g.resolve_member_id input = "" ∨
      is_new = false ∧ id ∈ g.members.keys := by
  unfold check_join at h
  dsimp only at h
  split_ifs at h with hfull hknown hmember hmode hover hmember hmode hover
  · obtain ⟨hid, hnew⟩ := Prod.mk.inj (Except.ok.inj h)
    exact .inl ⟨hnew.symm.trans hknown, hid.symm, of_decide_eq_true hknown⟩
  · obtain ⟨hid, hnew⟩ := Prod.mk.inj (Except.ok.inj h)
    refine .inr ⟨hnew.symm.trans (Bool.eq_false_iff.2 hknown), ?_⟩
    rw [← contains_key_iff_mem_keys, ← hid]
    by_contra hnot
    exact hmember ⟨hknown, hnot⟩

theorem compatible_of_check_join {mode : Mode} (h : g.check_join fresh input = .ok (id, is_new))
    (hmode : g.mode = some mode) : compatible mode input.membership = true := by
  unfold check_join at h
  dsimp only at h
  split_ifs at h with hfull hknown hmember hfit hover hmember hfit hover
  all_goals
    rw [hmode] at hfit
    simpa using hfit

theorem mem_stale {id' : String} :
    id' ∈ g.stale id instance_id ↔
      id' ≠ id ∧ ∃ m, g.members.get id' = some m ∧ m.instance_id.isSome ∧
        m.instance_id = instance_id := by
  cases instance_id with
  | none =>
    simp only [stale, not_mem_nil, false_iff, not_and, not_exists]
    rintro - m - hsome hnone
    rw [hnone] at hsome
    cases hsome
  | some instance_id =>
    simp only [stale, mem_map, mem_filter, Prod.exists, mem_entries,
      decide_eq_true_eq]
    constructor
    · rintro ⟨id'', m, ⟨hm, hne, hinstance⟩, rfl⟩
      exact ⟨hne, m, hm, by rw [hinstance]; rfl, hinstance⟩
    · rintro ⟨hne, m, hm, -, hinstance⟩
      exact ⟨id', m, ⟨hm, hne, hinstance⟩, rfl⟩

theorem get_members_fence_stale (id : String) (instance_id : Option String) :
    (g.fence_stale id instance_id).members.get id = g.members.get id := by
  rw [fence_stale, get_members_depart_all, if_neg]
  exact fun hid => (mem_stale.1 hid).1 rfl

theorem get_members_put_member (id' : String) :
    (g.put_member id input now).members.get id' =
      if id' = id then some (member_from_input input now) else g.members.get id' :=
  get_insert ..

theorem stale_put_member :
    (g.put_member id input now).stale id instance_id = g.stale id instance_id := by
  unfold stale
  split
  · rfl
  · rw [put_member, filter_entries_insert fun m => by simp]

theorem depart_put_member {id' : String} {error : GroupError} (h : id ≠ id') :
    (g.put_member id input now).depart id' error =
      (g.depart id' error).put_member id input now := by
  have hmembers := insert_remove_comm (m := g.members) (v := member_from_input input now) h
  unfold depart put_member
  rw [hmembers]
  rfl

theorem fence_stale_put_member :
    (g.put_member id input now).fence_stale id instance_id =
      (g.fence_stale id instance_id).put_member id input now := by
  have hne : ∀ id' ∈ g.stale id instance_id, id ≠ id' := fun id' h => (mem_stale.1 h).1.symm
  rw [fence_stale, fence_stale, stale_put_member]
  generalize g.stale id instance_id = ids at hne
  induction ids generalizing g with
  | nil => rfl
  | cons id' ids ih =>
    show ((g.put_member id input now).depart id' _).depart_all ids _ = _
    rw [depart_put_member (hne id' (mem_cons_self ..)),
      ih fun id'' h => hne id'' (mem_cons_of_mem _ h)]
    rfl

/-- The group that a join enters under the id: the others with its instance id are gone. -/
def admitted (g : Group) (now : ℕ) (id : String) (input : JoinInput) : Group :=
  ((g.refresh now).fence_stale id input.instance_id).put_member id input now

/-- How a join ends. A new member is put into the group before those with its instance id depart and
a known one after, which comes to the same. -/
inductive JoinEnd (g : Group) (now : ℕ) (fresh : String) (sender : ℕ) (input : JoinInput) :
    Group × JoinReply → Prop
  | refused (outcome : JoinOutcome)
      (hcheck : (g.refresh now).check_join fresh input = .error outcome) :
      JoinEnd g now fresh sender input (g.refresh now, .answered outcome)
  | id_required (hcheck : (g.refresh now).check_join fresh input = .ok (fresh, true))
      (hrequire : input.require_known_member_id = true) :
      JoinEnd g now fresh sender input
        ((g.refresh now).put_member fresh input now, .answered (.error .memberIdRequired fresh))
  | fenced (id : String) (m : Member)
      (hcheck : (g.refresh now).check_join fresh input = .ok (id, false))
      (hm : (g.refresh now).members.get id = some m) (hne : m.instance_id ≠ input.instance_id) :
      JoinEnd g now fresh sender input
        ((g.refresh now).fence_stale id input.instance_id, .answered (.error .fencedInstance id))
  | parked (id : String) (is_new : Bool)
      (hcheck : (g.refresh now).check_join fresh input = .ok (id, is_new))
      (hpart : (g.refresh now).takes_part fresh input = true) :
      JoinEnd g now fresh sender input
        ((g.admitted now id input).enter now sender id input.membership)

theorem join_end (g : Group) (now : ℕ) (fresh : String) (sender : ℕ) (input : JoinInput) :
    JoinEnd g now fresh sender input (g.join now fresh sender input) := by
  unfold join
  dsimp only
  cases hcheck : (g.refresh now).check_join fresh input with
  | error outcome => exact .refused outcome hcheck
  | ok checked =>
    obtain ⟨id, is_new⟩ := checked
    dsimp only
    rcases check_join_ok hcheck with ⟨rfl, rfl, -⟩ | ⟨rfl, hid⟩
    · by_cases hrequire : input.require_known_member_id = true
      · rw [if_pos ⟨rfl, hrequire⟩]
        exact .id_required hcheck hrequire
      · rw [if_neg fun h => hrequire h.2, claim_instance, get_members_fence_stale, admit_new,
          if_pos rfl, get_members_put_member, if_pos rfl]
        have hinstance : (member_from_input input now).instance_id = input.instance_id := rfl
        dsimp only
        rw [if_neg (not_not_intro hinstance)]
        rw [fence_stale_put_member]
        refine .parked id true hcheck ?_
        rw [takes_part, hcheck]
        simpa using hrequire
    · obtain ⟨m, hm⟩ := mem_keys.1 hid
      rw [if_neg fun h => Bool.false_ne_true h.1, claim_instance, get_members_fence_stale,
        admit_new, if_neg Bool.false_ne_true, hm]
      dsimp only
      by_cases hinstance : m.instance_id = input.instance_id
      · rw [if_neg (not_not_intro hinstance)]
        refine .parked id false hcheck ?_
        rw [takes_part, hcheck]
        simp [hm, hinstance]
      · rw [if_pos hinstance]
        exact .fenced id m hcheck hm hinstance

/-! ## Senders -/

theorem tokens_refresh : (g.refresh now).tokens.count t = g.tokens.count t :=
  tokens_expire_members

theorem tokens_fence_stale : (g.fence_stale id instance_id).tokens.count t = g.tokens.count t :=
  tokens_depart_all _

theorem tokens_start_rebalance :
    (g.start_rebalance now sender).1.tokens.count t = g.tokens.count t := by
  unfold start_rebalance
  split
  · rfl
  · rename_i hrebalance
    rw [count_tokens, count_tokens, join_waiters_none hrebalance]
    rfl

theorem tokens_park_join :
    (g.park_join id sender).tokens.count t = g.tokens.count t + [sender].count t := by
  unfold park_join
  split
  · exact tokens_panic ..
  · rename_i rebalance hrebalance
    have hwaiters := count_values_insert rebalance.waiters id sender t
    rw [count_tokens, count_tokens, join_waiters_some hrebalance]
    show (rebalance.waiters.insert id sender).values.count t + g.sync_waiters.values.count t +
      ((g.sent ++ (rebalance.waiters.get id).toList.map _).map Prod.fst).count t +
      g.dropped.count t = _
    rw [map_append, map_map, count_append]
    simp only [Function.comp_def, map_id']
    omega

theorem tokens_enter {membership : Membership} :
    (g.enter now sender id membership).1.tokens.count t =
      g.tokens.count t + [sender].count t := by
  rw [enter]
  dsimp only
  rw [tokens_settle, tokens_park_join, tokens_start_rebalance]
  rfl

/-- The sender of a join that parks. -/
def JoinReply.parks : JoinReply → Bool
  | .parked _ => true
  | _ => false

theorem tokens_join :
    (g.join now fresh sender input).1.tokens.count t = g.tokens.count t +
      if (g.join now fresh sender input).2.parks then [sender].count t else 0 := by
  have hend := join_end g now fresh sender input
  generalize g.join now fresh sender input = result at hend ⊢
  cases hend with
  | refused outcome hcheck => exact tokens_refresh
  | id_required hcheck hrequire => exact tokens_refresh
  | fenced id m hcheck hm hne => exact tokens_fence_stale.trans tokens_refresh
  | parked id is_new hcheck hpart =>
    refine tokens_enter.trans ?_
    exact congrArg (· + _) (tokens_fence_stale.trans tokens_refresh)

/-! ## Other requests -/

variable {fence : MemberFence} {sync_input : SyncInput} {members : List (String × Option String)}

theorem check_fence_ok (h : g.check_fence fence = .ok ()) :
    ∃ m, g.members.get fence.member_id = some m ∧ g.generation = fence.generation := by
  unfold check_fence at h
  split at h
  · cases h
  · rename_i m hm
    split_ifs at h with hinstance hgeneration
    exact ⟨m, hm, by simpa using hgeneration⟩

/-- The ways in which a sync ends, once the members that have expired are gone. -/
inductive SyncEnd (g : Group) (sender : ℕ) (input : SyncInput) : Group × SyncReply → Prop
  | answered (result : Except GroupError SyncOutcome) : SyncEnd g sender input (g, .answered result)
  | distributed (protocol_type protocol_name : String) (members : OrdMap String Member)
      (outcome : String → SyncOutcome)
      (hmode : g.mode = some (.client protocol_type protocol_name input.member_id))
      (hphase : g.phase ≠ .preparingRebalance) :
      SyncEnd g sender input
        ({ g with
            members
            phase := .stable
            sync_waiters := OrdMap.empty
            sent := g.sent ++ g.sync_waiters.entries.map fun e => (e.2, .sync (.ok (outcome e.1))) },
          .answered (.ok (outcome input.member_id)))
  | parked (m : Member) (protocol_type protocol_name leader : String)
      (hmember : g.members.get input.member_id = some m)
      (hmode : g.mode = some (.client protocol_type protocol_name leader))
      (hpreparing : g.phase ≠ .preparingRebalance) (hstable : g.phase ≠ .stable) :
      SyncEnd g sender input
        ({ g with
            sync_waiters := g.sync_waiters.insert input.member_id sender
            sent := g.sent ++ (g.sync_waiters.get input.member_id).toList.map
              fun previous => (previous, .sync (.error .superseded)) },
          .parked m.rebalance_timeout)

theorem sync_end (g : Group) (now sender : ℕ) (input : SyncInput) :
    SyncEnd (g.expire_members now) sender input (g.sync now sender input) := by
  unfold sync
  dsimp only
  cases hfence : (g.expire_members now).check_fence
      ⟨input.generation, input.member_id, input.instance_id⟩ with
  | error error => exact .answered _
  | ok checked =>
    obtain ⟨m, hm, -⟩ := check_fence_ok hfence
    dsimp only
    split
    · rename_i protocol_type protocol_name leader hmode
      split_ifs with hpreparing hstable hleader
      · exact .answered _
      · exact .answered _
      · unfold distribute
        dsimp only
        split
        · exact .answered _
        · exact .distributed protocol_type protocol_name _ (sync_outcome _) (hleader ▸ hmode)
            hpreparing
      · rw [park_sync, hm]
        exact .parked m protocol_type protocol_name leader hm hmode hpreparing hstable
    · exact .answered _

def SyncReply.parks : SyncReply → Bool
  | .parked _ => true
  | _ => false

theorem tokens_sync :
    (g.sync now sender sync_input).1.tokens.count t = g.tokens.count t +
      if (g.sync now sender sync_input).2.parks then [sender].count t else 0 := by
  have hend := sync_end g now sender sync_input
  have hexpire : (g.expire_members now).tokens.count t = g.tokens.count t := tokens_expire_members
  rw [← hexpire]
  generalize g.sync now sender sync_input = result at hend ⊢
  generalize g.expire_members now = g at hend
  cases hend with
  | answered result => rfl
  | distributed protocol_type protocol_name members outcome hmode hphase =>
    rw [count_tokens, count_tokens]
    show g.join_waiters.values.count t + 0 + ((g.sent ++ g.sync_waiters.entries.map _).map
      Prod.fst).count t + g.dropped.count t = _
    rw [map_append, map_map, count_append]
    show _ + 0 + (_ + g.sync_waiters.values.count t) + _ = _ + 0
    omega
  | parked m protocol_type protocol_name leader hm hmode hpreparing hstable =>
    have hwaiters := count_values_insert g.sync_waiters sync_input.member_id sender t
    rw [count_tokens, count_tokens]
    show g.join_waiters.values.count t +
      (g.sync_waiters.insert sync_input.member_id sender).values.count t +
      ((g.sent ++ (g.sync_waiters.get sync_input.member_id).toList.map _).map Prod.fst).count t +
      g.dropped.count t = _ + [sender].count t
    rw [map_append, map_map, count_append]
    simp only [Function.comp_def, map_id']
    omega

theorem heartbeat_end (g : Group) (now : ℕ) (fence : MemberFence) :
    (∃ error, g.heartbeat now fence = (g.expire_members now, .answered (.error error))) ∨
      ∃ m result, (g.expire_members now).members.get fence.member_id = some m ∧
        g.heartbeat now fence =
          ({ g.expire_members now with
              members := (g.expire_members now).members.insert fence.member_id
                { m with last_heartbeat := now } }, .answered result) := by
  unfold heartbeat
  dsimp only
  cases hfence : (g.expire_members now).check_fence fence with
  | error error => exact .inl ⟨error, rfl⟩
  | ok checked =>
    obtain ⟨m, hm, -⟩ := check_fence_ok hfence
    dsimp only
    rw [hm]
    exact .inr ⟨m, _, rfl, rfl⟩

theorem assignment_end (g : Group) (now : ℕ) (fence : MemberFence) :
    ∃ result, g.assignment now fence = (g.expire_members now, .answered result) := by
  unfold assignment
  dsimp only
  cases hfence : (g.expire_members now).check_fence fence with
  | error error => exact ⟨_, rfl⟩
  | ok checked =>
    obtain ⟨m, hm, -⟩ := check_fence_ok hfence
    dsimp only
    split_ifs
    · exact ⟨_, rfl⟩
    · rw [hm]
      split
      · rename_i hnone
        cases hnone
      · exact ⟨_, rfl⟩
      · exact ⟨_, rfl⟩

theorem leave_all_invariant {P : Group → Prop}
    (hdepart : ∀ g id, P g → P (g.depart id .unknownMember)) (h : P g)
    (members : List (String × Option String)) : P (g.leave_all members).1 := by
  induction members generalizing g with
  | nil => exact h
  | cons member members ih =>
    refine ih ?_
    unfold leave_one
    split
    · exact h
    · split_ifs
      · exact h
      · exact hdepart g member.1 h

theorem leave_invariant {P : Group → Prop}
    (hdepart : ∀ g id, P g → P (g.depart id .unknownMember))
    (hsettle : ∀ g, P g → P (g.settle now)) (h : P (g.refresh now))
    (members : List (String × Option String)) : P (g.leave now members).1 := by
  have hleft := leave_all_invariant hdepart h members
  unfold leave
  dsimp only
  split_ifs
  · exact hsettle _ hleft
  · exact hleft

/-- A watcher lets sessions run out, and at the deadline removes who is missing. -/
theorem watch_end (g : Group) (now rebalance_id deadline : ℕ) :
    (g.watch now rebalance_id deadline).1 = g.expire_members now ∨
      ∃ r, (g.expire_members now).rebalance = some r ∧ r.id = rebalance_id ∧ deadline ≤ now ∧
        g.watch now rebalance_id deadline =
          (((g.expire_members now).depart_all r.missing .unknownMember).settle now, none) := by
  unfold watch
  dsimp only
  split
  · exact .inl rfl
  · rename_i r hr
    split_ifs with hid hdeadline
    · exact .inl rfl
    · exact .inr ⟨r, hr, not_not.1 hid, hdeadline, rfl⟩
    · exact .inl rfl

/-! ## All of them -/

def Action.parked (g : Group) : Action → List ℕ
  | .join now fresh sender input => if (g.join now fresh sender input).2.parks then [sender] else []
  | .sync now sender input => if (g.sync now sender input).2.parks then [sender] else []
  | _ => []

theorem tokens_apply (a : Action) :
    (g.apply a).tokens.count t = g.tokens.count t + (a.parked g).count t := by
  cases a with
  | join now fresh sender input =>
    refine tokens_join.trans ?_
    rw [Action.parked]
    split_ifs <;> rfl
  | sync now sender input =>
    refine tokens_sync.trans ?_
    rw [Action.parked]
    split_ifs <;> rfl
  | heartbeat now fence =>
    have hexpire : (g.expire_members now).tokens.count t = g.tokens.count t :=
      tokens_expire_members
    rcases heartbeat_end g now fence with ⟨error, h⟩ | ⟨m, result, -, h⟩
    · rw [apply, h]
      exact hexpire
    · rw [apply, h]
      exact hexpire
  | assignment now fence =>
    obtain ⟨result, h⟩ := assignment_end g now fence
    rw [apply, h]
    exact tokens_expire_members
  | leave now members =>
    exact leave_invariant (P := fun g' => g'.tokens.count t = g.tokens.count t)
      (fun _ _ h => tokens_depart.trans h) (fun _ h => tokens_settle.trans h) tokens_refresh members
  | expire now => exact tokens_expire_members
  | begin_commit now fence commits => exact tokens_refresh
  | begin_delete_offsets now partitions => rfl
  | fetch_offsets now => rfl
  | record_applied record => rfl
  | snapshot deleted trimmed => rfl
  | watch now rebalance_id deadline =>
    rcases watch_end g now rebalance_id deadline with h | ⟨r, -, -, -, h⟩
    · rw [apply, h]
      exact tokens_expire_members
    · rw [apply, h, tokens_settle, tokens_depart_all]
      exact tokens_expire_members
  | reload epoch offsets replayed now => exact tokens_reload

theorem Sound.refresh (h : Sound g) : Sound (g.refresh now) :=
  h.expire_members.frame (List.Subset.refl _) rfl rfl rfl rfl rfl rfl

theorem Sound.put_member (h : Sound g) : Sound (g.put_member id input now) :=
  h.frame (fun _ hid => mem_keys_insert.2 (.inr hid)) rfl rfl rfl rfl rfl rfl

theorem Sound.fence_stale (h : Sound g) :
    Sound (g.fence_stale id instance_id) := h.depart_all _ _

theorem Sound.start_rebalance (h : Sound g) (hmode : g.mode.isSome) (now sender : ℕ) :
    Sound (g.start_rebalance now sender).1 ∧
      ∃ r, (g.start_rebalance now sender).1.rebalance = some r := by
  unfold Group.start_rebalance
  split
  · rename_i r hr
    exact ⟨h, r, hr⟩
  · refine ⟨?_, _, rfl⟩
    exact
      { waiters_joined := fun r hr => by cases hr; exact nil_subset _
        joined_expected := fun r hr => by cases hr; exact nil_subset _
        expected_members := fun r hr => by
          cases hr
          show (g.members.map fun _ => ()).keys ⊆ g.members.keys
          rw [keys_map]
          exact List.Subset.refl _
        syncs_members := h.syncs_members
        has_mode := fun _ _ => hmode
        preparing := fun _ _ => rfl
        no_panic := h.no_panic
        none_dropped := h.none_dropped }

theorem keys_insert_subset {V W : Type*} {m : OrdMap String V} {m' : OrdMap String W} {v : V} {w : W}
    (h : m.keys ⊆ m'.keys) (id : String) : (m.insert id v).keys ⊆ (m'.insert id w).keys := by
  intro id' hid'
  rw [mem_keys_insert] at hid' ⊢
  exact hid'.imp_right fun hin => h hin

theorem Sound.park_join {r : Rebalance} (h : Sound g) (hr : g.rebalance = some r)
    (hid : id ∈ g.members.keys) : Sound (g.park_join id sender) := by
  unfold Group.park_join
  rw [hr]
  exact
    { waiters_joined := fun r' hr' => by
        cases hr'
        exact keys_insert_subset (h.waiters_joined r hr) id
      joined_expected := fun r' hr' => by
        cases hr'
        exact keys_insert_subset (h.joined_expected r hr) id
      expected_members := fun r' hr' => by
        cases hr'
        intro id' hid'
        rcases mem_keys_insert.1 hid' with rfl | hin
        · exact hid
        · exact h.expected_members r hr hin
      syncs_members := h.syncs_members
      has_mode := fun _ _ => h.has_mode r hr
      preparing := fun _ _ => h.preparing r hr
      no_panic := h.no_panic
      none_dropped := h.none_dropped }

theorem Sound.set_mode (h : Sound g) (membership : Membership) : Sound (g.set_mode membership) :=
  { h with has_mode := fun _ _ => rfl }

theorem members_start_rebalance : (g.start_rebalance now sender).1.members = g.members := by
  unfold start_rebalance
  split <;> rfl

theorem Sound.enter (h : Sound g) (hid : id ∈ g.members.keys) {membership : Membership} :
    Sound (g.enter now sender id membership).1 := by
  obtain ⟨hstart, r, hr⟩ := (h.set_mode membership).start_rebalance rfl now sender
  refine (hstart.park_join hr ?_).settle
  rw [members_start_rebalance]
  exact hid

theorem Sound.admitted (h : Sound g) : Sound (g.admitted now id input) :=
  h.refresh.fence_stale.put_member

theorem mem_admitted : id ∈ (g.admitted now id input).members.keys :=
  mem_keys_insert.2 (.inl rfl)

section

variable (h : Sound g)
include h

theorem Sound.join : Sound (g.join now fresh sender input).1 := by
  have hend := join_end g now fresh sender input
  generalize g.join now fresh sender input = result at hend ⊢
  cases hend with
  | refused outcome hcheck => exact h.refresh
  | id_required hcheck hrequire => exact h.refresh.put_member
  | fenced id m hcheck hm hne => exact h.refresh.fence_stale
  | parked id is_new hcheck hpart => exact h.admitted.enter mem_admitted

theorem Sound.sync : Sound (g.sync now sender sync_input).1 := by
  have hexpire : Sound (g.expire_members now) := h.expire_members
  have hend := sync_end g now sender sync_input
  generalize g.sync now sender sync_input = result at hend ⊢
  cases hend with
  | answered result => exact hexpire
  | distributed protocol_type protocol_name members outcome hmode hphase =>
    -- outside of a rebalance there is no pending one
    have hrebalance : (g.expire_members now).rebalance = none := by
      cases hr : (g.expire_members now).rebalance with
      | none => rfl
      | some r => exact absurd (hexpire.preparing r hr) hphase
    exact .of_none_pending hrebalance rfl hexpire.no_panic hexpire.none_dropped
  | parked m protocol_type protocol_name leader hm hmode hpreparing hstable =>
    refine { hexpire with syncs_members := fun id' hid' => ?_ }
    rcases mem_keys_insert.1 hid' with rfl | hin
    · exact mem_keys_of_get hm
    · exact hexpire.syncs_members hin

theorem Sound.leave_all (members : List (String × Option String)) :
    Sound (g.leave_all members).1 :=
  leave_all_invariant (fun _ _ h => h.depart _ _) h members

/-- Every action keeps a group sound. -/
theorem Sound.apply (a : Action) : Sound (g.apply a) := by
  cases a with
  | join now fresh sender input => exact h.join
  | sync now sender input => exact h.sync
  | heartbeat now fence =>
    rcases heartbeat_end g now fence with ⟨error, heq⟩ | ⟨m, result, hm, heq⟩
    · rw [Group.apply, heq]
      exact h.expire_members
    · rw [Group.apply, heq]
      exact h.expire_members.frame (fun _ hid => mem_keys_insert.2 (.inr hid))
        rfl rfl rfl rfl rfl rfl
  | assignment now fence =>
    obtain ⟨result, heq⟩ := assignment_end g now fence
    rw [Group.apply, heq]
    exact h.expire_members
  | leave now members =>
    exact leave_invariant (fun _ _ h => h.depart _ _) (fun _ h => h.settle) h.refresh members
  | expire now => exact h.expire_members
  | begin_commit now fence commits => exact h.refresh
  | begin_delete_offsets now partitions =>
    exact h.frame (List.Subset.refl _) rfl rfl rfl rfl rfl rfl
  | fetch_offsets now => exact h.frame (List.Subset.refl _) rfl rfl rfl rfl rfl rfl
  | record_applied record => exact h.frame (List.Subset.refl _) rfl rfl rfl rfl rfl rfl
  | snapshot deleted trimmed => exact h.frame (List.Subset.refl _) rfl rfl rfl rfl rfl rfl
  | watch now rebalance_id deadline =>
    rcases watch_end g now rebalance_id deadline with heq | ⟨r, -, -, -, heq⟩
    · rw [Group.apply, heq]
      exact h.expire_members
    · rw [Group.apply, heq]
      exact (h.expire_members.depart_all _ _).settle
  | reload epoch offsets replayed now => exact h.reload

end

end Group

end PicoMq.Groups
