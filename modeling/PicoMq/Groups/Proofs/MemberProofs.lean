import Mathlib.Data.List.Infix
import PicoMq.Groups.Proofs.RequestProofs
import PicoMq.Library.Proofs.RunProofs

/-!
# Who departs, and which rebalance stays

A rebalance that is pending after an action was pending before it, or the action starts it.
-/

namespace PicoMq.Groups

open List Option OrdMap

namespace Group

variable {g : Group} {now sender : ℕ} {fresh id : String} {input : JoinInput} {r : Rebalance}
variable (hmode : ∀ r ∈ g.rebalance, g.mode.isSome)

/-! ## Settling -/

/-- The client members of a round without a common protocol are told so, and the group is empty. -/
def dissolve (g : Group) (r : Rebalance) : Group :=
  ({ g.next_round with members := OrdMap.empty }.reset_empty.record r).send
    (refuse_joins r.waiters .inconsistentProtocol)

/-- The clients of the next round have a leader and a protocol. -/
def lead (g : Group) (protocol_type protocol_name leader : String) (now : ℕ) : Group :=
  { g.next_round with
    mode := some (.client protocol_type protocol_name leader)
    phase := .completingRebalance
    members := g.members.map fun member =>
      { member with last_heartbeat := now, role := member.role.set_assignment [] } }

/-- The subscribed members of the next round have their streams. -/
def share (g : Group) (assignments : OrdMap String (List StreamName)) (now : ℕ) : Group :=
  { g.next_round with
    phase := .stable
    members := give_streams g.members assignments now }.sweep

/-- The ways in which a group settles. -/
inductive SettleEnd (g : Group) (now : ℕ) : Group → Prop
  | emptied (hmembers : g.members = OrdMap.empty) :
      SettleEnd g now
        { g with rebalance := none, dropped := g.dropped ++ g.join_waiters.values }.reset_empty
  | waiting (r : Rebalance) (hr : g.rebalance = some r) (hready : r.ready = false) :
      SettleEnd g now g.sweep
  | assigned (r : Rebalance) (assignments : OrdMap String (List StreamName))
      (hr : g.rebalance = some r) (hready : r.ready = true) (hmode : g.mode = some .subscribed)
      (hassign : assign g.members = some assignments) :
      SettleEnd g now (((g.sweep.share assignments now).record r).send (r.waiters.entries.map fun e =>
        (e.2, .join ⟨next_generation g.generation, e.1, .ok (.subscribed
          (streams_of (give_streams g.members assignments now) e.1)
          (give_streams g.members assignments now).keys)⟩)))
  | elected (r : Rebalance) (protocol_type previous leader protocol_name : String)
      (previous_name : String) (hr : g.rebalance = some r) (hready : r.ready = true)
      (hmode : g.mode = some (.client protocol_type previous_name previous))
      (hleader : leader = elect r.joined previous)
      (hselect : select_protocol g.members leader r.joined = some protocol_name) :
      SettleEnd g now (((g.sweep.lead protocol_type protocol_name leader now).record r).send
        (r.waiters.entries.map fun e =>
          (e.2, .join ⟨next_generation g.generation, e.1, .ok (.client protocol_type protocol_name
            leader (if e.1 = leader then list_members
              (g.sweep.lead protocol_type protocol_name leader now).members protocol_name
              else []))⟩)))
  | dissolved (r : Rebalance) (protocol_type previous_name previous : String)
      (hr : g.rebalance = some r) (hready : r.ready = true)
      (hmode : g.mode = some (.client protocol_type previous_name previous))
      (hselect : select_protocol g.members (elect r.joined previous) r.joined = none) :
      SettleEnd g now (g.sweep.dissolve r)
  | rebalancing (hr : g.rebalance = none) (hphase : g.phase ≠ .preparingRebalance) :
      SettleEnd g now
        ({ g.sweep with phase := .preparingRebalance }.answer_syncs .rebalanceInProgress)
  | unchanged (hr : g.rebalance = none) (hphase : g.phase = .preparingRebalance) :
      SettleEnd g now g.sweep

theorem complete_rebalance_end (hmode : g.mode.isSome) (now : ℕ) (hr : g.rebalance = some r)
    (hready : r.ready = true) : SettleEnd g now (g.sweep.complete_rebalance now) := by
  unfold complete_rebalance
  rw [show g.sweep.rebalance = some r from hr]
  dsimp only
  split
  · rename_i hsubscribed
    obtain ⟨assignments, hassign, -⟩ := exists_assign g.members
    have hassign' : assign g.sweep.next_round.members = some assignments := hassign
    rw [complete_subscribed, hassign']
    exact .assigned r assignments hr hready hsubscribed hassign
  · rename_i protocol_type previous_name previous hclient
    unfold complete_client
    dsimp only
    split
    · rename_i hselect
      exact .dissolved r protocol_type previous_name previous hr hready hclient hselect
    · rename_i protocol_name hselect
      exact .elected r protocol_type previous _ protocol_name previous_name hr hready hclient rfl
        hselect
  · rename_i hnone
    rw [show g.mode = none from hnone] at hmode
    cases hmode

include hmode in
theorem settle_end (now : ℕ) : SettleEnd g now (g.settle now) := by
  unfold settle
  split
  · rename_i hempty
    exact .emptied (is_empty_iff.1 hempty)
  dsimp only
  split
  · rename_i r hr
    have hr : g.rebalance = some r := hr
    split
    · rename_i hready
      exact complete_rebalance_end (hmode r hr) now hr hready
    · rename_i hready
      exact .waiting r hr (Bool.eq_false_iff.2 hready)
  · rename_i hr
    split
    · rename_i hphase
      exact .rebalancing hr hphase
    · rename_i hphase
      exact .unchanged hr (not_not.1 hphase)

theorem rebalance_settle (hg : Sound g) (h : (g.settle now).rebalance = some r) :
    g.rebalance = some r := by
  have hend := settle_end hg.has_mode now
  generalize g.settle now = g' at hend h
  cases hend with
  | waiting r' hr hready =>
    cases hr.symm.trans h
    exact hr
  | rebalancing hr hphase => cases hr.symm.trans h
  | unchanged hr hphase => cases hr.symm.trans h
  | _ => cases h

/-! ## Protocols -/

theorem elect_mem {joined : NameSet} (h : joined.keys ≠ []) (previous : String) :
    elect joined previous ∈ joined.keys := by
  unfold elect
  split_ifs with hprevious
  · exact contains_key_iff_mem_keys.1 hprevious
  · cases hkeys : joined.keys with
    | nil => exact absurd hkeys h
    | cons id ids => exact mem_cons_self ..

theorem select_protocol_isSome {members : OrdMap String Member} {joined : NameSet}
    {leader name : String} (hleader : leader ∈ joined.keys)
    (hknown : ∀ id ∈ joined.keys, is_known members name id = true) :
    (select_protocol members leader joined).isSome := by
  have hlead := hknown leader hleader
  unfold is_known at hlead
  split at hlead
  · rename_i m hm
    obtain ⟨instance_id, role, session_timeout, rebalance_timeout, last_heartbeat⟩ := m
    cases role with
    | subscribed => cases hlead
    | client protocols assignment =>
      obtain ⟨protocol, hin, hname⟩ := any_eq_true.1 hlead
      have hname : protocol.name = name := by simpa using hname
      rw [select_protocol, hm, isSome_map, find?_isSome]
      exact ⟨protocol, hin, all_eq_true.2 fun id hid => hname ▸ hknown id hid⟩
  · cases hlead

/-! ## Joining -/

def enlist (r : Rebalance) (id : String) (sender : ℕ) : Rebalance :=
  { r with
    expected := r.expected.insert id ()
    joined := r.joined.insert id ()
    waiters := r.waiters.insert id sender }

def started (g : Group) (now sender : ℕ) : Rebalance :=
  { id := g.next_rebalance_id
    expected := g.members.map fun _ => ()
    deadline := now +
      (g.members.values.map fun member => member.rebalance_timeout).max?.getD 1000
    started_by := sender }

def joining (g : Group) (now sender : ℕ) (id : String) (membership : Membership) : Group :=
  (((g.set_mode membership).start_rebalance now sender).1.park_join id sender)

variable {membership : Membership}

theorem enter_eq : (g.enter now sender id membership).1 =
    (g.joining now sender id membership).settle now := rfl

theorem Sound.joining (h : Sound g) (hid : id ∈ g.members.keys) :
    Sound (g.joining now sender id membership) := by
  obtain ⟨hstart, r, hr⟩ := (h.set_mode membership).start_rebalance rfl now sender
  refine hstart.park_join hr ?_
  rw [members_start_rebalance]
  exact hid

theorem get_members_admitted {id' : String} {m : Member}
    (h : (g.admitted now id input).members.get id' = some m) :
    id' = id ∧ m = member_from_input input now ∨ (g.refresh now).members.get id' = some m := by
  rw [admitted, get_members_put_member] at h
  split_ifs at h with hid
  · exact .inl ⟨hid, (some.inj h).symm⟩
  · rw [fence_stale, get_members_depart_all] at h
    split_ifs at h
    exact .inr h

/-- The group that a join settles, from the beginning. -/
def entered (g : Group) (now sender : ℕ) (id : String) (input : JoinInput) : Group :=
  (g.admitted now id input).joining now sender id input.membership

theorem Sound.entered (h : Sound g) : Sound (g.entered now sender id input) :=
  h.admitted.joining mem_admitted

theorem joining_pending (hr : g.rebalance = some r) : g.joining now sender id membership =
    { g with
      mode := some (g.mode.getD (mode_of membership))
      rebalance := some (enlist r id sender)
      sent := g.sent ++ (r.waiters.get id).toList.map
        fun previous => (previous, .join (.error .superseded id)) } := by
  have hr' : (g.set_mode membership).rebalance = some r := hr
  rw [joining, start_rebalance, hr', park_join]
  dsimp only
  rw [hr']
  rfl

theorem joining_start (hr : g.rebalance = none) : g.joining now sender id membership =
    { g with
      mode := some (g.mode.getD (mode_of membership))
      phase := .preparingRebalance
      next_rebalance_id := next_id g.next_rebalance_id
      rebalance := some (enlist (g.started now sender) id sender) } := by
  have hr' : (g.set_mode membership).rebalance = none := hr
  rw [joining, start_rebalance, hr', park_join]
  simp only [enlist, started, set_mode, get_empty, toList_none, map_nil,
    append_nil]

theorem mode_joining : (g.joining now sender id membership).mode =
    some (g.mode.getD (mode_of membership)) := by
  cases hr : g.rebalance with
  | none => rw [joining_start hr]
  | some r => rw [joining_pending hr]

theorem members_joining : (g.joining now sender id membership).members = g.members := by
  cases hr : g.rebalance with
  | none => rw [joining_start hr]
  | some r => rw [joining_pending hr]

theorem rebalance_joining (g : Group) (now sender : ℕ) (id : String) (membership : Membership) :
    ∃ r, (g.joining now sender id membership).rebalance = some r ∧ id ∈ r.joined.keys ∧
      r.waiters.get id = some sender := by
  have henlist : ∀ r, id ∈ (enlist r id sender).joined.keys ∧
      (enlist r id sender).waiters.get id = some sender := fun r =>
    ⟨mem_keys_insert.2 (.inl rfl), get_insert_self ..⟩
  cases hr : g.rebalance with
  | none =>
    rw [joining_start hr]
    exact ⟨_, rfl, henlist _⟩
  | some r =>
    rw [joining_pending hr]
    exact ⟨_, rfl, henlist _⟩

theorem tokens_admitted {t : ℕ} : (g.admitted now id input).tokens.count t = g.tokens.count t :=
  tokens_fence_stale.trans tokens_refresh

theorem tokens_joining {t : ℕ} : (g.joining now sender id membership).tokens.count t =
    g.tokens.count t + [sender].count t :=
  tokens_park_join.trans (congrArg (· + _) tokens_start_rebalance)

theorem not_sent_joining (h : sender ∉ g.tokens) :
    sender ∉ (g.joining now sender id membership).sent.map Prod.fst := by
  obtain ⟨r, hr, -, hwaits⟩ := rebalance_joining g now sender id membership
  have hcount : (g.joining now sender id membership).tokens.count sender =
      g.tokens.count sender + [sender].count sender := tokens_joining
  rw [count_eq_zero_of_not_mem h, count_tokens, join_waiters_some hr,
    count_singleton_self] at hcount
  have hwaiting : 0 < r.waiters.values.count sender :=
    count_pos_iff.2 (mem_values.2 ⟨id, hwaits⟩)
  exact count_eq_zero.1 (by omega)

/-! ## Properties that departures and settling keep -/

/-- A property of the members, what is pending, what was sent and how far the group has come, that
departing, beating and settling keep. -/
structure Kept (P : Group → Prop) : Prop where
  frame : ∀ {g g' : Group}, P g → g'.phase = g.phase → g'.generation = g.generation →
    g'.mode = g.mode → g'.members = g.members → g'.rebalance = g.rebalance →
    g'.sync_waiters = g.sync_waiters → g'.sent = g.sent → g'.rounds = g.rounds → P g'
  depart : ∀ {g : Group} (id : String) (error : GroupError), P g → P (g.depart id error)
  beat : ∀ {g : Group} {id : String} {m : Member} (now : ℕ), P g → g.members.get id = some m →
    P { g with members := g.members.insert id { m with last_heartbeat := now } }
  settle : ∀ {g : Group} (now : ℕ), Sound g → P g → P (g.settle now)

namespace Kept

variable {P : Group → Prop}

section

variable (hP : Kept P)
include hP

theorem touch (h : P g) : P (g.touch now) :=
  hP.frame h rfl rfl rfl rfl rfl rfl rfl rfl

theorem depart_all (h : P g) (ids : List String) (error : GroupError) :
    P (g.depart_all ids error) :=
  depart_all_invariant (fun _ id h => hP.depart id error h) h ids

section

variable (hg : Sound g)
include hg

theorem expire_members (h : P g) (now : ℕ) :
    P (g.expire_members now) := by
  unfold Group.expire_members
  split
  · exact h
  · exact hP.settle now (hg.depart_all _ _) (hP.depart_all h _ _)

theorem refresh (h : P g) (now : ℕ) : P (g.refresh now) :=
  hP.touch (hP.expire_members hg h now)

theorem watch (h : P g) (now rebalance_id deadline : ℕ) :
    P (g.watch now rebalance_id deadline).1 := by
  have hexpire := hP.expire_members hg h now
  rcases watch_end g now rebalance_id deadline with heq | ⟨r, -, -, -, heq⟩
  · rw [heq]
    exact hexpire
  · rw [heq]
    exact hP.settle now (hg.expire_members.depart_all _ _) (hP.depart_all hexpire _ _)

theorem leave (h : P g) (now : ℕ)
    (members : List (String × Option String)) : P (g.leave now members).1 := by
  have hboth : Sound (g.leave now members).1 ∧ P (g.leave now members).1 :=
    leave_invariant (P := fun g => Sound g ∧ P g)
      (fun _ _ h => ⟨h.1.depart _ _, hP.depart _ _ h.2⟩)
      (fun _ h => ⟨h.1.settle, hP.settle now h.1 h.2⟩) ⟨hg.refresh, hP.refresh hg h now⟩ members
  exact hboth.2

/-- A join keeps what handing out its id and entering the group keep. -/
theorem join (hrefresh : P (g.refresh now))
    (hid : (g.refresh now).check_join fresh input = .ok (fresh, true) →
      input.require_known_member_id = true → P ((g.refresh now).put_member fresh input now))
    (hentered : ∀ id, (g.refresh now).takes_part fresh input = true →
      P ((g.refresh now).fence_stale id input.instance_id) → P (g.entered now sender id input)) :
    P (g.join now fresh sender input).1 := by
  have hend := join_end g now fresh sender input
  generalize g.join now fresh sender input = result at hend
  cases hend with
  | refused => exact hrefresh
  | id_required hcheck hrequire => exact hid hcheck hrequire
  | fenced => exact hP.depart_all hrefresh _ _
  | parked id is_new hcheck hpart =>
    exact hP.settle now hg.entered (hentered id hpart (hP.depart_all hrefresh _ _))

theorem apply (h : P g) (a : Action)
    (hjoin : ∀ now fresh sender input, a = .join now fresh sender input →
      P (g.join now fresh sender input).1)
    (hsync : ∀ now sender input, a = .sync now sender input → P (g.sync now sender input).1)
    (hreload : ∀ epoch offsets replayed now, a = .reload epoch offsets replayed now →
      P (g.reload epoch offsets replayed now)) : P (g.apply a) := by
  cases a with
  | join now fresh sender input => exact hjoin now fresh sender input rfl
  | sync now sender input => exact hsync now sender input rfl
  | heartbeat now fence =>
    have hexpire := hP.expire_members hg h now
    rcases heartbeat_end g now fence with ⟨error, heq⟩ | ⟨m, result, hm, heq⟩
    · rw [Group.apply, heq]
      exact hexpire
    · rw [Group.apply, heq]
      exact hP.beat now hexpire hm
  | assignment now fence =>
    obtain ⟨result, heq⟩ := assignment_end g now fence
    rw [Group.apply, heq]
    exact hP.expire_members hg h now
  | leave now members => exact hP.leave hg h now members
  | expire now => exact hP.expire_members hg h now
  | begin_commit now fence commits => exact hP.refresh hg h now
  | begin_delete_offsets now partitions => exact hP.touch h
  | fetch_offsets now => exact hP.touch h
  | record_applied record => exact hP.frame h rfl rfl rfl rfl rfl rfl rfl rfl
  | snapshot deleted trimmed => exact hP.frame h rfl rfl rfl rfl rfl rfl rfl rfl
  | watch now rebalance_id deadline => exact hP.watch hg h now rebalance_id deadline
  | reload epoch offsets replayed now => exact hreload epoch offsets replayed now rfl

end

end

end Kept

/-! ## What was sent -/

include hmode in
theorem sent_settle :
    g.sent <+: (g.settle now).sent := by
  have hend := settle_end hmode now
  generalize g.settle now = g' at hend
  cases hend with
  | emptied | waiting | unchanged => exact prefix_refl _
  | assigned | elected | dissolved =>
    exact List.IsPrefix.trans (prefix_append ..) (prefix_append ..)
  | rebalancing => exact prefix_append ..

theorem sent_kept (answers : List (ℕ × Answer)) : Kept fun g => answers <+: g.sent where
  frame := by
    intro g g' h _ _ _ _ _ _ hsent _
    rw [hsent]
    exact h
  depart := fun _ _ h => h.trans (prefix_append ..)
  beat := fun _ h _ => h
  settle := fun _ hg h => h.trans (sent_settle hg.has_mode)

theorem sent_depart_all (ids : List String) (error : GroupError) :
    g.sent <+: (g.depart_all ids error).sent :=
  (sent_kept g.sent).depart_all (prefix_refl _) ids error

theorem sent_leave_all (members : List (String × Option String)) :
    g.sent <+: (g.leave_all members).1.sent :=
  leave_all_invariant (P := fun g' => g.sent <+: g'.sent)
    (fun _ id h => (sent_kept g.sent).depart id _ h) (prefix_refl _) members

theorem sent_joining : g.sent <+: (g.joining now sender id membership).sent := by
  cases hr : g.rebalance with
  | none =>
    rw [joining_start hr]
  | some r =>
    rw [joining_pending hr]
    exact prefix_append ..

theorem sent_join (hg : Sound g) :
    (g.refresh now).sent <+: (g.join now fresh sender input).1.sent := by
  refine (sent_kept _).join hg (prefix_refl _) (fun _ _ => prefix_refl _) fun id _ hfenced => ?_
  have hadmitted : (g.refresh now).sent <+: (g.admitted now id input).sent := hfenced
  exact hadmitted.trans sent_joining

theorem sent_sync {input : SyncInput} :
    (g.expire_members now).sent <+: (g.sync now sender input).1.sent := by
  have hend := sync_end g now sender input
  generalize g.sync now sender input = result at hend
  cases hend with
  | answered => exact prefix_refl _
  | distributed | parked => exact prefix_append ..

theorem sent_expires {a : Action} (hg : Sound g) (h : a.expires = some now) :
    (g.expire_members now).sent <+: (g.apply a).sent := by
  have hkept := sent_kept (g.expire_members now).sent
  have hrefl : (g.expire_members now).sent <+: (g.expire_members now).sent := prefix_refl _
  cases a with
  | join => cases h; exact sent_join hg
  | sync => cases h; exact sent_sync
  | heartbeat now' fence =>
    cases h
    rcases heartbeat_end g now fence with ⟨error, heq⟩ | ⟨m, result, hm, heq⟩
    · rw [apply, heq]
    · rw [apply, heq]
  | assignment now' fence =>
    cases h
    obtain ⟨result, heq⟩ := assignment_end g now fence
    rw [apply, heq]
  | leave now' members =>
    cases h
    have hleft : (g.refresh now).sent <+: ((g.refresh now).leave_all members).1.sent :=
      sent_leave_all members
    rw [apply, leave]
    dsimp only
    split_ifs
    · exact hkept.settle now (hg.refresh.leave_all members) hleft
    · exact hleft
  | expire | begin_commit => cases h; exact hrefl
  | watch now' rebalance_id deadline =>
    cases h
    rcases watch_end g now rebalance_id deadline with heq | ⟨r, -, -, -, heq⟩
    · rw [apply, heq]
    · rw [apply, heq]
      exact hkept.settle now (hg.expire_members.depart_all _ _) (sent_depart_all ..)
  | _ => cases h

theorem Sound.run {epoch : ℤ} {offsets : OffsetTable} {appends : ℕ} (actions : List Action) :
    Sound (Run.run Group.apply (Group.loaded epoch offsets appends now) actions) :=
  Run.invariant Sound.loaded (fun _ a h => h.apply a) actions

/-! ## Which members stay -/

include hmode in
theorem keys_settle (now : ℕ) :
    (g.settle now).members.keys = g.members.keys ∨ (g.settle now).members = OrdMap.empty := by
  have hend := settle_end hmode now
  generalize g.settle now = g' at hend
  cases hend with
  | emptied | waiting | rebalancing | unchanged => exact .inl rfl
  | assigned => exact .inl (keys_map_with_key ..)
  | elected => exact .inl (keys_map ..)
  | dissolved => exact .inr rfl

include hmode in
theorem keys_settle_subset (now : ℕ) :
    (g.settle now).members.keys ⊆ g.members.keys := by
  rcases keys_settle hmode now with heq | heq
  · rw [heq]
    exact List.Subset.refl _
  · rw [heq]
    exact nil_subset _

theorem members_kept (ids : List String) : Kept fun g => g.members.keys ⊆ ids where
  frame := by
    intro g g' h _ _ _ hmembers _ _ _ _
    rw [hmembers]
    exact h
  depart := fun _ _ h id' hid' => h (mem_keys_remove.1 hid').2
  beat := by
    intro g id m now h hm id' hid'
    rcases mem_keys_insert.1 hid' with rfl | hid'
    · exact h (mem_keys_of_get hm)
    · exact h hid'
  settle := fun now hg h => List.Subset.trans (keys_settle_subset hg.has_mode now) h

/-! ## Which rebalance stays -/

/-- A rebalance at another moment: others may have joined or departed. -/
structure SameRebalance (r r' : Rebalance) : Prop where
  id : r'.id = r.id
  deadline : r'.deadline = r.deadline
  started_by : r'.started_by = r.started_by

theorem SameRebalance.trans {r r' r'' : Rebalance} (h : SameRebalance r r')
    (h' : SameRebalance r' r'') : SameRebalance r r'' :=
  ⟨h'.id.trans h.id, h'.deadline.trans h.deadline, h'.started_by.trans h.started_by⟩

/-- The pending rebalance of the second group is one of the first. -/
def NoneStarted (g g' : Group) : Prop :=
  ∀ r', g'.rebalance = some r' → ∃ r, g.rebalance = some r ∧ SameRebalance r r'

theorem NoneStarted.refl (g : Group) : NoneStarted g g := fun r hr => ⟨r, hr, rfl, rfl, rfl⟩

theorem NoneStarted.kept (g : Group) : Kept (NoneStarted g) where
  frame := by
    intro g₁ g₂ h _ _ _ _ hrebalance _ _ _ r hr
    exact h r (hrebalance.symm.trans hr)
  depart := by
    intro g₁ id error h r' hr'
    obtain ⟨r, hr, rfl⟩ := map_eq_some_iff.1 hr'
    obtain ⟨r₀, hr₀, hsame⟩ := h r hr
    exact ⟨r₀, hr₀, hsame.trans ⟨rfl, rfl, rfl⟩⟩
  beat := fun _ h _ => h
  settle := fun _ hg h r hr => h r (rebalance_settle hg hr)

include hmode in
theorem next_rebalance_id_settle :
    (g.settle now).next_rebalance_id = g.next_rebalance_id := by
  have hend := settle_end hmode now
  generalize g.settle now = g' at hend
  cases hend <;> rfl

theorem next_rebalance_id_depart_all (ids : List String) (error : GroupError) :
    (g.depart_all ids error).next_rebalance_id = g.next_rebalance_id :=
  depart_all_invariant (P := fun g' => g'.next_rebalance_id = g.next_rebalance_id)
    (fun _ _ h => h) rfl ids

theorem next_rebalance_id_refresh (hg : Sound g) :
    (g.refresh now).next_rebalance_id = g.next_rebalance_id := by
  show (g.expire_members now).next_rebalance_id = _
  unfold expire_members
  split
  · rfl
  · rw [next_rebalance_id_settle (hg.depart_all _ _).has_mode, next_rebalance_id_depart_all]

theorem join_of_not_starts (hg : Sound g) (h : ¬ g.starts now fresh input) :
    NoneStarted g (g.join now fresh sender input).1 ∧
      ∀ schedule, (g.join now fresh sender input).2 ≠ .parked (some schedule) := by
  have hkept := NoneStarted.kept g
  have hrefresh := hkept.refresh hg (.refl g) now
  have hend := join_end g now fresh sender input
  generalize g.join now fresh sender input = result at hend
  cases hend with
  | refused | id_required => exact ⟨hrefresh, fun _ hreply => by cases hreply⟩
  | fenced => exact ⟨hkept.depart_all hrefresh _ _, fun _ hreply => by cases hreply⟩
  | parked id is_new hcheck hpart =>
    obtain ⟨r₀, hr₀⟩ := ne_none_iff_exists'.1 fun hnone => h ⟨hpart, hnone⟩
    -- the rebalance is still there when the others with the instance id are gone
    have hpending : ((g.refresh now).fence_stale id input.instance_id).rebalance ≠ none :=
      depart_all_invariant (P := fun g' => g'.rebalance ≠ none)
        (fun g' _ h' hnone => h' (map_eq_none_iff.1 hnone))
        (by rw [hr₀]; exact some_ne_none _) _
    obtain ⟨r, hr⟩ := ne_none_iff_exists'.1 hpending
    have hr : (g.admitted now id input).rebalance = some r := hr
    have hadmitted : NoneStarted g (g.admitted now id input) := hkept.depart_all hrefresh _ _
    have hentered : NoneStarted g (g.entered now sender id input) := by
      rw [entered, joining_pending hr]
      intro r' hr'
      cases hr'
      obtain ⟨r₁, hr₁, hsame⟩ := hadmitted r hr
      exact ⟨r₁, hr₁, hsame.trans ⟨rfl, rfl, rfl⟩⟩
    refine ⟨hkept.settle now hg.entered hentered, fun schedule hreply => ?_⟩
    have hset : ((g.admitted now id input).set_mode input.membership).rebalance = some r := hr
    rw [enter, start_rebalance, hset] at hreply
    cases hreply

theorem join_of_starts (hg : Sound g) (h : g.starts now fresh input) (sender : ℕ) :
    ∃ deadline, (g.join now fresh sender input).2 = .parked (some ⟨g.next_rebalance_id, deadline⟩) ∧
      ∀ r, (g.join now fresh sender input).1.rebalance = some r →
        r.id = g.next_rebalance_id ∧ r.deadline = deadline ∧ r.started_by = sender := by
  obtain ⟨hpart, hnone⟩ := h
  have hend := join_end g now fresh sender input
  generalize g.join now fresh sender input = result at hend
  cases hend with
  | refused outcome hcheck =>
    rw [takes_part, hcheck] at hpart
    cases hpart
  | id_required hcheck hrequire =>
    rw [takes_part, hcheck] at hpart
    simp [hrequire] at hpart
  | fenced id m hcheck hm hne =>
    rw [takes_part, hcheck] at hpart
    simp [hm, hne] at hpart
  | parked id is_new hcheck hpart =>
    have hr : (g.admitted now id input).rebalance = none :=
      depart_all_invariant (P := fun g' => g'.rebalance = none)
        (fun g' _ h' => map_eq_none_iff.2 h') hnone _
    have hid : (g.admitted now id input).next_rebalance_id = g.next_rebalance_id :=
      (next_rebalance_id_depart_all _ _).trans (next_rebalance_id_refresh hg)
    refine ⟨((g.admitted now id input).started now sender).deadline, ?_, fun r hr' => ?_⟩
    · have hset : ((g.admitted now id input).set_mode input.membership).rebalance = none := hr
      rw [enter, start_rebalance, hset, ← hid]
      rfl
    · have hsettled := rebalance_settle hg.entered hr'
      rw [entered, joining_start hr] at hsettled
      cases hsettled
      exact ⟨hid, rfl, rfl⟩

theorem none_started_apply (hg : Sound g) {a : Action}
    (ha : ∀ now fresh sender input, a = .join now fresh sender input →
      ¬ g.starts now fresh input) : NoneStarted g (g.apply a) := by
  have hkept := NoneStarted.kept g
  refine hkept.apply hg (.refl g) a ?_ ?_ ?_
  · rintro now fresh sender input rfl
    exact (join_of_not_starts hg (ha now fresh sender input rfl)).1
  · rintro now sender input rfl
    have hexpire := hkept.expire_members hg (.refl g) now
    have hend := sync_end g now sender input
    generalize g.sync now sender input = result at hend
    cases hend <;> exact hexpire
  · rintro epoch offsets replayed now rfl r hr
    cases hr

end Group

end PicoMq.Groups
