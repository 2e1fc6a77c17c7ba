import PicoMq.Groups.Proofs.MemberProofs
import PicoMq.Groups.Rounds

/-!
# What parked joins are told

A join waits in the rebalance until the member departs, joins again, the group is reloaded or the
rebalance completes.
-/

namespace PicoMq.Groups

open List OrdMap

namespace Group

variable {g g' g'' : Group} {now sender t : ℕ} {fresh id : String} {input : JoinInput}
  {r : Rebalance} {a : Action} {answer : Answer}

/-! ## Answers between two states -/

theorem Told.later (h : Told g g' t answer) (hgrown : g'.sent <+: g''.sent) :
    Told g g'' t answer := by
  obtain ⟨answers, heq, hin⟩ := h
  obtain ⟨answers', heq'⟩ := hgrown
  exact ⟨answers ++ answers', by rw [← heq', heq, append_assoc], mem_append_left _ hin⟩

theorem Told.earlier (h : Told g' g'' t answer) (hgrown : g.sent <+: g'.sent) :
    Told g g'' t answer := by
  obtain ⟨answers, heq, hin⟩ := h
  obtain ⟨answers', heq'⟩ := hgrown
  exact ⟨answers' ++ answers, by rw [heq, ← heq', append_assoc], mem_append_right _ hin⟩

/-! ## Waiting on -/

/-- A join waits on in a group that is at the same generation and has no new members. -/
structure WaitsOn (g g' : Group) (id : String) (t : ℕ) : Prop where
  parked : g'.Parked id t
  generation : g'.generation = g.generation
  mode : g'.mode = g.mode
  members : ∀ id' m, g'.members.get id' = some m → g.members.get id' = some m

theorem WaitsOn.refl (h : g.Parked id t) : WaitsOn g g id t := ⟨h, rfl, rfl, fun _ _ hm => hm⟩

theorem WaitsOn.trans (h : WaitsOn g g' id t) (h' : WaitsOn g' g'' id t) : WaitsOn g g'' id t :=
  ⟨h'.parked, h'.generation.trans h.generation, h'.mode.trans h.mode,
    fun id' m hm => h.members id' m (h'.members id' m hm)⟩

/-- The members are subscribed, or know a protocol in common. -/
def Common (g : Group) : Prop :=
  g.mode = some .subscribed ∨ ∃ name, ∀ id ∈ g.members.keys, is_known g.members name id = true

theorem is_known_of_get {members members' : OrdMap String Member} {name : String} {m : Member}
    (h : is_known members name id = true) (hm : members.get id = some m)
    (hm' : members'.get id = some m) : is_known members' name id = true := by
  rw [is_known, hm] at h
  rw [is_known, hm']
  exact h

theorem WaitsOn.common (h : WaitsOn g g' id t) (hcommon : Common g) : Common g' := by
  rcases hcommon with hmode | ⟨name, hknown⟩
  · exact .inl (h.mode.trans hmode)
  · refine .inr ⟨name, fun id' hid' => ?_⟩
    obtain ⟨m, hm⟩ := mem_keys.1 hid'
    have hbefore := h.members id' m hm
    exact is_known_of_get (hknown id' (mem_keys_of_get hbefore)) hbefore hm

/-! ## Departures -/

theorem Parked.depart (h : g.Parked id t) (id' : String) (error : GroupError) :
    id = id' ∧ Told g (g.depart id' error) t (.join (.error error id)) ∨
      WaitsOn g (g.depart id' error) id t := by
  obtain ⟨r, hr, hwaits⟩ := h
  by_cases hid : id = id'
  · subst hid
    refine .inl ⟨rfl, _, rfl, mem_append_right _ ?_⟩
    rw [join_waiters_some hr, hwaits]
    exact mem_singleton.2 rfl
  · refine .inr ⟨⟨r.remove id', ?_, ?_⟩, rfl, rfl, fun id'' m hm => (of_get_remove hm).2⟩
    · show g.rebalance.map _ = _
      rw [hr]
      rfl
    · show (r.waiters.remove id').get id = _
      rw [get_remove, if_neg hid]
      exact hwaits

theorem Parked.depart_all (h : g.Parked id t) (ids : List String) (error : GroupError) :
    id ∈ ids ∧ Told g (g.depart_all ids error) t (.join (.error error id)) ∨
      WaitsOn g (g.depart_all ids error) id t := by
  induction ids generalizing g with
  | nil => exact .inr (.refl h)
  | cons id' ids ih =>
    have hsent : g.sent <+: (g.depart id' error).sent := prefix_append ..
    rcases h.depart id' error with ⟨rfl, htold⟩ | hstill
    · exact .inl ⟨mem_cons_self .., htold.later (sent_depart_all ids error)⟩
    · exact (ih hstill.parked).imp
        (fun ⟨hid, htold⟩ => ⟨mem_cons_of_mem _ hid, htold.earlier hsent⟩) hstill.trans

theorem Parked.leave_all (h : g.Parked id t) (members : List (String × Option String)) :
    id ∈ members.map Prod.fst ∧
        Told g (g.leave_all members).1 t (.join (.error .unknownMember id)) ∨
      WaitsOn g (g.leave_all members).1 id t := by
  induction members generalizing g with
  | nil => exact .inr (.refl h)
  | cons member members ih =>
    have hone : id = member.1 ∧ Told g (g.leave_one member).1 t (.join (.error .unknownMember id)) ∨
        WaitsOn g (g.leave_one member).1 id t := by
      unfold leave_one
      split
      · exact .inr (.refl h)
      · split_ifs
        · exact .inr (.refl h)
        · exact h.depart member.1 .unknownMember
    have hsent : g.sent <+: (g.leave_one member).1.sent := sent_leave_all [member]
    rcases hone with ⟨rfl, htold⟩ | hstill
    · exact .inl ⟨mem_cons_self .., htold.later (sent_leave_all members)⟩
    · exact (ih hstill.parked).imp
        (fun ⟨hid, htold⟩ => ⟨mem_cons_of_mem _ hid, htold.earlier hsent⟩) hstill.trans

/-! ## Settling -/

/-- A join waits on, or is told the generation that completes. -/
def Heard (g g' : Group) (id : String) (t : ℕ) : Prop :=
  WaitsOn g g' id t ∨
    ∃ joined, Told g g' t (.join ⟨next_generation g.generation, id, .ok joined⟩)

/-- When a group settles, a parked join waits on or is told the generation that completes. -/
theorem Parked.settle (h : g.Parked id t) (hg : Sound g) (hcommon : Common g) :
    Heard g (g.settle now) id t := by
  obtain ⟨r₀, hr₀, hwaits⟩ := h
  have hjoined := hg.waiters_joined r₀ hr₀ (mem_keys_of_get hwaits)
  have hmember := hg.expected_members r₀ hr₀ (hg.joined_expected r₀ hr₀ hjoined)
  have hend := settle_end hg.has_mode now
  generalize g.settle now = g' at hend
  cases hend with
  | emptied hmembers =>
    rw [hmembers] at hmember
    cases hmember
  | waiting => exact .inl ⟨⟨r₀, hr₀, hwaits⟩, rfl, rfl, fun _ _ hm => hm⟩
  | rebalancing hr hphase => cases hr.symm.trans hr₀
  | unchanged hr hphase => cases hr.symm.trans hr₀
  | assigned r assignments hr hready hmode hassign =>
    cases hr.symm.trans hr₀
    exact .inr ⟨_, _, append_assoc .., mem_append_right _
      (mem_map.2 ⟨(id, t), mem_entries.2 hwaits, rfl⟩)⟩
  | elected r protocol_type previous leader protocol_name previous_name hr hready hmode hleader
      hselect =>
    cases hr.symm.trans hr₀
    exact .inr ⟨_, _, append_assoc .., mem_append_right _
      (mem_map.2 ⟨(id, t), mem_entries.2 hwaits, rfl⟩)⟩
  | dissolved r protocol_type previous_name previous hr hready hmode hselect =>
    cases hr.symm.trans hr₀
    rcases hcommon with hsubscribed | ⟨name, hknown⟩
    · cases hsubscribed.symm.trans hmode
    · have hsome := select_protocol_isSome (elect_mem (ne_nil_of_mem hjoined) previous)
        fun id' hid' => hknown id' (hg.expected_members r₀ hr₀ (hg.joined_expected r₀ hr₀ hid'))
      rw [hselect] at hsome
      cases hsome

theorem WaitsOn.settle (h : WaitsOn g g' id t) (hg : Sound g') (hcommon : Common g)
    (hsent : g.sent <+: g'.sent) : Heard g (g'.settle now) id t := by
  have hheard : Heard g' (g'.settle now) id t := h.parked.settle hg (h.common hcommon)
  rcases hheard with hstill | ⟨joined, htold⟩
  · exact .inl (h.trans hstill)
  · rw [h.generation] at htold
    exact .inr ⟨joined, htold.earlier hsent⟩

theorem Parked.expire_members (h : g.Parked id t) (hg : Sound g) (hcommon : Common g)
    (hlast : id ∉ g.expired now) : Heard g (g.expire_members now) id t := by
  unfold Group.expire_members
  split
  · exact .inl (.refl h)
  · have hstill := (h.depart_all (g.expired now) .unknownMember).resolve_left fun hin => hlast hin.1
    exact hstill.settle (hg.depart_all _ _) hcommon (sent_depart_all ..)

/-! ## Actions -/

theorem OneProtocol.common (h : g.OneProtocol a) (hr : g.rebalance = some r) : Common g := by
  rcases h with hnone | hmode | ⟨name, -, hknown, -⟩
  · cases hnone.symm.trans hr
  · exact .inl hmode
  · exact .inr ⟨name, hknown⟩

theorem OneProtocol.entered {is_new : Bool} {r₀ : Rebalance}
    (h : g.OneProtocol (.join now fresh sender input)) (hr₀ : g.rebalance = some r₀)
    (hwaits : WaitsOn g (g.refresh now) id t) {id' : String}
    (hcheck : (g.refresh now).check_join fresh input = .ok (id', is_new)) (hg : Sound g) :
    Common (g.entered now sender id' input) := by
  obtain ⟨r, hr, -⟩ := hwaits.parked
  obtain ⟨mode, hmode⟩ := Option.isSome_iff_exists.1 (hg.refresh.has_mode r hr)
  have hentered : (g.entered now sender id' input).mode = some mode := by
    have hadmitted : (g.admitted now id' input).mode = some mode :=
      (mode_depart_all _).trans hmode
    rw [Group.entered, mode_joining, hadmitted]
    rfl
  have hfits := compatible_of_check_join hcheck hmode
  rcases h with hnone | hsubscribed | ⟨name, -, hknown, hoffers⟩
  · cases hnone.symm.trans hr₀
  · rw [← hwaits.mode, hmode] at hsubscribed
    exact .inl (hentered.trans hsubscribed)
  · cases hmembership : input.membership with
    | subscribed subscription =>
      rw [hmembership] at hfits
      cases mode with
      | subscribed => exact .inl hentered
      | client => cases hfits
    | client protocol_type protocols =>
      refine .inr ⟨name, fun id'' hid'' => ?_⟩
      obtain ⟨m, hm⟩ := mem_keys.1 hid''
      rw [is_known, hm]
      rw [Group.entered, members_joining] at hm
      rcases get_members_admitted hm with ⟨rfl, rfl⟩ | hm'
      · show (role_of input.membership).knows name = true
        rw [hmembership]
        obtain ⟨group_id, member_id, instance_id, membership, session, rebalance, require⟩ := input
        cases hmembership
        exact hoffers
      · have hbefore := hwaits.members id'' m hm'
        have hk := hknown id'' (mem_keys_of_get hbefore)
        rwa [is_known, hbefore] at hk

theorem WaitsOn.join (h : WaitsOn g (g.refresh now) id t) (hg : Sound g)
    (hone : g.OneProtocol (.join now fresh sender input)) (hparked : g.Parked id t)
    (hsent : g.sent <+: (g.refresh now).sent) :
    (g.apply (.join now fresh sender input)).Parked id t ∨
      ∃ outcome, Told g (g.apply (.join now fresh sender input)) t (.join outcome) ∧
        g.Explained (.join now fresh sender input) id outcome := by
  obtain ⟨r₀, hr₀, -⟩ := hparked
  -- a member that departs is one with the instance id of the join
  have hfenced : ∀ id', id ∈ (g.refresh now).stale id' input.instance_id →
      g.Explained (.join now fresh sender input) id (.error .fencedInstance id) := by
    intro id' hid
    obtain ⟨-, m, hm, hsome, hinstance⟩ := mem_stale.1 hid
    exact .inr (.inr (.inr (.inl ⟨rfl, now, fresh, sender, input, m, rfl, hm, hsome,
      hinstance⟩)))
  have hend := join_end g now fresh sender input
  rw [Group.apply]
  generalize g.join now fresh sender input = result at hend
  cases hend with
  | refused => exact .inl h.parked
  | id_required => exact .inl h.parked
  | fenced id' m hcheck hm hne =>
    rcases h.parked.depart_all ((g.refresh now).stale id' input.instance_id) .fencedInstance with
      ⟨hid, htold⟩ | hstill
    · exact .inr ⟨_, htold.earlier hsent, hfenced id' hid⟩
    · exact .inl hstill.parked
  | parked id' is_new hcheck hpart =>
    have hcommon : Common (g.entered now sender id' input) := hone.entered hr₀ h hcheck hg
    have hentered : Sound (g.entered now sender id' input) := hg.entered
    have hlater : (g.entered now sender id' input).sent <+:
        ((g.entered now sender id' input).settle now).sent := sent_settle hentered.has_mode
    rcases h.parked.depart_all ((g.refresh now).stale id' input.instance_id) .fencedInstance with
      ⟨hid, htold⟩ | hstill
    · have hadmitted : Told (g.refresh now) (g.admitted now id' input) t
          (.join (.error .fencedInstance id)) := htold
      exact .inr ⟨_, ((hadmitted.later sent_joining).later hlater).earlier hsent, hfenced id' hid⟩
    · have hgeneration : (g.admitted now id' input).generation = g.generation :=
        hstill.generation.trans h.generation
      obtain ⟨r, hr, hwaits⟩ := hstill.parked
      have hr : (g.admitted now id' input).rebalance = some r := hr
      have hgrown : (g.refresh now).sent <+: (g.admitted now id' input).sent := sent_depart_all ..
      by_cases hid : id = id'
      · subst hid
        have htold : Told (g.admitted now id input) (g.entered now sender id input) t
            (.join (.error .superseded id)) := by
          rw [Told, Group.entered, joining_pending hr]
          exact ⟨_, rfl, by rw [hwaits]; exact mem_singleton.2 rfl⟩
        exact .inr ⟨_, ((htold.later hlater).earlier hgrown).earlier hsent,
          .inr (.inl ⟨rfl, now, fresh, sender, input, is_new, rfl, hcheck⟩)⟩
      · have hparked : (g.entered now sender id' input).Parked id t := by
          rw [Group.entered, joining_pending hr]
          refine ⟨_, rfl, ?_⟩
          show (r.waiters.insert id' sender).get id = _
          rw [get_insert, if_neg hid]
          exact hwaits
        have hheard : Heard (g.entered now sender id' input)
            ((g.entered now sender id' input).settle now) id t := hparked.settle hentered hcommon
        rcases hheard with hstill | ⟨joined, htold⟩
        · exact .inl hstill.parked
        · have hgeneration' : (g.entered now sender id' input).generation = g.generation := by
            rw [Group.entered, joining_pending hr]
            exact hgeneration
          rw [hgeneration'] at htold
          exact .inr ⟨_, ((htold.earlier sent_joining).earlier hgrown).earlier hsent,
            .inl ⟨joined, rfl⟩⟩

theorem WaitsOn.apply (h : WaitsOn g (g.expire_members now) id t) (hg : Sound g)
    (hnow : a.expires = some now) (hone : g.OneProtocol a) (hparked : g.Parked id t) :
    (g.apply a).Parked id t ∨
      ∃ outcome, Told g (g.apply a) t (.join outcome) ∧ g.Explained a id outcome := by
  have hsent : g.sent <+: (g.expire_members now).sent :=
    (sent_kept g.sent).expire_members hg (prefix_refl _) now
  obtain ⟨r₀, hr₀, hwaits₀⟩ := hparked
  have hcommon := hone.common hr₀
  obtain ⟨r, hr, hwaits⟩ := h.parked
  have hphase := hg.expire_members.preparing r hr
  cases a with
  | join now' fresh sender input =>
    cases hnow
    exact WaitsOn.join ⟨h.parked, h.generation, h.mode, h.members⟩ hg hone ⟨r₀, hr₀, hwaits₀⟩ hsent
  | sync now' sender input =>
    -- a sync changes nothing during a rebalance
    cases hnow
    have hend := sync_end g now sender input
    rw [Group.apply]
    generalize g.sync now sender input = result at hend
    cases hend with
    | answered => exact .inl h.parked
    | distributed protocol_type protocol_name members outcome hmode hother =>
      exact absurd hphase hother
    | parked m protocol_type protocol_name leader hm hmode hother => exact absurd hphase hother
  | heartbeat now' fence =>
    cases hnow
    rcases heartbeat_end g now fence with ⟨error, heq⟩ | ⟨m, result, hm, heq⟩
    · rw [Group.apply, heq]
      exact .inl h.parked
    · rw [Group.apply, heq]
      exact .inl h.parked
  | assignment now' fence =>
    cases hnow
    obtain ⟨result, heq⟩ := assignment_end g now fence
    rw [Group.apply, heq]
    exact .inl h.parked
  | leave now' members =>
    cases hnow
    have hleft : Sound ((g.refresh now).leave_all members).1 := hg.refresh.leave_all members
    have hgrown : (g.refresh now).sent <+: ((g.refresh now).leave_all members).1.sent :=
      sent_leave_all members
    have hrefresh : (g.refresh now).Parked id t := h.parked
    rw [Group.apply, leave]
    dsimp only
    rcases hrefresh.leave_all members with ⟨hid, htold⟩ | hstill
    · have hexplained : g.Explained (.leave now members) id (.error .unknownMember id) :=
        .inr (.inr (.inl ⟨rfl, hid⟩))
      split_ifs
      · exact .inr ⟨_, (htold.later (sent_settle hleft.has_mode)).earlier hsent, hexplained⟩
      · exact .inr ⟨_, htold.earlier hsent, hexplained⟩
    · split_ifs
      · have hwaits : WaitsOn g (g.refresh now) id t := ⟨h.parked, h.generation, h.mode, h.members⟩
        have hheard : Heard g (((g.refresh now).leave_all members).1.settle now) id t :=
          (hwaits.trans hstill).settle hleft hcommon (hsent.trans hgrown)
        rcases hheard with hstays | ⟨joined, htold⟩
        · exact .inl hstays.parked
        · exact .inr ⟨_, htold, .inl ⟨joined, rfl⟩⟩
      · exact .inl hstill.parked
  | expire | begin_commit =>
    cases hnow
    exact .inl h.parked
  | watch now' rebalance_id deadline =>
    cases hnow
    rcases watch_end g now rebalance_id deadline with heq | ⟨r', hr', -, -, heq⟩
    · rw [Group.apply, heq]
      exact .inl h.parked
    · -- whoever waits has joined, and is not missing
      cases hr.symm.trans hr'
      have hmissing : id ∉ r.missing := by
        intro hin
        have hjoined := hg.expire_members.waiters_joined r hr (mem_keys_of_get hwaits)
        rw [← contains_key_iff_mem_keys] at hjoined
        have hnot := (mem_filter.1 hin).2
        rw [hjoined] at hnot
        cases hnot
      have hstill := (h.parked.depart_all r.missing .unknownMember).resolve_left
        fun hin => hmissing hin.1
      have hheard : Heard g (((g.expire_members now).depart_all r.missing .unknownMember).settle now)
          id t :=
        (h.trans hstill).settle (hg.expire_members.depart_all _ _) hcommon
          (hsent.trans (sent_depart_all ..))
      rw [Group.apply, heq]
      rcases hheard with hstays | ⟨joined, htold⟩
      · exact .inl hstays.parked
      · exact .inr ⟨_, htold, .inl ⟨joined, rfl⟩⟩
  | _ => cases hnow

theorem joins_heard (hg : Sound g) (hlast : g.SessionsLast a) (hone : g.OneProtocol a) :
    g.JoinsHeard a := by
  intro id t hparked
  have hparked' := hparked
  obtain ⟨r, hr, hwaits⟩ := hparked'
  cases hnow : a.expires with
  | none =>
    cases a with
    | reload epoch offsets replayed now =>
      -- the parked joins are told that the group has moved
      have hin : (t, .join (.error .notCoordinator id)) ∈
          refuse_joins g.join_waiters .notCoordinator := by
        rw [join_waiters_some hr]
        exact mem_map.2 ⟨(id, t), mem_entries.2 hwaits, rfl⟩
      refine .inr ⟨_, ⟨_, append_assoc .., mem_append_left _ hin⟩, ?_⟩
      exact .inr (.inr (.inr (.inr ⟨rfl, epoch, offsets, replayed, now, rfl⟩)))
    | begin_delete_offsets | fetch_offsets | record_applied | snapshot => exact .inl hparked
    | _ => cases hnow
  | some now =>
    have hnotexpired := hlast now hnow r hr id (mem_keys_of_get hwaits)
    rcases hparked.expire_members hg (hone.common hr) hnotexpired with hstill | ⟨joined, htold⟩
    · exact hstill.apply hg hnow hone hparked
    · exact .inr ⟨_, htold.later (sent_expires hg hnow), .inl ⟨joined, rfl⟩⟩

section Runs

variable {epoch : ℤ} {offsets : OffsetTable} {appends : ℕ} {actions : List Action}

/-- If no session runs out while a join is parked, and the clients of a rebalance have a protocol in
common, a parked join is told that its member is unknown only if it left. -/
theorem parked_joins_heard
    (h : Run.EachStep apply (loaded epoch offsets appends now) actions
      fun g a => g.SessionsLast a ∧ g.OneProtocol a) :
    Run.EachStep apply (loaded epoch offsets appends now) actions JoinsHeard := fun i a ha =>
  joins_heard (Sound.run (actions.take i)) (h i a ha).1 (h i a ha).2

/-- A reader of one stream joins, with a session that lasts for so long. -/
def reader (member_id stream : String) (session_timeout_ms : ℤ) : JoinInput where
  group_id := "g"
  member_id := member_id
  membership := .subscribed [stream]
  session_timeout_ms := session_timeout_ms
  rebalance_timeout_ms := 60000

/-- The second reader waits for the first one, which joins in time. -/
theorem parked_joins_heard_in_time :
    let actions : List Action :=
      [.join 0 "a" 0 (reader "" "s" 300000), .join 10 "b" 1 (reader "" "t" 1000),
        .join 900 "" 2 (reader "a" "s" 300000)]
    Run.EachStep apply (loaded 0 OrdMap.empty 0 0) actions
        (fun g a => g.SessionsLast a ∧ g.OneProtocol a) ∧
      Run.EachStep apply (loaded 0 OrdMap.empty 0 0) actions JoinsHeard ∧
      (1, .join ⟨2, "b", .ok (.subscribed ["t"] ["a", "b"])⟩) ∈
        (Run.run apply (loaded 0 OrdMap.empty 0 0) actions).sent := by
  intro actions
  have h : Run.EachStep apply (Group.loaded 0 OrdMap.empty 0 0) actions
      fun g a => g.SessionsLast a ∧ g.OneProtocol a := by
    decide +kernel
  exact ⟨h, parked_joins_heard h, by decide +kernel⟩

/-- A heartbeat of the slow first reader removes the waiting second one, whose session is short. -/
theorem parked_join_expires :
    let g := Run.run apply (loaded 0 OrdMap.empty 0 0)
      [.join 0 "a" 0 (reader "" "s" 300000), .join 10 "b" 1 (reader "" "t" 1000)]
    let a : Action := .heartbeat 1010 ⟨1, "a", none⟩
    (∃ r, g.rebalance = some r ∧ r.waiters.get "b" = some 1) ∧ a.leaving = [] ∧
      "b" ∉ (g.apply a).members.keys ∧
      (g.apply a).sent.drop g.sent.length = [(1, .join (.error .unknownMember "b"))] := by
  refine ⟨⟨_, rfl, ?_⟩, rfl, ?_, ?_⟩
  all_goals decide +kernel

end Runs

end Group

end PicoMq.Groups
