import PicoMq.Groups.Proofs.MemberProofs
import PicoMq.Groups.Rounds

/-!
# What a refused join leaves alone

The checks at the beginning of a join change nothing. After them the join may send away others who
have its instance id, and still be refused.
-/

namespace PicoMq.Groups

open List OrdMap

namespace Group

variable {g : Group} {now sender t : ℕ} {fresh id : String} {input : JoinInput} {r : Rebalance}
  {outcome : JoinOutcome}

/-! ## Groups that dissolve -/

theorem known_of_select_protocol {members : OrdMap String Member} {leader name : String}
    {joined : NameSet} (h : select_protocol members leader joined = some name) :
    ∀ id ∈ joined.keys, is_known members name id = true := by
  unfold select_protocol at h
  split at h
  · obtain ⟨protocol, hfind, rfl⟩ := Option.map_eq_some_iff.1 h
    have hall : joined.keys.all (fun id => is_known members protocol.name id) = true :=
      find?_some (p := fun c : JoinProtocol => joined.keys.all fun id => is_known members c.name id)
        hfind
    exact all_eq_true.1 hall
  · cases h

section

variable (hr : g.rebalance = some r) (hid : id ∈ r.joined.keys)
include hr hid

theorem noCommonProtocol_of_select {protocol_type previous_name previous : String}
    (hready : r.ready = true) (hmode : g.mode = some (.client protocol_type previous_name previous))
    (hselect : select_protocol g.members (elect r.joined previous) r.joined = none) :
    g.NoCommonProtocol := by
  refine ⟨r, hr, hready, by rw [hmode]; simp, fun name => ?_⟩
  by_contra hknown
  have hall : ∀ id' ∈ r.joined.keys, is_known g.members name id' = true := by
    intro id' hid'
    by_contra hunknown
    exact hknown ⟨id', hid', Bool.eq_false_iff.2 hunknown⟩
  have hsome := select_protocol_isSome (elect_mem (ne_nil_of_mem hid) previous) hall
  rw [hselect] at hsome
  cases hsome

theorem NoCommonProtocol.settle_eq (h : g.NoCommonProtocol) (hg : Sound g) :
    g.settle now = g.sweep.dissolve r := by
  obtain ⟨r', hr', hready, hclient, hnone⟩ := h
  cases hr.symm.trans hr'
  have hend := settle_end hg.has_mode now
  generalize g.settle now = g' at hend
  cases hend with
  | emptied hmembers =>
    have hmember := hg.expected_members r hr (hg.joined_expected r hr hid)
    rw [hmembers] at hmember
    cases hmember
  | waiting r' hr' hwait =>
    cases hr.symm.trans hr'
    cases hwait.symm.trans hready
  | assigned r' assignments hr' _ hmode hassign => exact absurd hmode hclient
  | elected r' protocol_type previous leader protocol_name previous_name hr' _ hmode hleader
      hselect =>
    cases hr.symm.trans hr'
    obtain ⟨id', hid', hunknown⟩ := hnone protocol_name
    cases hunknown.symm.trans (known_of_select_protocol hselect id' hid')
  | dissolved r' protocol_type previous_name previous hr' _ hmode hselect =>
    cases hr.symm.trans hr'
    rfl
  | rebalancing hr' hphase => cases hr.symm.trans hr'
  | unchanged hr' hphase => cases hr.symm.trans hr'

end

/-! ## Refused joins -/

/-- What a join that passes the first checks must not do: fence itself after it sent others away, or
complete a rebalance that has no common protocol. -/
def SparesOthers (g : Group) (now : ℕ) (fresh : String) (sender : ℕ) (input : JoinInput) : Prop :=
  ∀ id is_new, (g.refresh now).check_join fresh input = .ok (id, is_new) →
    if (g.refresh now).takes_part fresh input then
      ¬ (g.entered now sender id input).NoCommonProtocol
    else is_new = true ∨ (g.refresh now).stale id input.instance_id = []

theorem not_refused {error : GroupError} (hg : Sound g) (hsender : sender ∉ g.tokens)
    (hcommon : ¬ (g.entered now sender id input).NoCommonProtocol)
    (herror : outcome.result = .error error) :
    (sender, .join outcome) ∉ ((g.entered now sender id input).settle now).sent := by
  have hnew : sender ∉ (g.admitted now id input).tokens := by
    rw [← count_eq_zero, tokens_admitted]
    exact count_eq_zero.2 hsender
  have hbefore : (sender, .join outcome) ∉ (g.entered now sender id input).sent := fun hin =>
    not_sent_joining hnew (mem_map.2 ⟨_, hin, rfl⟩)
  have hsyncs : (sender, .join outcome) ∉
      refuse_syncs (g.entered now sender id input).sync_waiters .rebalanceInProgress := by
    intro hin
    obtain ⟨e, -, heq⟩ := mem_map.1 hin
    cases heq
  obtain ⟨r', hr', hid, -⟩ :=
    rebalance_joining (g.admitted now id input) now sender id input.membership
  have hend := settle_end (g := g.entered now sender id input) hg.entered.has_mode now
  intro hsent
  generalize (g.entered now sender id input).settle now = g' at hend hsent
  cases hend with
  | emptied hmembers => exact hbefore hsent
  | waiting r hr hready => exact hbefore hsent
  | assigned r assignments hr hready hmode hassign =>
    rcases mem_append.1 hsent with hold | hnew
    · exact (mem_append.1 hold).elim hbefore hsyncs
    · obtain ⟨e, -, heq⟩ := mem_map.1 hnew
      cases heq
      cases herror
  | elected r protocol_type previous leader protocol_name previous_name hr hready hmode hleader
      hselect =>
    rcases mem_append.1 hsent with hold | hnew
    · exact (mem_append.1 hold).elim hbefore hsyncs
    · obtain ⟨e, -, heq⟩ := mem_map.1 hnew
      cases heq
      cases herror
  | dissolved r protocol_type previous_name previous hr hready hmode hselect =>
    cases hr.symm.trans hr'
    exact hcommon (noCommonProtocol_of_select hr hid hready hmode hselect)
  | rebalancing hr hphase => cases hr.symm.trans hr'
  | unchanged hr hphase => cases hr.symm.trans hr'

theorem next_generation_ne (generation : ℤ) : next_generation generation ≠ generation := by
  unfold next_generation
  split_ifs <;> omega

theorem generation_entered :
    (g.entered now sender id input).generation = (g.expire_members now).generation := by
  have hadmitted : (g.admitted now id input).generation = (g.expire_members now).generation :=
    depart_all_invariant (g := g.refresh now)
      (P := fun g' => g'.generation = (g.expire_members now).generation) (fun _ _ h => h) rfl _
  rw [entered]
  cases hr : (g.admitted now id input).rebalance with
  | none => rw [joining_start hr]; exact hadmitted
  | some r => rw [joining_pending hr]; exact hadmitted

theorem dissolved_entered (hg : Sound g)
    (hnone : (g.entered now sender id input).NoCommonProtocol) :
    (sender, .join (.error .inconsistentProtocol id)) ∈
        ((g.entered now sender id input).settle now).sent ∧
      ((g.entered now sender id input).settle now).generation ≠
        (g.expire_members now).generation := by
  obtain ⟨r, hr, hid, hwaits⟩ :=
    rebalance_joining (g.admitted now id input) now sender id input.membership
  have hsettle : (g.entered now sender id input).settle now =
      (g.entered now sender id input).sweep.dissolve r := hnone.settle_eq hr hid hg.entered
  rw [hsettle, ← generation_entered]
  refine ⟨mem_append_right _ (mem_map.2 ⟨(id, sender), mem_entries.2 hwaits, rfl⟩), ?_⟩
  exact next_generation_ne _

theorem stale_eq_nil_of_untouched {g₀ : Group}
    (h : Untouched g₀ (g.fence_stale id input.instance_id)) (hmembers : g₀.members = g.members) :
    g.stale id input.instance_id = [] := by
  refine eq_nil_iff_forall_not_mem.2 fun id' hin => ?_
  obtain ⟨-, m, hm, -, -⟩ := mem_stale.1 hin
  have hgone : (g.fence_stale id input.instance_id).members.get id' = none := by
    rw [fence_stale, get_members_depart_all, if_pos hin]
  rw [h.members, hmembers, hm] at hgone
  cases hgone

/-- A join that is refused at once leaves all members alone, exactly if it neither sends others with
its instance id away first nor completes a rebalance without a common protocol. -/
theorem refused_join_changes_nothing_iff (hg : Sound g) (hsender : sender ∉ g.tokens) (now : ℕ)
    (fresh : String) (input : JoinInput) :
    (∀ outcome error, g.AnsweredAtOnce now fresh sender input outcome →
        outcome.result = .error error → error ≠ .memberIdRequired →
        Untouched (g.expire_members now) (g.join now fresh sender input).1) ↔
      g.SparesOthers now fresh sender input := by
  have huntouched : Untouched (g.expire_members now) (g.refresh now) := ⟨rfl, rfl, rfl, rfl, rfl, rfl⟩
  unfold AnsweredAtOnce SparesOthers
  have hend := join_end g now fresh sender input
  generalize g.join now fresh sender input = result at hend
  cases hend with
  | refused outcome hcheck =>
    refine iff_of_true (fun _ _ _ _ _ => huntouched) fun id is_new hok => ?_
    cases hcheck.symm.trans hok
  | id_required hcheck hrequire =>
    refine iff_of_true (fun outcome error h herror hrequired => ?_) fun id is_new hok => ?_
    · rcases h with h | h
      · cases h
        cases herror
        exact absurd rfl hrequired
      · have hrefresh : sender ∉ (g.refresh now).tokens := by
          rw [← List.count_eq_zero, tokens_refresh]
          exact List.count_eq_zero.2 hsender
        have hin : sender ∈ (g.refresh now).sent.map Prod.fst := List.mem_map.2 ⟨_, h, rfl⟩
        exact absurd (List.mem_append_left _ (List.mem_append_right _ hin)) hrefresh
    · cases hcheck.symm.trans hok
      rw [takes_part, hcheck, if_neg (by simp [hrequire])]
      exact .inl rfl
  | fenced id m hcheck hm hne =>
    have hpart : (g.refresh now).takes_part fresh input = false := by
      rw [takes_part, hcheck]
      simp [hm, hne]
    rw [hpart]
    constructor
    · intro h id' is_new hok
      cases hcheck.symm.trans hok
      have hfenced := h _ _ (.inl rfl) rfl (by decide)
      exact .inr (stale_eq_nil_of_untouched hfenced rfl)
    · intro h outcome error _ _ _
      have hstale := (h id false hcheck).resolve_left Bool.false_ne_true
      rw [fence_stale, hstale]
      exact huntouched
  | parked id is_new hcheck hpart =>
    rw [hpart, enter_eq]
    constructor
    · intro h id' is_new' hok
      cases hcheck.symm.trans hok
      intro hnone
      obtain ⟨hrefused, hne⟩ := dissolved_entered hg hnone
      exact hne (h _ _ (.inr hrefused) rfl (by decide)).generation
    · rintro h outcome error (hanswered | hsent) herror -
      · cases hanswered
      · exact absurd hsent (not_refused hg hsender (h id is_new hcheck) herror)

/-- A join under an instance id, with a member id or without. -/
def static_input (member_id instance_id : String) (streams : List StreamName) : JoinInput where
  group_id := "g"
  member_id := member_id
  instance_id := some instance_id
  membership := .subscribed streams
  session_timeout_ms := 300000
  rebalance_timeout_ms := 60000

/-- Two static members share the streams of a group that is stable. -/
def two_static : Group :=
  Run.run apply (loaded 0 OrdMap.empty 0 0)
    [.join 0 "a" 0 (static_input "" "i" ["s"]), .join 1 "b" 1 (static_input "" "j" ["t"]),
      .join 2 "" 2 (static_input "a" "i" ["s"])]

/-- The first member joins with an instance id that nobody has: it is refused, and all stay. -/
theorem two_static_unknown_instance :
    let joined := two_static.join 3 "" 3 (static_input "a" "k" ["s"])
    joined.2 = .answered (.error .fencedInstance "a") ∧
      Untouched (two_static.expire_members 3) joined.1 := by
  intro joined
  have hanswered : joined.2 = .answered (.error .fencedInstance "a") := by decide +kernel
  have hspares : two_static.SparesOthers 3 "" 3 (static_input "a" "k" ["s"]) := by
    intro id is_new hok
    have hcheck : (two_static.refresh 3).check_join "" (static_input "a" "k" ["s"]) =
        .ok ("a", false) := by decide +kernel
    cases hcheck.symm.trans hok
    rw [if_neg (by decide +kernel)]
    exact .inr (by decide +kernel)
  exact ⟨hanswered, (refused_join_changes_nothing_iff (Sound.run _) (by decide +kernel) 3 ""
    (static_input "a" "k" ["s"])).2 hspares _ _ (.inl hanswered) rfl (by decide)⟩

/-- The first member joins with the instance id of the second: it is refused, and the second is
gone. -/
theorem refused_join_evicts :
    let joined := two_static.join 3 "" 3 (static_input "a" "j" ["s"])
    two_static.expired 3 = [] ∧ streams_of two_static.members "b" = ["t"] ∧
      joined.2 = .answered (.error .fencedInstance "a") ∧ joined.1.members.keys = ["a"] ∧
      streams_of joined.1.members "a" = ["s"] ∧ joined.1.phase = .stable ∧
      joined.1.rebalance = none := by
  decide +kernel

end Group

end PicoMq.Groups
