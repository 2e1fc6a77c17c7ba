import PicoMq.Groups.Proofs.MemberProofs
import PicoMq.Groups.Rounds

/-!
# Who is in a round

While a rebalance is pending all members are expected in it; an id that is handed out in between is
neither expected nor joined.
-/

namespace PicoMq.Groups

open List OrdMap

namespace Group

variable {g g' : Group} {now sender : ℕ} {fresh id : String} {input : JoinInput} {r : Rebalance}
  {round : Round} {a : Action}

/-! ## Answers that are not from a round -/

def Refusals (answers : List (ℕ × Answer)) : Prop :=
  ∀ sender outcome joined, (sender, .join outcome) ∈ answers → outcome.result ≠ .ok joined

theorem refusals_nil : Refusals [] := fun _ _ _ hin => by cases hin

theorem Refusals.append {answers answers' : List (ℕ × Answer)} (h : Refusals answers)
    (h' : Refusals answers') : Refusals (answers ++ answers') := fun sender outcome joined hin =>
  (mem_append.1 hin).elim (h sender outcome joined) (h' sender outcome joined)

theorem refusals_joins (senders : List (String × ℕ)) (error : GroupError) :
    Refusals (senders.map fun e => (e.2, .join (.error error e.1))) := by
  intro sender outcome joined hin hok
  obtain ⟨e, -, heq⟩ := mem_map.1 hin
  cases heq
  cases hok

theorem refusals_syncs {α : Type} (senders : List α) (f : α → ℕ × Except GroupError SyncOutcome) :
    Refusals (senders.map fun e => ((f e).1, .sync (f e).2)) := by
  intro sender outcome joined hin
  obtain ⟨e, -, heq⟩ := mem_map.1 hin
  cases heq

theorem refusals_departure (id : String) (error : GroupError) :
    Refusals (g.departure_answers id error) := by
  intro sender outcome joined hin hok
  rcases mem_append.1 hin with hsync | hjoin
  · obtain ⟨e, -, heq⟩ := mem_map.1 hsync
    cases heq
  · obtain ⟨e, -, heq⟩ := mem_map.1 hjoin
    cases heq
    cases hok

/-! ## A rebalance completes -/

/-- What the completion of a rebalance does, whatever comes of it. -/
structure Completed (g : Group) (r : Rebalance) (round : Round) (g' : Group) : Prop where
  pending : g.rebalance = some r
  ready : r.ready = true
  rounds : g'.rounds = g.rounds ++ [round]
  round_generation : round.generation = next_generation g.generation
  generation : g'.generation = round.generation
  joined : round.joined = r.joined
  members : g'.members = round.members
  keys : round.mode.isSome → round.members.keys = g.members.keys
  dissolved : round.mode = none → round.members = OrdMap.empty
  subscribed : round.mode = some .subscribed → ∃ assignments now,
    assign g.members = some assignments ∧ round.members = give_streams g.members assignments now
  rebalance : g'.rebalance = none
  stable : g'.phase = .stable → round.mode = some .subscribed
  answers : ∀ sender outcome joined, (sender, .join outcome) ∈ g'.sent →
    outcome.result = .ok joined → (sender, .join outcome) ∈ g.sent ∨
      outcome.generation = round.generation ∧
        r.waiters.get outcome.member_id = some sender ∧ tells round outcome.member_id joined

structure Unfinished (g g' : Group) : Prop where
  rounds : g'.rounds = g.rounds
  generation : g'.generation = g.generation
  members : g'.members = g.members
  mode : ∀ mode ∈ g'.mode, mode ∈ g.mode
  rebalance : ∀ r ∈ g'.rebalance, r ∈ g.rebalance
  completing : g'.phase = .completingRebalance → g.phase = .completingRebalance
  stable : g'.phase = .stable → g.phase = .stable
  sent : ∃ answers, Refusals answers ∧ g'.sent = g.sent ++ answers

theorem settle_cases (hmode : ∀ r ∈ g.rebalance, g.mode.isSome) (now : ℕ) :
    Unfinished g (g.settle now) ∨ ∃ r round, Completed g r round (g.settle now) := by
  have hsyncs : Refusals (refuse_syncs g.sync_waiters .rebalanceInProgress) :=
    refusals_syncs _ fun e : String × ℕ => (e.2, .error .rebalanceInProgress)
  -- an answer that tells of a round was there before, or is one of those to the parked joins
  have hold : ∀ {news : List (ℕ × Answer)} sender outcome joined,
      (sender, .join outcome) ∈ g.sent ++ refuse_syncs g.sync_waiters .rebalanceInProgress ++ news →
      outcome.result = .ok joined →
      (sender, .join outcome) ∈ g.sent ∨ (sender, .join outcome) ∈ news := by
    intro news sender outcome joined hin hok
    refine (mem_append.1 hin).imp_left fun hin => ?_
    exact (mem_append.1 hin).resolve_right fun hnew => hsyncs sender outcome joined hnew hok
  have hend := settle_end hmode now
  generalize g.settle now = g' at hend
  cases hend with
  | emptied hmembers =>
    exact .inl ⟨rfl, rfl, rfl, nofun, nofun, nofun, nofun, [], refusals_nil, (append_nil _).symm⟩
  | waiting | unchanged =>
    exact .inl ⟨rfl, rfl, rfl, fun _ => id, fun _ => id, id, id, [], refusals_nil,
      (append_nil _).symm⟩
  | rebalancing hr hphase =>
    exact .inl ⟨rfl, rfl, rfl, fun _ => id, fun _ => id, nofun, nofun, _, hsyncs, rfl⟩
  | assigned r assignments hr hready hsubscribed hassign =>
    refine .inr ⟨r, _, ⟨hr, hready, rfl, rfl, rfl, rfl, rfl, fun _ => ?_, ?_, ?_, rfl,
      fun _ => hsubscribed, ?_⟩⟩
    · exact keys_map_with_key ..
    · exact fun hnone => absurd (hsubscribed.symm.trans hnone) (Option.some_ne_none _)
    · exact fun _ => ⟨assignments, now, hassign, rfl⟩
    · intro sender outcome joined hin hok
      refine (hold sender outcome joined hin hok).imp_right fun hnew => ?_
      obtain ⟨e, he, heq⟩ := mem_map.1 hnew
      cases heq
      cases hok
      exact ⟨rfl, mem_entries.1 he, hsubscribed, rfl, rfl⟩
  | elected r protocol_type previous leader protocol_name previous_name hr hready hclient hleader
      hselect =>
    refine .inr ⟨r, _, ⟨hr, hready, rfl, rfl, rfl, rfl, rfl, fun _ => keys_map .., nofun, nofun, rfl,
      nofun, ?_⟩⟩
    intro sender outcome joined hin hok
    refine (hold sender outcome joined hin hok).imp_right fun hnew => ?_
    obtain ⟨e, he, heq⟩ := mem_map.1 hnew
    cases heq
    cases hok
    exact ⟨rfl, mem_entries.1 he, rfl, rfl⟩
  | dissolved r protocol_type previous_name previous hr hready hclient hselect =>
    refine .inr ⟨r, _, ⟨hr, hready, rfl, rfl, rfl, rfl, rfl, nofun, fun _ => rfl, nofun, rfl, nofun,
      ?_⟩⟩
    intro sender outcome joined hin hok
    refine (hold sender outcome joined hin hok).imp_right fun hnew => ?_
    exact absurd hok (refusals_joins _ _ sender outcome joined hnew)

/-! ## Rounds stay -/

theorem rounds_settle (hmode : ∀ r ∈ g.rebalance, g.mode.isSome) :
    g.rounds <+: (g.settle now).rounds := by
  rcases settle_cases hmode now with hu | ⟨r, round, hc⟩
  · rw [hu.rounds]
  · rw [hc.rounds]
    exact prefix_append ..

theorem rounds_kept (rounds : List Round) : Kept fun g => rounds <+: g.rounds where
  frame := by
    intro g g' h _ _ _ _ _ _ _ hrounds
    rw [hrounds]
    exact h
  depart := fun _ _ h => h
  beat := fun _ h _ => h
  settle := fun _ hg h => h.trans (rounds_settle hg.has_mode)

theorem rounds_joining {membership : Membership} :
    (g.joining now sender id membership).rounds = g.rounds := by
  cases hr : g.rebalance with
  | none => rw [joining_start hr]
  | some r => rw [joining_pending hr]

theorem rounds_apply (hg : Sound g) (a : Action) : g.rounds <+: (g.apply a).rounds := by
  have hkept := rounds_kept g.rounds
  have hrefl := prefix_refl g.rounds
  refine hkept.apply hg hrefl a ?_ ?_ ?_
  · rintro now fresh sender input rfl
    have hrefresh := hkept.refresh hg hrefl now
    refine hkept.join hg hrefresh (fun _ _ => hrefresh) fun id _ hfenced => ?_
    rw [Group.entered, rounds_joining]
    exact hfenced
  · rintro now sender input rfl
    have hexpire := hkept.expire_members hg hrefl now
    have hend := sync_end g now sender input
    generalize g.sync now sender input = result at hend
    cases hend <;> exact hexpire
  · rintro epoch offsets replayed now rfl
    exact hrefl

theorem joined_of_ready (h : r.ready = true) : r.joined = r.expected := by
  rw [Rebalance.ready, Bool.and_eq_true] at h
  exact of_decide_eq_true h.2

/-! ## All members are expected -/

/-- The members of a group with a pending rebalance are those it expects. -/
structure AllExpected (g : Group) : Prop extends OfJoined g where
  expected : ∀ r ∈ g.rebalance, ∀ id ∈ g.members.keys, id ∈ r.expected.keys

section

variable (h : AllExpected g)
include h

theorem AllExpected.of_completed (hg : Sound g) (hc : Completed g r round g') :
    AllExpected g' := by
  have hready := joined_of_ready hc.ready
  have hjoined : ∀ id ∈ round.members.keys, id ∈ round.joined.keys := by
    intro id hid
    cases hmode : round.mode with
    | none =>
      rw [hc.dissolved hmode] at hid
      cases hid
    | some mode =>
      rw [hc.keys (by rw [hmode]; rfl)] at hid
      rw [hc.joined, hready]
      exact h.expected r hc.pending id hid
  refine ⟨⟨?_, ?_, ?_⟩, ?_⟩
  · intro round' hround'
    rw [hc.rounds] at hround'
    rcases mem_append.1 hround' with hold | hnew
    · exact h.rounds round' hold
    · cases mem_singleton.1 hnew
      refine ⟨hjoined, fun hmode id hid => ?_⟩
      rw [hc.keys hmode]
      rw [hc.joined] at hid
      exact hg.expected_members r hc.pending (hg.joined_expected r hc.pending hid)
  · intro sender outcome joined hin hok
    rw [hc.rounds]
    rcases hc.answers sender outcome joined hin hok with hold | ⟨hgeneration, hwaits, htells⟩
    · obtain ⟨round', hround', hrest⟩ := h.answers sender outcome joined hold hok
      exact ⟨round', mem_append_left _ hround', hrest⟩
    · refine ⟨round, mem_append_right _ (mem_singleton.2 rfl), hgeneration.symm, ?_, htells⟩
      rw [hc.joined]
      exact hg.waiters_joined r hc.pending (mem_keys_of_get hwaits)
  · intro _
    refine ⟨round, ?_, ?_⟩
    · rw [hc.rounds, getLast?_concat]
    · rw [hc.members]
      exact hjoined
  · intro r' hr'
    rw [hc.rebalance] at hr'
    cases hr'

theorem AllExpected.of_refusals {answers : List (ℕ × Answer)}
    (hanswers : Refusals answers) (hsent : g'.sent = g.sent ++ answers)
    (hrounds : g'.rounds = g.rounds)
    (hphase : g'.phase = .completingRebalance →
      g.phase = .completingRebalance ∧ g'.members.keys ⊆ g.members.keys)
    (hexpected : ∀ r ∈ g'.rebalance, ∀ id ∈ g'.members.keys, id ∈ r.expected.keys) :
    AllExpected g' := by
  refine ⟨⟨?_, ?_, ?_⟩, hexpected⟩
  · rw [hrounds]
    exact h.rounds
  · intro sender outcome joined hin hok
    rw [hsent] at hin
    rw [hrounds]
    refine h.answers sender outcome joined ?_ hok
    exact (mem_append.1 hin).resolve_right fun hnew => hanswers sender outcome joined hnew hok
  · intro hcompleting
    rw [hrounds]
    obtain ⟨hbefore, hmembers⟩ := hphase hcompleting
    obtain ⟨round, hlast, hjoined⟩ := h.completing hbefore
    exact ⟨round, hlast, fun id hid => hjoined id (hmembers hid)⟩

theorem AllExpected.of_unfinished (hu : Unfinished g g') : AllExpected g' := by
  obtain ⟨answers, hanswers, hsent⟩ := hu.sent
  refine h.of_refusals hanswers hsent hu.rounds ?_ ?_
  · rw [hu.members]
    exact fun hphase => ⟨hu.completing hphase, List.Subset.refl _⟩
  · rw [hu.members]
    exact fun r hr => h.expected r (hu.rebalance r hr)

theorem AllExpected.depart (id : String) (error : GroupError) :
    AllExpected (g.depart id error) := by
  refine h.of_refusals (refusals_departure id error) rfl rfl (fun hphase => ⟨hphase, ?_⟩) ?_
  · exact fun id' hid' => (mem_keys_remove.1 hid').2
  · intro r hr id' hid'
    obtain ⟨r₀, hr₀, rfl⟩ := Option.map_eq_some_iff.1 hr
    obtain ⟨hne, hin⟩ := mem_keys_remove.1 hid'
    exact mem_keys_remove.2 ⟨hne, h.expected r₀ hr₀ id' hin⟩

end

theorem AllExpected.kept : Kept AllExpected where
  frame := by
    intro g g' h hphase _ _ hmembers hrebalance _ hsent hrounds
    refine h.of_refusals refusals_nil ?_ hrounds ?_ ?_
    · rw [hsent, append_nil]
    · rw [hmembers, hphase]
      exact fun hcompleting => ⟨hcompleting, List.Subset.refl _⟩
    · rw [hmembers, hrebalance]
      exact h.expected
  depart := fun id error h => h.depart id error
  beat := by
    intro g id m now h hm
    have hkeys : (g.members.insert id { m with last_heartbeat := now }).keys ⊆ g.members.keys := by
      intro id' hid'
      rcases mem_keys_insert.1 hid' with rfl | hin
      · exact mem_keys_of_get hm
      · exact hin
    refine h.of_refusals refusals_nil ?_ rfl (fun hphase => ⟨hphase, hkeys⟩) ?_
    · exact (append_nil _).symm
    · exact fun r hr id' hid' => h.expected r hr id' (hkeys hid')
  settle := by
    intro g now hg h
    rcases settle_cases hg.has_mode now with hu | ⟨r, round, hc⟩
    · exact h.of_unfinished hu
    · exact h.of_completed hg hc

theorem AllExpected.entered
    (h : AllExpected ((g.refresh now).fence_stale id input.instance_id)) (hg : Sound g) :
    AllExpected (g.entered now sender id input) := by
  have hmembers : ∀ id' ∈ (g.admitted now id input).members.keys, id' = id ∨
      id' ∈ ((g.refresh now).fence_stale id input.instance_id).members.keys :=
    fun id' hid' => mem_keys_insert.1 hid'
  cases hr : (g.admitted now id input).rebalance with
  | none =>
    rw [Group.entered, joining_start hr]
    refine h.of_refusals refusals_nil (append_nil _).symm rfl (fun hphase => by cases hphase) ?_
    intro r hr' id' hid'
    cases hr'
    refine mem_keys_insert.2 (.inr ?_)
    show id' ∈ ((g.admitted now id input).members.map fun _ => ()).keys
    rw [keys_map]
    exact hid'
  | some r =>
    have hpreparing := hg.admitted.preparing r hr
    rw [Group.entered, joining_pending hr]
    refine h.of_refusals (refusals_joins ((r.waiters.get id).toList.map fun previous =>
      (id, previous)) .superseded) ?_ rfl ?_ ?_
    · rw [map_map]
      rfl
    · exact fun hphase => by cases hpreparing.symm.trans hphase
    · intro r' hr' id' hid'
      cases hr'
      refine mem_keys_insert.2 ((hmembers id' hid').imp_right fun hin => ?_)
      exact h.expected r hr id' hin

theorem AllExpected.join (h : AllExpected g) (hg : Sound g)
    (hlate : g.NoLateId (.join now fresh sender input)) :
    AllExpected (g.join now fresh sender input).1 := by
  have hrefresh := AllExpected.kept.refresh hg h now
  refine AllExpected.kept.join hg hrefresh (fun hcheck hrequire => ?_)
    fun id _ hfenced => hfenced.entered hg
  have hhands : (g.refresh now).hands_out fresh input = true := by
    rw [hands_out, hcheck]
    exact hrequire
  obtain ⟨hnone, hphase⟩ := hlate hhands
  refine hrefresh.of_refusals refusals_nil (append_nil _).symm rfl
    (fun hcompleting => absurd hcompleting hphase) fun r hr => ?_
  cases hnone.symm.trans hr

theorem AllExpected.sync {input : SyncInput} (h : AllExpected g) (hg : Sound g) :
    AllExpected (g.sync now sender input).1 := by
  have hexpire := AllExpected.kept.expire_members hg h now
  have hend := sync_end g now sender input
  generalize g.sync now sender input = result at hend
  cases hend with
  | answered => exact hexpire
  | distributed protocol_type protocol_name members outcome hmode hphase =>
    refine hexpire.of_refusals (refusals_syncs _ fun e : String × ℕ => (e.2, .ok _)) rfl rfl
      (fun hcompleting => by cases hcompleting) fun r hr => ?_
    exact absurd (hg.expire_members.preparing r hr) hphase
  | parked m protocol_type protocol_name leader hm hmode hpreparing hstable =>
    exact hexpire.of_refusals (refusals_syncs _ fun previous : ℕ => (previous, .error .superseded))
      rfl rfl (fun hcompleting => ⟨hcompleting, List.Subset.refl _⟩) hexpire.expected

theorem AllExpected.apply (h : AllExpected g) (hg : Sound g) (hlate : g.NoLateId a) :
    AllExpected (g.apply a) := by
  refine AllExpected.kept.apply hg h a ?_ ?_ ?_
  · rintro now fresh sender input rfl
    exact h.join hg hlate
  · rintro now sender input rfl
    exact h.sync hg
  · rintro epoch offsets replayed now rfl
    have hanswers : Refusals (refuse_joins g.join_waiters .notCoordinator ++
        refuse_syncs g.sync_waiters .notCoordinator) :=
      (refusals_joins _ _).append
        (refusals_syncs _ fun e : String × ℕ => (e.2, .error .notCoordinator))
    exact h.of_refusals hanswers (append_assoc ..) rfl (fun hphase => by cases hphase)
      fun r hr => by cases hr

section Runs

variable {epoch : ℤ} {offsets : OffsetTable} {appends : ℕ} {actions : List Action}

theorem AllExpected.loaded : AllExpected (loaded epoch offsets appends now) where
  rounds := fun _ hround => by cases hround
  answers := fun _ _ _ hin => by cases hin
  completing := fun hphase => by cases hphase
  expected := fun _ hr => by cases hr

/-- If no id is handed out during a rebalance, the members of every round are those that joined it.
-/
theorem rounds_of_joined
    (h : Run.EachStep apply (loaded epoch offsets appends now) actions NoLateId) :
    Run.Always apply (loaded epoch offsets appends now) actions OfJoined := by
  have hboth : Run.Always apply (Group.loaded epoch offsets appends now) actions
      fun g => Sound g ∧ AllExpected g :=
    Run.always_of_eachStep ⟨Sound.loaded, AllExpected.loaded⟩
      (fun g a hg hlate => ⟨hg.1.apply a, hg.2.apply hg.1 hlate⟩) h
  exact fun i => (hboth i).2.toOfJoined

/-- A Kafka client joins, or asks for an id if it has none. -/
def kafka_client (member_id : String) : JoinInput where
  group_id := "g"
  member_id := member_id
  membership := .client "consumer" [⟨"range", []⟩]
  session_timeout_ms := 300000
  rebalance_timeout_ms := 60000
  require_known_member_id := true

/-- A client is alone in its group, and another one joins. -/
def second_joins : List Action :=
  [.join 0 "a" 0 (kafka_client ""), .join 1 "" 1 (kafka_client "a"), .sync 2 2 ⟨"g", 1, "a", none, []⟩,
    .join 3 "b" 3 (kafka_client ""), .join 4 "" 4 (kafka_client "b")]

/-- An id is handed out before the rebalance, and its owner joins with the others. -/
theorem rounds_of_joined_early_id :
    let actions := second_joins ++ [.join 5 "" 5 (kafka_client "a")]
    Run.EachStep apply (loaded 0 OrdMap.empty 0 0) actions NoLateId ∧
      OfJoined (Run.run apply (loaded 0 OrdMap.empty 0 0) actions) ∧
      ((Run.run apply (loaded 0 OrdMap.empty 0 0) actions).rounds.map fun round =>
        round.joined.keys) = [["a"], ["a", "b"]] := by
  intro actions
  have h : Run.EachStep apply (Group.loaded 0 OrdMap.empty 0 0) actions NoLateId := by
    decide +kernel
  refine ⟨h, ?_, by decide +kernel⟩
  rw [← Run.after_length]
  exact rounds_of_joined h actions.length

/-- An id is handed out during a rebalance: its owner has not joined, and is listed to the leader
and given partitions all the same. -/
theorem late_id_in_round :
    let g := Run.run apply (loaded 0 OrdMap.empty 0 0)
      (second_joins ++ [.join 5 "c" 5 (kafka_client ""), .join 6 "" 6 (kafka_client "a")])
    let g' := g.apply (.sync 7 7 ⟨"g", 2, "a", none, [("a", [1]), ("b", [2]), ("c", [3])]⟩)
    (∃ round ∈ g.rounds, round.joined.keys = ["a", "b"] ∧ round.members.keys = ["a", "b", "c"]) ∧
      (6, .join ⟨2, "a", .ok (.client "consumer" "range" "a"
        [⟨"a", none, []⟩, ⟨"b", none, []⟩, ⟨"c", none, []⟩])⟩) ∈ g.sent ∧
      (g'.members.get "c").map Member.role = some (.client [⟨"range", []⟩] [3]) := by
  decide +kernel

end Runs

end Group

end PicoMq.Groups
