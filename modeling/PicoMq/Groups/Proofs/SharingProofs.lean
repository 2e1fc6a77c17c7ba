import PicoMq.Groups.Proofs.RoundProofs
import PicoMq.Groups.Sharing

/-!
# One list of streams for each member of a generation

The streams of a generation are given out once, when its rebalance completes.
-/

namespace PicoMq.Groups

open List OrdMap

namespace Group

variable {g g' : Group} {now sender t : ℕ} {fresh id : String} {input : JoinInput} {r : Rebalance}
  {round : Round} {a : Action}

/-! ## The streams of a round -/

structure Shared (members : OrdMap String Member) : Prop where
  disjoint : ∀ id id', ∀ stream ∈ streams_of members id, stream ∈ streams_of members id' → id = id'
  contained : ∀ id, ∀ stream ∈ streams_of members id,
    ∃ m, members.get id = some m ∧ stream ∈ m.wanted
  whole : ∀ id m, members.get id = some m → ∀ stream ∈ m.wanted,
    ∃ id' ∈ members.keys, stream ∈ streams_of members id'

theorem streams_of_eq {members : OrdMap String Member} {m : Member}
    (hm : members.get id = some m) : streams_of members id =
      match m.role with
      | .subscribed _ assignment => assignment
      | .client _ _ => [] := by
  rw [streams_of, hm]
  obtain ⟨instance_id, role, session_timeout, rebalance_timeout, last_heartbeat⟩ := m
  cases role <;> rfl

theorem streams_of_none {members : OrdMap String Member} (hm : members.get id = none) :
    streams_of members id = [] := by
  rw [streams_of, hm]

theorem subscription_set_streams (streams : List StreamName) (role : Role) :
    (role.set_streams streams).subscription = role.subscription := by
  cases role <;> rfl

section Give

variable {members : OrdMap String Member} {assignments : OrdMap String (List StreamName)}
  {m m' : Member} {stream : StreamName}

theorem get_give_streams (h : (give_streams members assignments now).get id = some m') :
    ∃ m, members.get id = some m ∧ m'.wanted = m.wanted := by
  rw [give_streams, get_map_with_key] at h
  obtain ⟨m, hm, rfl⟩ := Option.map_eq_some_iff.1 h
  refine ⟨m, hm, ?_⟩
  simp only [Member.wanted, Member.subscription, subscription_set_streams]

theorem mem_streams_give
    (h : stream ∈ streams_of (give_streams members assignments now) id) :
    ∃ m held, members.get id = some m ∧ assignments.get id = some held ∧ stream ∈ held := by
  cases hm : members.get id with
  | none =>
    have hnone : (give_streams members assignments now).get id = none := by
      rw [give_streams, get_map_with_key, hm]
      rfl
    rw [streams_of_none hnone] at h
    cases h
  | some m =>
    have hgiven : (give_streams members assignments now).get id = some
        { m with
          last_heartbeat := now
          role := m.role.set_streams ((assignments.get id).getD []) } := by
      rw [give_streams, get_map_with_key, hm]
      rfl
    rw [streams_of_eq hgiven] at h
    dsimp only at h
    cases hrole : m.role with
    | client protocols assignment =>
      rw [hrole] at h
      cases h
    | subscribed subscription assignment =>
      rw [hrole] at h
      cases hheld : assignments.get id with
      | none =>
        rw [hheld] at h
        cases h
      | some held =>
        rw [hheld] at h
        exact ⟨m, held, rfl, rfl, h⟩

theorem streams_give {held : List StreamName} (hm : members.get id = some m)
    (hwanted : stream ∈ m.wanted) (hheld : assignments.get id = some held) :
    streams_of (give_streams members assignments now) id = held := by
  have hgiven : (give_streams members assignments now).get id = some
      { m with last_heartbeat := now, role := m.role.set_streams held } := by
    rw [give_streams, get_map_with_key, hm, Option.map_some, hheld]
    rfl
  rw [streams_of_eq hgiven]
  dsimp only
  cases hrole : m.role with
  | client protocols assignment =>
    rw [Member.wanted, Member.subscription, hrole] at hwanted
    cases hwanted
  | subscribed subscription assignment => rfl

/-- The assignment shares the streams among the members. -/
theorem shared_give_streams (hassign : assign members = some assignments) :
    Shared (give_streams members assignments now) := by
  obtain ⟨assignments', hassign', h⟩ := exists_assign members
  cases hassign.symm.trans hassign'
  refine ⟨?_, ?_, ?_⟩
  · intro id id' stream hstream hstream'
    obtain ⟨-, held, -, hheld, hin⟩ := mem_streams_give hstream
    obtain ⟨-, held', -, hheld', hin'⟩ := mem_streams_give hstream'
    exact h.one id id' held held' hheld hheld' stream hin hin'
  · intro id stream hstream
    obtain ⟨m, held, hm, hheld, hin⟩ := mem_streams_give hstream
    obtain ⟨m', hm', hwanted⟩ := h.wanted id held hheld stream hin
    cases hm.symm.trans hm'
    refine ⟨_, by rw [give_streams, get_map_with_key, hm]; rfl, ?_⟩
    simpa only [Member.wanted, Member.subscription, subscription_set_streams] using hwanted
  · intro id m hm stream hstream
    obtain ⟨m₀, hm₀, hwanted⟩ := get_give_streams hm
    rw [hwanted] at hstream
    obtain ⟨id', held, hheld, hin⟩ := (h.given stream).2
      (mem_assign_order_streams.2 ⟨id, m₀, hm₀, hstream⟩)
    obtain ⟨m', hm', hwanted'⟩ := h.wanted id' held hheld stream hin
    refine ⟨id', ?_, ?_⟩
    · rw [give_streams, keys_map_with_key]
      exact mem_keys_of_get hm'
    · rw [streams_give hm' hwanted' hheld]
      exact hin

end Give

/-! ## What every action keeps -/

/-- What is known of the rounds of one load. `asked` are the joins that were made. -/
structure Sharing (asked : ℕ → JoinInput → Prop) (g : Group) : Prop where
  counted : g.rounds.length < 2 ^ 31 → g.generation = g.rounds.length ∧
    ∀ (i : ℕ) round, g.rounds[i]? = some round → round.generation = (i : ℤ) + 1
  shared : ∀ round ∈ g.rounds, round.mode = some .subscribed → Shared round.members
  answers : ∀ sender outcome joined, (sender, .join outcome) ∈ g.sent →
    outcome.result = .ok joined → ∃ round ∈ g.rounds, round.generation = outcome.generation ∧
      tells round outcome.member_id joined ∧ (round.mode = some .subscribed →
        ∃ input, asked sender input ∧ ∀ stream ∈ streams_of round.members outcome.member_id,
          stream ∈ input.membership.streams)
  /-- Until the next rebalance begins, members have the streams of the last round. -/
  kept : g.phase = .stable → g.mode = some .subscribed →
    ∃ round, g.rounds.getLast? = some round ∧ round.mode = some .subscribed ∧
      ∀ id m, g.members.get id = some m → ∀ subscription streams,
        m.role = .subscribed subscription streams → streams = streams_of round.members id
  /-- Whoever waits is a member with the subscription of its join. -/
  asks : ∀ r ∈ g.rebalance, ∀ id sender, r.waiters.get id = some sender →
    ∃ input m, asked sender input ∧ g.members.get id = some m ∧ m.role = role_of input.membership

variable {asked : ℕ → JoinInput → Prop}

theorem Sharing.change (h : Sharing asked g) {answers : List (ℕ × Answer)}
    (hanswers : Refusals answers) (hsent : g'.sent = g.sent ++ answers)
    (hrounds : g'.rounds = g.rounds) (hgeneration : g'.generation = g.generation)
    (hkept : g'.phase = .stable → g'.mode = some .subscribed →
      g.phase = .stable ∧ g.mode = some .subscribed ∧ ∀ id m', g'.members.get id = some m' →
        (∃ m, g.members.get id = some m ∧ m.role = m'.role) ∨
          m'.role.set_streams [] = m'.role ∧ ∀ round ∈ g.rounds, id ∉ round.members.keys)
    (hasks : ∀ r' ∈ g'.rebalance, ∀ id sender, r'.waiters.get id = some sender →
      ∃ input m, asked sender input ∧ g'.members.get id = some m ∧
        m.role = role_of input.membership) : Sharing asked g' where
  counted := by
    rw [hrounds, hgeneration]
    exact h.counted
  shared := by
    rw [hrounds]
    exact h.shared
  answers := by
    intro sender outcome joined hin hok
    rw [hsent] at hin
    rw [hrounds]
    refine h.answers sender outcome joined ?_ hok
    exact (mem_append.1 hin).resolve_right fun hnew => hanswers sender outcome joined hnew hok
  kept := by
    intro hphase hmode
    obtain ⟨hphase', hmode', hmembers⟩ := hkept hphase hmode
    obtain ⟨round, hlast, hsubscribed, hsame⟩ := h.kept hphase' hmode'
    rw [hrounds]
    refine ⟨round, hlast, hsubscribed, fun id m hm subscription streams hrole => ?_⟩
    rcases hmembers id m hm with ⟨m₀, hm₀, hrole₀⟩ | ⟨hnone, hnew⟩
    · exact hsame id m₀ hm₀ subscription streams (hrole₀.trans hrole)
    · rw [hrole] at hnone
      cases hnone
      have hnot := hnew round (mem_of_getLast? hlast)
      rw [streams_of_none (not_mem_keys.1 hnot)]
  asks := hasks

theorem mem_wanted_role_of {m : Member} {membership : Membership} {stream : StreamName}
    (hrole : m.role = role_of membership) (hstream : stream ∈ m.wanted) :
    stream ∈ membership.streams := by
  rw [Member.wanted, Member.subscription, hrole] at hstream
  cases membership with
  | subscribed subscription =>
    obtain ⟨⟨⟩, hget⟩ := mem_keys.1 hstream
    obtain ⟨name, hname, heq⟩ := mem_map.1 (get_ofList_unit.1 hget)
    cases heq
    exact hname
  | client protocol_type protocols => cases hstream

theorem next_generation_of_lt {n : ℕ} (h : n + 1 < 2 ^ 31) : next_generation n = (n : ℤ) + 1 := by
  unfold next_generation
  rw [if_neg (by omega), max_eq_left (by omega)]

theorem Sharing.of_completed (h : Sharing asked g) (hc : Completed g r round g') :
    Sharing asked g' := by
  refine ⟨?_, ?_, ?_, ?_, ?_⟩
  · intro hlength
    rw [hc.rounds, length_append, length_singleton] at hlength
    obtain ⟨hgeneration, hrounds⟩ := h.counted (by omega)
    have hnext : round.generation = (g.rounds.length : ℤ) + 1 := by
      rw [hc.round_generation, hgeneration, next_generation_of_lt hlength]
    refine ⟨?_, fun i round' hround' => ?_⟩
    · rw [hc.generation, hnext, hc.rounds, length_append, length_singleton]
      push_cast
      rfl
    · rw [hc.rounds] at hround'
      rcases Nat.lt_or_ge i g.rounds.length with hlt | hge
      · rw [getElem?_append_left hlt] at hround'
        exact hrounds i round' hround'
      · rw [getElem?_append_right hge] at hround'
        have hi : i = g.rounds.length := by
          by_contra hne
          rw [getElem?_eq_none (by simp only [length_singleton]; omega)] at hround'
          cases hround'
        rw [hi, Nat.sub_self] at hround'
        cases hround'
        rw [hi, hnext]
  · intro round' hround' hmode
    rw [hc.rounds] at hround'
    rcases mem_append.1 hround' with hold | hnew
    · exact h.shared round' hold hmode
    · cases mem_singleton.1 hnew
      obtain ⟨assignments, now, hassign, hmembers⟩ := hc.subscribed hmode
      rw [hmembers]
      exact shared_give_streams hassign
  · intro sender outcome joined hin hok
    rw [hc.rounds]
    rcases hc.answers sender outcome joined hin hok with hold | ⟨hgeneration, hwaits, htells⟩
    · obtain ⟨round', hround', hrest⟩ := h.answers sender outcome joined hold hok
      exact ⟨round', mem_append_left _ hround', hrest⟩
    · refine ⟨round, mem_append_right _ (mem_singleton.2 rfl), hgeneration.symm, htells,
        fun hmode => ?_⟩
      obtain ⟨input, m, hasked, hm, hrole⟩ := h.asks r hc.pending outcome.member_id sender hwaits
      refine ⟨input, hasked, fun stream hstream => ?_⟩
      obtain ⟨assignments, now, hassign, hmembers⟩ := hc.subscribed hmode
      rw [hmembers] at hstream
      obtain ⟨m', hm', hwanted'⟩ := (shared_give_streams hassign).contained _ stream hstream
      obtain ⟨m₀, hm₀, hwanted⟩ := get_give_streams hm'
      cases hm.symm.trans hm₀
      exact mem_wanted_role_of hrole (hwanted ▸ hwanted')
  · intro hphase hmode
    refine ⟨round, by rw [hc.rounds, getLast?_concat], hc.stable hphase, ?_⟩
    intro id m hm subscription streams hrole
    rw [hc.members] at hm
    rw [streams_of_eq hm, hrole]
  · intro r' hr'
    rw [hc.rebalance] at hr'
    cases hr'

theorem Sharing.of_unfinished (h : Sharing asked g) (hu : Unfinished g g') :
    Sharing asked g' := by
  obtain ⟨answers, hanswers, hsent⟩ := hu.sent
  refine h.change hanswers hsent hu.rounds hu.generation (fun hphase hmode => ?_) ?_
  · rw [hu.members]
    exact ⟨hu.stable hphase, hu.mode _ hmode, fun id m hm => .inl ⟨m, hm, rfl⟩⟩
  · rw [hu.members]
    exact fun r hr => h.asks r (hu.rebalance r hr)

theorem Sharing.kept_by_settling : Kept (Sharing asked) where
  frame := by
    intro g g' h hphase hgeneration hmode hmembers hrebalance _ hsent hrounds
    refine h.change refusals_nil ?_ hrounds hgeneration ?_ ?_
    · rw [hsent, append_nil]
    · rw [hphase, hmode, hmembers]
      exact fun hstable hsubscribed => ⟨hstable, hsubscribed, fun id m hm => .inl ⟨m, hm, rfl⟩⟩
    · rw [hmembers, hrebalance]
      exact h.asks
  depart := by
    intro g id error h
    refine h.change (refusals_departure id error) rfl rfl rfl ?_ ?_
    · refine fun hstable hsubscribed => ⟨hstable, hsubscribed, fun id' m hm => .inl ⟨m, ?_, rfl⟩⟩
      exact (of_get_remove hm).2
    · intro r hr id' sender hwaits
      obtain ⟨r₀, hr₀, rfl⟩ := Option.map_eq_some_iff.1 hr
      obtain ⟨hne, hwaits₀⟩ := of_get_remove hwaits
      obtain ⟨input, m, hasked, hm, hrole⟩ := h.asks r₀ hr₀ id' sender hwaits₀
      refine ⟨input, m, hasked, ?_, hrole⟩
      show (g.members.remove id).get id' = _
      rw [get_remove, if_neg hne]
      exact hm
  beat := by
    intro g id m now h hm
    -- a heartbeat does not change the role
    have hget : ∀ id' m', g.members.get id' = some m' → ∃ m'',
        (g.members.insert id { m with last_heartbeat := now }).get id' = some m'' ∧
          m''.role = m'.role := by
      intro id' m' hm'
      rw [get_insert]
      split_ifs with hid
      · subst hid
        cases hm.symm.trans hm'
        exact ⟨_, rfl, rfl⟩
      · exact ⟨m', hm', rfl⟩
    refine h.change refusals_nil (append_nil _).symm rfl rfl ?_ ?_
    · refine fun hstable hsubscribed => ⟨hstable, hsubscribed, fun id' m' hm' => .inl ?_⟩
      rcases get_insert_cases hm' with ⟨rfl, rfl⟩ | ⟨-, hold⟩
      · exact ⟨m, hm, rfl⟩
      · exact ⟨m', hold, rfl⟩
    · intro r hr id' sender hwaits
      obtain ⟨input, m', hasked, hm', hrole⟩ := h.asks r hr id' sender hwaits
      obtain ⟨m'', hm'', hrole''⟩ := hget id' m' hm'
      exact ⟨input, m'', hasked, hm'', hrole''.trans hrole⟩
  settle := by
    intro g now hg h
    rcases settle_cases hg.has_mode now with hu | ⟨r, round, hc⟩
    · exact h.of_unfinished hu
    · exact h.of_completed hc

theorem Sharing.entered
    (h : Sharing asked ((g.refresh now).fence_stale id input.instance_id)) (hg : Sound g)
    (hasked : asked sender input) : Sharing asked (g.entered now sender id input) := by
  have hself : (g.admitted now id input).members.get id = some (member_from_input input now) :=
    get_insert_self ..
  cases hr : (g.admitted now id input).rebalance with
  | none =>
    rw [Group.entered, joining_start hr]
    refine h.change refusals_nil (append_nil _).symm rfl rfl
      (fun hstable => by cases hstable) ?_
    intro r hr' id' sender' hwaits
    cases hr'
    rcases get_insert_cases hwaits with ⟨rfl, rfl⟩ | ⟨-, hold⟩
    · exact ⟨input, _, hasked, hself, rfl⟩
    · cases hold
  | some r =>
    have hpreparing := hg.admitted.preparing r hr
    rw [Group.entered, joining_pending hr]
    refine h.change (refusals_joins ((r.waiters.get id).toList.map fun previous =>
      (id, previous)) .superseded) ?_ rfl rfl ?_ ?_
    · rw [map_map]
      rfl
    · exact fun hstable => by cases hpreparing.symm.trans hstable
    · intro r' hr' id' sender' hwaits
      cases hr'
      rcases get_insert_cases hwaits with ⟨rfl, rfl⟩ | ⟨hne, hold⟩
      · exact ⟨input, _, hasked, hself, rfl⟩
      · obtain ⟨input', m, hasked', hm, hrole⟩ := h.asks r hr id' sender' hold
        refine ⟨input', m, hasked', ?_, hrole⟩
        show (OrdMap.insert _ id _).get id' = _
        rw [get_insert, if_neg hne]
        exact hm

theorem set_streams_role_of (membership : Membership) :
    (role_of membership).set_streams [] = role_of membership := by
  cases membership <;> rfl

theorem Sharing.join (h : Sharing asked g) (hg : Sound g) (hasked : asked sender input)
    (hnew : g.NewId (.join now fresh sender input)) :
    Sharing asked (g.join now fresh sender input).1 := by
  have hrefresh := Sharing.kept_by_settling.refresh hg h now
  refine Sharing.kept_by_settling.join hg hrefresh (fun hcheck _ => ?_)
    fun id _ hfenced => hfenced.entered hg hasked
  rcases check_join_ok hcheck with ⟨-, -, hresolve⟩ | ⟨hfalse, -⟩
  · obtain ⟨hnone, hrounds⟩ := hnew hresolve
    refine hrefresh.change refusals_nil (append_nil _).symm rfl rfl ?_ ?_
    · refine fun hstable hsubscribed => ⟨hstable, hsubscribed, fun id m hm => ?_⟩
      rcases get_insert_cases hm with ⟨rfl, rfl⟩ | ⟨-, hold⟩
      · exact .inr ⟨set_streams_role_of _, hrounds⟩
      · exact .inl ⟨m, hold, rfl⟩
    · intro r hr id sender' hwaits
      obtain ⟨input', m, hasked', hm, hrole⟩ := hrefresh.asks r hr id sender' hwaits
      refine ⟨input', m, hasked', ?_, hrole⟩
      show (OrdMap.insert _ fresh _).get id = _
      rw [get_insert, if_neg, hm]
      rintro rfl
      exact hnone (mem_keys_of_get hm)
  · cases hfalse

theorem Sharing.sync {input : SyncInput} (h : Sharing asked g) (hg : Sound g) :
    Sharing asked (g.sync now sender input).1 := by
  have hexpire := Sharing.kept_by_settling.expire_members hg h now
  have hend := sync_end g now sender input
  generalize g.sync now sender input = result at hend
  cases hend with
  | answered => exact hexpire
  | distributed protocol_type protocol_name members outcome hmode hphase =>
    refine hexpire.change (refusals_syncs _ fun e : String × ℕ => (e.2, .ok _)) rfl rfl rfl
      (fun _ hsubscribed => ?_) fun r hr => ?_
    · cases hmode.symm.trans hsubscribed
    · exact absurd (hg.expire_members.preparing r hr) hphase
  | parked m protocol_type protocol_name leader hm hmode hpreparing hstable =>
    exact hexpire.change (refusals_syncs _ fun previous : ℕ => (previous, .error .superseded)) rfl
      rfl rfl (fun hstable' => absurd hstable' hstable) hexpire.asks

theorem Sharing.apply (h : Sharing asked g) (hg : Sound g) (hload : a.reloads = false)
    (hasked : ∀ now fresh sender input, a = .join now fresh sender input → asked sender input)
    (hnew : g.NewId a) : Sharing asked (g.apply a) := by
  refine Sharing.kept_by_settling.apply hg h a ?_ ?_ ?_
  · rintro now fresh sender input rfl
    exact h.join hg (hasked now fresh sender input rfl) hnew
  · rintro now sender input rfl
    exact h.sync hg
  · rintro epoch offsets replayed now rfl
    cases hload

theorem Sharing.loaded {epoch : ℤ} {offsets : OffsetTable} {appends : ℕ} :
    Sharing asked (loaded epoch offsets appends now) where
  counted := fun _ => ⟨rfl, fun i round hround => by cases hround⟩
  shared := fun _ hround => by cases hround
  answers := fun _ _ _ hin => by cases hin
  kept := fun hphase => by cases hphase
  asks := fun _ hr => by cases hr

/-! ## The lists of all generations -/

/-- The streams of a member in the round of a generation of subscribed members. -/
def list_of (rounds : List Round) (generation : ℤ) (id : String) : List StreamName :=
  match rounds.find? fun round =>
    decide (round.generation = generation ∧ round.mode = some .subscribed) with
  | some round => streams_of round.members id
  | none => []

theorem Sharing.round_unique (h : Sharing asked g) (hfew : g.rounds.length < 2 ^ 31)
    {round round' : Round} (hround : round ∈ g.rounds) (hround' : round' ∈ g.rounds)
    (heq : round.generation = round'.generation) : round = round' := by
  obtain ⟨i, hi⟩ := mem_iff_getElem?.1 hround
  obtain ⟨j, hj⟩ := mem_iff_getElem?.1 hround'
  have hgi := (h.counted hfew).2 i round hi
  have hgj := (h.counted hfew).2 j round' hj
  have hij : i = j := by omega
  subst hij
  exact Option.some.inj (hi.symm.trans hj)

theorem Sharing.list_of_eq (h : Sharing asked g) (hfew : g.rounds.length < 2 ^ 31)
    (hround : round ∈ g.rounds) (hmode : round.mode = some .subscribed) (id : String) :
    list_of g.rounds round.generation id = streams_of round.members id := by
  unfold list_of
  split
  · rename_i round' hfind
    have hround' := mem_of_find?_eq_some hfind
    have heq := find?_some hfind
    rw [decide_eq_true_eq] at heq
    rw [h.round_unique hfew hround' hround heq.1]
  · rename_i hfind
    have hnot := find?_eq_none.1 hfind round hround
    exact absurd (decide_eq_true ⟨rfl, hmode⟩) hnot

theorem mem_list_of {rounds : List Round} {generation : ℤ} {stream : StreamName}
    (h : stream ∈ list_of rounds generation id) : ∃ round ∈ rounds,
      round.generation = generation ∧ round.mode = some .subscribed := by
  unfold list_of at h
  split at h
  · rename_i round hfind
    have heq := find?_some hfind
    rw [decide_eq_true_eq] at heq
    exact ⟨round, mem_of_find?_eq_some hfind, heq⟩
  · cases h

theorem Sharing.one_list {actions : List Action}
    (h : Sharing (fun sender input => ∃ now fresh, .join now fresh sender input ∈ actions) g)
    (hfew : g.rounds.length < 2 ^ 31) : OneList (list_of g.rounds) actions g where
  joins := by
    intro sender outcome streams members hin hok
    obtain ⟨round, hround, hgeneration, ⟨hmode, hstreams, -⟩, hasked⟩ :=
      h.answers sender outcome _ hin hok
    obtain ⟨input, ⟨now, fresh, haction⟩, hcontained⟩ := hasked hmode
    refine ⟨?_, now, fresh, input, haction, ?_⟩
    · rw [hstreams, ← hgeneration, h.list_of_eq hfew hround hmode]
    · rw [hstreams]
      exact hcontained
  disjoint := by
    intro generation id id' hne stream hin hin'
    obtain ⟨round, hround, rfl, hmode⟩ := mem_list_of hin
    rw [h.list_of_eq hfew hround hmode] at hin hin'
    exact hne ((h.shared round hround hmode).disjoint id id' stream hin hin')
  contained := by
    intro round hround hmode id stream hin
    rw [h.list_of_eq hfew hround hmode] at hin
    exact (h.shared round hround hmode).contained id stream hin
  whole := by
    intro round hround hmode id m hm stream hstream
    obtain ⟨id', hid', hin⟩ := (h.shared round hround hmode).whole id m hm stream hstream
    refine ⟨id', hid', ?_⟩
    rw [h.list_of_eq hfew hround hmode]
    exact hin

theorem Sharing.query {fence : MemberFence} {streams : List StreamName}
    (h : Sharing asked (g.expire_members now))
    (hfew : (g.expire_members now).rounds.length < 2 ^ 31)
    (hmode : (g.expire_members now).mode = some .subscribed)
    (hanswer : (g.assignment now fence).2 = .answered (.ok streams)) :
    ∃ round ∈ (g.expire_members now).rounds, round.generation = fence.generation ∧
      round.mode = some .subscribed ∧ streams = streams_of round.members fence.member_id := by
  unfold assignment at hanswer
  dsimp only at hanswer
  cases hfence : (g.expire_members now).check_fence fence with
  | error error =>
    rw [hfence] at hanswer
    cases hanswer
  | ok checked =>
    obtain ⟨m, hm, hgeneration⟩ := check_fence_ok hfence
    rw [hfence] at hanswer
    dsimp only at hanswer
    by_cases hphase : (g.expire_members now).phase = .stable
    · obtain ⟨round, hlast, hsubscribed, hstreams⟩ := h.kept hphase hmode
      have hround := mem_of_getLast? hlast
      refine ⟨round, hround, ?_, hsubscribed, ?_⟩
      · -- the last round is that of the generation
        obtain ⟨hcounted, hrounds⟩ := h.counted hfew
        rw [getLast?_eq_getElem?] at hlast
        have hpos : 0 < (g.expire_members now).rounds.length := length_pos_of_mem hround
        have hlast' := hrounds _ round hlast
        omega
      · rw [if_neg (not_not_intro hphase), hm] at hanswer
        obtain ⟨instance_id, role, session, rebalance, last⟩ := m
        cases role with
        | client => cases hanswer
        | subscribed subscription assignment =>
          cases hanswer
          exact hstreams _ _ hm subscription streams rfl
    · rw [if_pos hphase] at hanswer
      cases hanswer

section Runs

variable {epoch : ℤ} {offsets : OffsetTable} {appends : ℕ} {actions : List Action}

theorem rounds_after (i : ℕ) :
    (Run.after apply (loaded epoch offsets appends now) actions i).rounds <+:
      (Run.run apply (loaded epoch offsets appends now) actions).rounds := by
  rcases Nat.le_total i actions.length with hle | hge
  · rw [← Run.after_length]
    refine Run.after_of_le (P := fun g : Group => Group.rounds _ <+: g.rounds) hle
      (prefix_refl _) ?_
    exact fun k a _ _ _ h => h.trans (rounds_apply (Sound.run (actions.take k)) a)
  · rw [Run.after, take_of_length_le hge]

/-- While generations do not repeat, all answers for a generation and member give one list; the
lists are disjoint, contained in the subscriptions and hold all streams wanted. -/
theorem one_list_per_generation (hload : ∀ a ∈ actions, a.reloads = false)
    (hnew : Run.EachStep apply (loaded epoch offsets appends now) actions NewId)
    (hfew : (Run.run apply (loaded epoch offsets appends now) actions).rounds.length < 2 ^ 31) :
    ∃ lists : ℤ → String → List StreamName,
      OneList lists actions (Run.run apply (loaded epoch offsets appends now) actions) ∧
      Run.EachStep apply (loaded epoch offsets appends now) actions (QueryAgrees lists) := by
  have hsharing : Run.Always apply (Group.loaded epoch offsets appends now) actions fun g =>
      Sound g ∧ Sharing (fun sender input => ∃ now fresh, .join now fresh sender input ∈ actions) g :=
    Run.always_of_eachStep (Q := fun g a => a ∈ actions ∧ g.NewId a) ⟨Sound.loaded, Sharing.loaded⟩
      (fun g a hg ha => ⟨hg.1.apply a, hg.2.apply hg.1 (hload a ha.1)
        (fun now fresh sender input heq => ⟨now, fresh, heq ▸ ha.1⟩) ha.2⟩)
      fun i a ha => ⟨List.mem_of_getElem? ha, hnew i a ha⟩
  have hfinal := (hsharing actions.length).2
  rw [Run.after_length] at hfinal
  refine ⟨_, hfinal.one_list hfew, fun i a ha => ?_⟩
  rintro now' fence streams rfl hmode hanswer
  obtain ⟨hsound, hbefore⟩ := hsharing i
  -- the query leaves the group as it is answered from
  have hgrown : (Run.after apply (Group.loaded epoch offsets appends now) actions (i + 1)).rounds <+:
      (Run.run apply (Group.loaded epoch offsets appends now) actions).rounds := rounds_after (i + 1)
  obtain ⟨result, heq⟩ := assignment_end (Run.after apply (Group.loaded epoch offsets appends now)
    actions i) now' fence
  rw [Run.after_succ ha, Group.apply, heq] at hgrown
  have hexpire := Sharing.kept_by_settling.expire_members hsound hbefore now'
  obtain ⟨round, hround, hgeneration, hsubscribed, hstreams⟩ :=
    hexpire.query (lt_of_le_of_lt hgrown.length_le hfew) hmode hanswer
  rw [hstreams, ← hgeneration, hfinal.list_of_eq hfew (hgrown.subset hround) hsubscribed]

/-- A member that reads these streams joins. -/
def subscriber (member_id : String) (streams : List StreamName) : JoinInput where
  group_id := "g"
  member_id := member_id
  membership := .subscribed streams
  session_timeout_ms := 300000
  rebalance_timeout_ms := 60000

/-- Two members share three streams, and the first one asks for its own once more. -/
theorem one_list_per_generation_of_two :
    let actions : List Action :=
      [.join 0 "a" 0 (subscriber "" ["s", "t"]), .join 1 "b" 1 (subscriber "" ["t", "u"]),
        .join 2 "c" 2 (subscriber "a" ["s", "t"]), .assignment 3 ⟨2, "a", none⟩]
    ∃ lists : ℤ → String → List StreamName,
      OneList lists actions (Run.run apply (loaded 0 OrdMap.empty 0 0) actions) ∧
      Run.EachStep apply (loaded 0 OrdMap.empty 0 0) actions (QueryAgrees lists) ∧
      lists 1 "a" = ["s", "t"] ∧ lists 2 "a" = ["s", "t"] ∧ lists 2 "b" = ["u"] := by
  intro actions
  have hload : ∀ a ∈ actions, a.reloads = false := by decide
  have hnew : Run.EachStep apply (Group.loaded 0 OrdMap.empty 0 0) actions NewId := by
    decide +kernel
  have hfew : (Run.run apply (Group.loaded 0 OrdMap.empty 0 0) actions).rounds.length < 2 ^ 31 := by
    decide +kernel
  obtain ⟨lists, hone, hquery⟩ := one_list_per_generation hload hnew hfew
  refine ⟨lists, hone, hquery, ?_, ?_, ?_⟩
  · exact (hone.joins 0 ⟨1, "a", _⟩ ["s", "t"] ["a"] (by decide +kernel) rfl).1.symm
  · exact (hone.joins 2 ⟨2, "a", _⟩ ["s", "t"] ["a", "b"] (by decide +kernel) rfl).1.symm
  · exact (hone.joins 1 ⟨2, "b", _⟩ ["u"] ["a", "b"] (by decide +kernel) rfl).1.symm

end Runs

end Group

end PicoMq.Groups
