import PicoMq.Groups.Proofs.StepProofs
import PicoMq.Library.Proofs.RunProofs

/-!
# Requests, watchers and the states they point to

A request that parks does so once, with a state that stays for as long as the request waits.
-/

namespace PicoMq.Groups

open List OrdMap

/-- Whether the request has done what it does under the lock. -/
def Phase.acted : Phase → Bool
  | parked _ | hung_up | done _ => true
  | _ => false

namespace Group

theorem join_ne_panicked (g : Group) (now : ℕ) (fresh : String) (sender : ℕ) (input : JoinInput) :
    (g.join now fresh sender input).2 ≠ .panicked := by
  have hend := join_end g now fresh sender input
  generalize g.join now fresh sender input = result at hend ⊢
  cases hend <;> intro h <;> cases h

theorem sync_ne_panicked (g : Group) (now sender : ℕ) (input : SyncInput) :
    (g.sync now sender input).2 ≠ .panicked := by
  have hend := sync_end g now sender input
  generalize g.sync now sender input = result at hend ⊢
  cases hend <;> intro h <;> cases h

end Group

namespace Coordinator

variable {s s' : Coordinator} {c arc : ℕ} {call : Call} {phase : Phase} {g g' : Group}

/-! ## What changes the phase of a call -/

@[simp] theorem states_set_phase : (s.set_phase c phase).states = s.states := by
  unfold set_phase; split <;> rfl

@[simp] theorem groups_set_phase : (s.set_phase c phase).groups = s.groups := by
  unfold set_phase; split <;> rfl

@[simp] theorem watchers_set_phase : (s.set_phase c phase).watchers = s.watchers := by
  unfold set_phase; split <;> rfl

@[simp] theorem next_arc_set_phase : (s.set_phase c phase).next_arc = s.next_arc := by
  unfold set_phase; split <;> rfl

theorem get_calls_set_phase (s : Coordinator) (c : ℕ) (phase : Phase) (c' : ℕ) :
    (s.set_phase c phase).calls.get c' =
      if c' = c then (s.calls.get c).map fun call => { call with phase }
      else s.calls.get c' := by
  unfold set_phase
  cases h : s.calls.get c with
  | none =>
    dsimp only
    split_ifs with hc
    · rw [hc, h]; rfl
    · rfl
  | some call => exact get_insert ..

theorem get_calls_set_phase_cases {c' : ℕ} {call' : Call}
    (h : (s.set_phase c phase).calls.get c' = some call') :
    (c' = c ∧ ∃ call, s.calls.get c = some call ∧ call' = { call with phase }) ∨
      (c' ≠ c ∧ s.calls.get c' = some call') := by
  rw [get_calls_set_phase] at h
  split_ifs at h with hc
  · obtain ⟨call, hcall, rfl⟩ := Option.map_eq_some_iff.1 h
    exact .inl ⟨hc, call, hcall, rfl⟩
  · exact .inr ⟨hc, h⟩

/-! ## The invariant -/

/-- Where the senders are, and that nothing goes away that something points to. -/
structure Tracked (s : Coordinator) : Prop where
  sound : ∀ arc g, s.states.get arc = some g → g.Sound
  once : ∀ arc g, s.states.get arc = some g → ∀ c, g.tokens.count c ≤ 1
  one_state : ∀ arc arc' g g' c, s.states.get arc = some g → s.states.get arc' = some g' →
    c ∈ g.tokens → c ∈ g'.tokens → arc = arc'
  acted : ∀ arc g c, s.states.get arc = some g → c ∈ g.tokens →
    ∃ call, s.calls.get c = some call ∧ call.phase.acted = true
  parked : ∀ c call arc, s.calls.get c = some call → call.phase = .parked arc →
    ∃ g, s.states.get arc = some g ∧ c ∈ g.tokens
  held : ∀ c call arc, s.calls.get c = some call → call.phase.arc = some arc →
    arc ∈ s.states.keys
  mapped : ∀ id arc, s.groups.get id = some arc → arc ∈ s.states.keys
  watched : ∀ w watcher arc, s.watchers.get w = some watcher → watcher.arc = some arc →
    arc ∈ s.states.keys
  fresh : ∀ arc ∈ s.states.keys, arc < s.next_arc
  no_call_panics : ∀ c call, s.calls.get c = some call → call.phase ≠ .done .panicked

namespace Tracked

theorem init (max_groups : ℕ) : Tracked { max_groups } where
  sound arc g h := by cases h
  once arc g h := by cases h
  one_state arc arc' g g' c h := by cases h
  acted arc g c h := by cases h
  parked c call arc h := by cases h
  held c call arc h := by cases h
  mapped id arc h := by cases h
  watched w watcher arc h := by cases h
  fresh arc h := by cases h
  no_call_panics c call h := by cases h

section

variable (h : Tracked s)
include h

theorem frame (hstates : s'.states = s.states) (hcalls : s'.calls = s.calls)
    (hgroups : s'.groups = s.groups) (hwatchers : s'.watchers = s.watchers)
    (hnext : s'.next_arc = s.next_arc) : Tracked s' := by
  obtain ⟨h1, h2, h3, h4, h5, h6, h7, h8, h9, h10⟩ := h
  constructor <;> simp only [hstates, hcalls, hgroups, hwatchers, hnext] <;> assumption

section

variable (hcall : s.calls.get c = some call)
include hcall

section

variable (hacted : call.phase.acted = true → phase.acted = true)
include hacted

theorem set_phase
    (harc : ∀ arc, phase.arc = some arc → arc ∈ s.states.keys)
    (hparked : ∀ arc, phase = .parked arc → ∃ g, s.states.get arc = some g ∧ c ∈ g.tokens)
    (hpanic : phase ≠ .done .panicked) : Tracked (s.set_phase c phase) where
  sound := by rw [states_set_phase]; exact h.sound
  once := by rw [states_set_phase]; exact h.once
  one_state := by rw [states_set_phase]; exact h.one_state
  acted arc g c' hg hc' := by
    rw [states_set_phase] at hg
    obtain ⟨call', hcall', hacted'⟩ := h.acted arc g c' hg hc'
    rw [get_calls_set_phase]
    split_ifs with hc
    · subst hc
      cases hcall.symm.trans hcall'
      exact ⟨_, by rw [hcall]; rfl, hacted hacted'⟩
    · exact ⟨call', hcall', hacted'⟩
  parked c' call' arc hcall' hphase := by
    rw [states_set_phase]
    rcases get_calls_set_phase_cases hcall' with ⟨rfl, call₀, -, rfl⟩ | ⟨-, hold⟩
    · exact hparked arc hphase
    · exact h.parked c' call' arc hold hphase
  held c' call' arc hcall' hphase := by
    rw [states_set_phase]
    rcases get_calls_set_phase_cases hcall' with ⟨rfl, call₀, -, rfl⟩ | ⟨-, hold⟩
    · exact harc arc hphase
    · exact h.held c' call' arc hold hphase
  mapped := by rw [states_set_phase, groups_set_phase]; exact h.mapped
  watched := by rw [states_set_phase, watchers_set_phase]; exact h.watched
  fresh := by rw [states_set_phase, next_arc_set_phase]; exact h.fresh
  no_call_panics c' call' hcall' := by
    rcases get_calls_set_phase_cases hcall' with ⟨rfl, call₀, -, rfl⟩ | ⟨-, hold⟩
    · exact hpanic
    · exact h.no_call_panics c' call' hold

theorem set_phase_free (harc : phase.arc = none)
    (hpanic : phase ≠ .done .panicked) : Tracked (s.set_phase c phase) := by
  refine h.set_phase hcall hacted (fun arc harc' => ?_) (fun arc hphase => ?_) hpanic
  · rw [harc] at harc'; cases harc'
  · rw [hphase] at harc; cases harc

end

theorem set_phase_held
    (hacted : call.phase.acted = false) (harc : phase.arc = some arc)
    (hstate : arc ∈ s.states.keys) (hphase : phase.acted = false) :
    Tracked (s.set_phase c phase) := by
  refine h.set_phase hcall (fun hacted' => ?_) (fun arc' harc' => ?_) (fun arc' hparked => ?_) ?_
  · rw [hacted] at hacted'; cases hacted'
  · rw [harc] at harc'; cases harc'; exact hstate
  · rw [hparked] at hphase; cases hphase
  · rintro rfl; cases harc

end

theorem change_states {f : ℕ → Group → Group}
    (hstates : ∀ arc, s'.states.get arc = (s.states.get arc).map (f arc))
    (hf : ∀ arc g, s.states.get arc = some g →
      (f arc g).Sound ∧ ∀ t, (f arc g).tokens.count t = g.tokens.count t)
    (hcalls : s'.calls = s.calls) (hgroups : s'.groups = s.groups)
    (hwatchers : s'.watchers = s.watchers) (hnext : s'.next_arc = s.next_arc) : Tracked s' := by
  have hkeys : ∀ arc, arc ∈ s'.states.keys ↔ arc ∈ s.states.keys := fun arc => by
    rw [OrdMap.mem_keys, OrdMap.mem_keys, hstates]
    simp
  have hmem : ∀ arc g, s.states.get arc = some g → ∀ t, t ∈ (f arc g).tokens ↔ t ∈ g.tokens :=
    fun arc g hg t => by
      rw [← count_pos_iff, ← count_pos_iff, (hf arc g hg).2]
  have hget : ∀ arc g, s'.states.get arc = some g → ∃ g₀, s.states.get arc = some g₀ ∧ g = f arc g₀ :=
    fun arc g hg => by
      rw [hstates] at hg
      obtain ⟨g₀, hg₀, rfl⟩ := Option.map_eq_some_iff.1 hg
      exact ⟨g₀, hg₀, rfl⟩
  constructor
  · intro arc g hg
    obtain ⟨g₀, hg₀, rfl⟩ := hget arc g hg
    exact (hf arc g₀ hg₀).1
  · intro arc g hg t
    obtain ⟨g₀, hg₀, rfl⟩ := hget arc g hg
    rw [(hf arc g₀ hg₀).2]
    exact h.once arc g₀ hg₀ t
  · intro arc arc' g g' t hg hg' ht ht'
    obtain ⟨g₀, hg₀, rfl⟩ := hget arc g hg
    obtain ⟨g₁, hg₁, rfl⟩ := hget arc' g' hg'
    exact h.one_state arc arc' g₀ g₁ t hg₀ hg₁ ((hmem arc g₀ hg₀ t).1 ht) ((hmem arc' g₁ hg₁ t).1 ht')
  · intro arc g t hg ht
    obtain ⟨g₀, hg₀, rfl⟩ := hget arc g hg
    rw [hcalls]
    exact h.acted arc g₀ t hg₀ ((hmem arc g₀ hg₀ t).1 ht)
  · intro c call arc hcall hphase
    rw [hcalls] at hcall
    obtain ⟨g₀, hg₀, ht⟩ := h.parked c call arc hcall hphase
    exact ⟨f arc g₀, by rw [hstates, hg₀]; rfl, (hmem arc g₀ hg₀ c).2 ht⟩
  · intro c call arc hcall hphase
    rw [hcalls] at hcall
    exact (hkeys arc).2 (h.held c call arc hcall hphase)
  · intro id arc hid
    rw [hgroups] at hid
    exact (hkeys arc).2 (h.mapped id arc hid)
  · intro w watcher arc hw harc
    rw [hwatchers] at hw
    exact (hkeys arc).2 (h.watched w watcher arc hw harc)
  · intro arc harc
    rw [hnext]
    exact h.fresh arc ((hkeys arc).1 harc)
  · rw [hcalls]
    exact h.no_call_panics

theorem replace_state (hg : s.states.get arc = some g) (hsound : g'.Sound)
    (htokens : ∀ t, g'.tokens.count t = g.tokens.count t) : Tracked (s.put_state arc g') := by
  refine h.change_states (f := fun arc₁ g₁ => if arc₁ = arc then g' else g₁) (fun arc₁ => ?_)
    (fun arc₁ g₁ hg₁ => ?_) rfl rfl rfl rfl
  · show (s.states.insert arc g').get arc₁ = _
    rw [get_insert]
    split_ifs with harc
    · rw [harc, hg]; rfl
    · exact Option.map_id'.symm
  · split_ifs with harc
    · rw [harc] at hg₁
      cases hg.symm.trans hg₁
      exact ⟨hsound, htokens⟩
    · exact ⟨h.sound arc₁ g₁ hg₁, fun t => rfl⟩

theorem put_state (hg : s.states.get arc = some g) (a : Group.Action)
    (hparked : a.parked g = []) : Tracked (s.put_state arc (g.apply a)) :=
  h.replace_state hg ((h.sound arc g hg).apply a) fun t => by
    rw [Group.tokens_apply, hparked, count_nil, Nat.add_zero]

theorem park (hcall : s.calls.get c = some call)
    (hacted : call.phase.acted = false) (hg : s.states.get arc = some g) (a : Group.Action)
    (hparked : a.parked g = [c]) :
    Tracked ((s.put_state arc (g.apply a)).set_phase c (.parked arc)) := by
  have hnew : ∀ arc' g', s.states.get arc' = some g' → c ∉ g'.tokens := by
    intro arc' g' hg' hc
    obtain ⟨call', hcall', hacted'⟩ := h.acted arc' g' c hg' hc
    cases hcall.symm.trans hcall'
    rw [hacted] at hacted'
    cases hacted'
  have htokens : ∀ t, (g.apply a).tokens.count t = g.tokens.count t + [c].count t := fun t => by
    rw [Group.tokens_apply, hparked]
  have hmem : ∀ t, t ∈ (g.apply a).tokens ↔ t ∈ g.tokens ∨ t = c := by
    intro t
    rw [← count_pos_iff, htokens, ← count_pos_iff, count_singleton]
    by_cases htc : c = t
    · simp [htc]
    · simp [htc, Ne.symm htc]
  have hget : ∀ arc' g', ((s.put_state arc (g.apply a)).set_phase c (.parked arc)).states.get arc' =
      some g' → (arc' = arc ∧ g' = g.apply a) ∨ (arc' ≠ arc ∧ s.states.get arc' = some g') := by
    intro arc' g' hg'
    rw [states_set_phase] at hg'
    exact get_insert_cases hg'
  have hkeys : ∀ arc', arc' ∈ (s.states.insert arc (g.apply a)).keys ↔ arc' ∈ s.states.keys := by
    intro arc'
    rw [mem_keys_insert]
    exact or_iff_right_of_imp fun he => he ▸ mem_keys_of_get hg
  have hcalls : ∀ c' call', ((s.put_state arc (g.apply a)).set_phase c (.parked arc)).calls.get c' =
      some call' → (c' = c ∧ call'.phase = .parked arc) ∨ (c' ≠ c ∧ s.calls.get c' = some call') := by
    intro c' call' hcall'
    rcases get_calls_set_phase_cases hcall' with ⟨rfl, call₀, -, rfl⟩ | ⟨hne, hold⟩
    · exact .inl ⟨rfl, rfl⟩
    · exact .inr ⟨hne, hold⟩
  constructor
  · intro arc' g' hg'
    rcases hget arc' g' hg' with ⟨rfl, rfl⟩ | ⟨-, hold⟩
    · exact (h.sound arc' g hg).apply a
    · exact h.sound arc' g' hold
  · intro arc' g' hg' t
    rcases hget arc' g' hg' with ⟨rfl, rfl⟩ | ⟨-, hold⟩
    · rw [htokens, count_singleton]
      by_cases htc : c = t
      · subst htc
        rw [count_eq_zero.2 (hnew arc' g hg)]
        simp
      · have := h.once arc' g hg t
        simp [htc, this]
    · exact h.once arc' g' hold t
  · intro arc₁ arc₂ g₁ g₂ t hg₁ hg₂ ht₁ ht₂
    rcases hget arc₁ g₁ hg₁ with ⟨rfl, rfl⟩ | ⟨-, hold₁⟩ <;>
      rcases hget arc₂ g₂ hg₂ with ⟨rfl, rfl⟩ | ⟨-, hold₂⟩
    · rfl
    · rcases (hmem t).1 ht₁ with hold | rfl
      · exact h.one_state _ _ g g₂ t hg hold₂ hold ht₂
      · exact absurd ht₂ (hnew arc₂ g₂ hold₂)
    · rcases (hmem t).1 ht₂ with hold | rfl
      · exact h.one_state _ _ g₁ g t hold₁ hg ht₁ hold
      · exact absurd ht₁ (hnew arc₁ g₁ hold₁)
    · exact h.one_state _ _ g₁ g₂ t hold₁ hold₂ ht₁ ht₂
  · intro arc' g' t hg' ht
    have hold : t = c ∨ ∃ call', s.calls.get t = some call' ∧ call'.phase.acted = true := by
      rcases hget arc' g' hg' with ⟨rfl, rfl⟩ | ⟨-, hold⟩
      · rcases (hmem t).1 ht with hin | rfl
        · exact .inr (h.acted arc' g t hg hin)
        · exact .inl rfl
      · exact .inr (h.acted arc' g' t hold ht)
    rw [get_calls_set_phase]
    split_ifs with htc
    · have hput : (s.put_state arc (g.apply a)).calls.get c = some call := hcall
      exact ⟨{ call with phase := .parked arc }, by rw [hput]; rfl, rfl⟩
    · exact hold.resolve_left htc
  · intro c' call' arc' hcall' hphase
    rw [states_set_phase]
    show ∃ g', (s.states.insert arc (g.apply a)).get arc' = some g' ∧ _
    rcases hcalls c' call' hcall' with ⟨rfl, hphase'⟩ | ⟨-, hold⟩
    · cases hphase'.symm.trans hphase
      exact ⟨g.apply a, get_insert_self .., (hmem c').2 (.inr rfl)⟩
    · obtain ⟨g', hg', hc'⟩ := h.parked c' call' arc' hold hphase
      rw [get_insert]
      split_ifs with harc
      · rw [harc] at hg'
        cases hg.symm.trans hg'
        exact ⟨_, rfl, (hmem c').2 (.inl hc')⟩
      · exact ⟨g', hg', hc'⟩
  · intro c' call' arc' hcall' hphase
    rw [states_set_phase]
    refine (hkeys arc').2 ?_
    rcases hcalls c' call' hcall' with ⟨rfl, hphase'⟩ | ⟨-, hold⟩
    · rw [hphase'] at hphase
      cases hphase
      exact mem_keys_of_get hg
    · exact h.held c' call' arc' hold hphase
  · rw [states_set_phase, groups_set_phase]
    exact fun id arc' hid => (hkeys arc').2 (h.mapped id arc' hid)
  · rw [states_set_phase, watchers_set_phase]
    exact fun w watcher arc' hw harc => (hkeys arc').2 (h.watched w watcher arc' hw harc)
  · rw [states_set_phase, next_arc_set_phase]
    exact fun arc' harc => h.fresh arc' ((hkeys arc').1 harc)
  · intro c' call' hcall'
    rcases hcalls c' call' hcall' with ⟨rfl, hphase'⟩ | ⟨-, hold⟩
    · rw [hphase']
      intro hcontra
      cases hcontra
    · exact h.no_call_panics c' call' hold

theorem shrink_groups {groups : OrdMap String ℕ}
    (hgroups : ∀ id arc, groups.get id = some arc → s.groups.get id = some arc) :
    Tracked { s with groups } :=
  { h with mapped := fun id arc hid => h.mapped id arc (hgroups id arc hid) }

theorem change_watchers {watchers : OrdMap ℕ Watcher} {next_watcher : ℕ}
    (hwatchers : ∀ w watcher arc, watchers.get w = some watcher → watcher.arc = some arc →
      arc ∈ s.states.keys) : Tracked { s with watchers, next_watcher } :=
  { h with watched := hwatchers }

theorem expire_unlocked : Tracked s.expire_unlocked := by
  refine h.change_states (fun arc => get_map_with_key ..) (fun arc g hg => ?_) rfl rfl rfl rfl
  split_ifs
  · exact ⟨(h.sound arc g hg).expire_members, fun t => Group.tokens_expire_members⟩
  · exact ⟨h.sound arc g hg, fun t => rfl⟩

theorem evict_idle_groups : Tracked s.evict_idle_groups := by
  obtain ⟨groups, heq, hgroups⟩ := evict_idle_groups_eq s
  rw [heq]
  exact h.expire_unlocked.shrink_groups hgroups

theorem new_state (group_id : String) :
    Tracked { s with
      groups := s.groups.insert group_id s.next_arc
      states := s.states.insert s.next_arc (Group.loaded I64_MIN OrdMap.empty 0 s.now)
      next_arc := s.next_arc + 1 } := by
  have hnone : s.states.get s.next_arc = none :=
    not_mem_keys.1 fun hin => lt_irrefl _ (h.fresh _ hin)
  have hold : ∀ arc g, s.states.get arc = some g →
      (s.states.insert s.next_arc (Group.loaded I64_MIN OrdMap.empty 0 s.now)).get arc = some g := by
    intro arc g hg
    rw [get_insert, if_neg, hg]
    rintro rfl
    cases hnone.symm.trans hg
  constructor
  · intro arc g hg
    rcases get_insert_cases hg with ⟨rfl, rfl⟩ | ⟨-, hg⟩
    · exact Group.Sound.loaded
    · exact h.sound arc g hg
  · intro arc g hg t
    rcases get_insert_cases hg with ⟨rfl, rfl⟩ | ⟨-, hg⟩
    · exact Nat.zero_le 1
    · exact h.once arc g hg t
  · intro arc arc' g g' t hg hg' ht ht'
    rcases get_insert_cases hg with ⟨rfl, rfl⟩ | ⟨-, hg⟩
    · cases ht
    rcases get_insert_cases hg' with ⟨rfl, rfl⟩ | ⟨-, hg'⟩
    · cases ht'
    exact h.one_state arc arc' g g' t hg hg' ht ht'
  · intro arc g t hg ht
    rcases get_insert_cases hg with ⟨rfl, rfl⟩ | ⟨-, hg⟩
    · cases ht
    · exact h.acted arc g t hg ht
  · intro c call arc hcall hphase
    obtain ⟨g, hg, ht⟩ := h.parked c call arc hcall hphase
    exact ⟨g, hold arc g hg, ht⟩
  · exact fun c call arc hcall hphase =>
      mem_keys_insert.2 (.inr (h.held c call arc hcall hphase))
  · intro id arc hid
    rcases get_insert_cases hid with ⟨-, rfl⟩ | ⟨-, hid⟩
    · exact mem_keys_insert.2 (.inl rfl)
    · exact mem_keys_insert.2 (.inr (h.mapped id arc hid))
  · exact fun w watcher arc hw harc =>
      mem_keys_insert.2 (.inr (h.watched w watcher arc hw harc))
  · intro arc harc
    rcases mem_keys_insert.1 harc with rfl | hin
    · exact Nat.lt_succ_self _
    · exact Nat.lt_succ_of_lt (h.fresh arc hin)
  · exact h.no_call_panics

theorem free (hmapped : arc ∉ s.groups.values) (hheld : s.held arc = false) :
    Tracked { s with states := s.states.remove arc } := by
  rw [Coordinator.held, Bool.or_eq_false_iff, any_eq_false, any_eq_false] at hheld
  have hcalls : ∀ c call, s.calls.get c = some call → call.phase.arc ≠ some arc :=
    fun c call hcall hphase =>
      hheld.1 call (mem_values.2 ⟨c, hcall⟩) (decide_eq_true hphase)
  have hwatchers : ∀ w watcher, s.watchers.get w = some watcher → watcher.arc ≠ some arc :=
    fun w watcher hw harc =>
      hheld.2 watcher (mem_values.2 ⟨w, hw⟩) (decide_eq_true harc)
  constructor
  · exact fun arc' g hg => h.sound arc' g (of_get_remove hg).2
  · exact fun arc' g hg => h.once arc' g (of_get_remove hg).2
  · exact fun arc₁ arc₂ g₁ g₂ t hg₁ hg₂ => h.one_state arc₁ arc₂ g₁ g₂ t
      (of_get_remove hg₁).2 (of_get_remove hg₂).2
  · exact fun arc' g t hg => h.acted arc' g t (of_get_remove hg).2
  · intro c call arc' hcall hphase
    obtain ⟨g, hg, ht⟩ := h.parked c call arc' hcall hphase
    refine ⟨g, ?_, ht⟩
    show (s.states.remove arc).get arc' = some g
    rw [get_remove, if_neg, hg]
    rintro rfl
    exact hcalls c call hcall (by rw [hphase]; rfl)
  · intro c call arc' hcall hphase
    refine mem_keys_remove.2 ⟨?_, h.held c call arc' hcall hphase⟩
    rintro rfl
    exact hcalls c call hcall hphase
  · intro id arc' hid
    refine mem_keys_remove.2 ⟨?_, h.mapped id arc' hid⟩
    rintro rfl
    exact hmapped (mem_values.2 ⟨id, hid⟩)
  · intro w watcher arc' hw harc
    refine mem_keys_remove.2 ⟨?_, h.watched w watcher arc' hw harc⟩
    rintro rfl
    exact hwatchers w watcher hw harc
  · exact fun arc' harc => h.fresh arc' (mem_keys_remove.1 harc).2
  · exact h.no_call_panics

end

end Tracked

/-! ## Steps -/

section Steps

variable {request : Request}

theorem refusal_ne_panicked (request : Request) (error : GroupError) :
    Phase.done (request.refusal error) ≠ .done .panicked := by
  intro h
  cases request with
  | fetch_offsets group_id =>
    simp only [Request.refusal] at h
    split_ifs at h
    · cases h
    · cases h
  | _ => cases h

theorem calls_evict_idle_groups : s.evict_idle_groups.calls = s.calls := by
  obtain ⟨groups, heq, -⟩ := evict_idle_groups_eq s
  rw [heq]
  rfl

variable (h : Tracked s)
include h

section

variable (hcall : s.calls.get c = some call)
include hcall

theorem Tracked.refuse (request : Request)
    (error : GroupError) : Tracked (s.refuse c request error) :=
  h.set_phase_free hcall (fun _ => rfl) rfl (refusal_ne_panicked request error)

theorem Tracked.done {reply : Reply}
    (hreply : reply ≠ .panicked) : Tracked (s.set_phase c (.done reply)) :=
  h.set_phase_free hcall (fun _ => rfl) rfl fun hphase => hreply (Phase.done.inj hphase)

theorem Tracked.acted_done
    (hg : s.states.get arc = some g) (a : Group.Action) (hparked : a.parked g = []) {reply : Reply}
    (hreply : reply ≠ .panicked) :
    Tracked ((s.put_state arc (g.apply a)).set_phase c (.done reply)) :=
  (h.put_state hg a hparked).done hcall hreply

theorem Tracked.acted_held
    (hacted : call.phase.acted = false) (hg : s.states.get arc = some g) (a : Group.Action)
    (hparked : a.parked g = []) (harc : phase.arc = some arc) (hphase : phase.acted = false) :
    Tracked ((s.put_state arc (g.apply a)).set_phase c phase) :=
  (h.put_state hg a hparked).set_phase_held hcall hacted harc
    (mem_keys_insert.2 (.inl rfl)) hphase

end

theorem Tracked.spawn (group_id : String) (c : ℕ)
    (schedule : Option Group.Schedule) : Tracked (s.spawn group_id c schedule) := by
  cases schedule with
  | none => exact h
  | some schedule =>
    refine h.change_watchers fun w watcher arc hw harc => ?_
    rcases get_insert_cases hw with ⟨-, rfl⟩ | ⟨-, hold⟩
    · cases harc
    · exact h.watched w watcher arc hold harc

theorem Tracked.act_join {input : JoinInput} {fresh : String}
    (hcall : s.calls.get c = some ⟨.join input fresh, .ready arc⟩)
    (hg : s.states.get arc = some g) : Tracked (s.act c arc g (.join input fresh)) := by
  show Tracked ((s.put_state arc (g.apply (.join s.now fresh c input))).finish_join c arc
    input.group_id (g.join s.now fresh c input).2)
  have hparks : (Group.Action.join s.now fresh c input).parked g =
      if (g.join s.now fresh c input).2.parks then [c] else [] := rfl
  have hpanicked := Group.join_ne_panicked g s.now fresh c input
  cases hreply : (g.join s.now fresh c input).2 with
  | answered outcome =>
    rw [hreply] at hparks
    exact h.acted_done hcall hg _ hparks (by simp)
  | panicked => exact absurd hreply hpanicked
  | parked schedule =>
    rw [hreply] at hparks
    exact (h.park hcall rfl hg _ hparks).spawn input.group_id c schedule

theorem Tracked.act_sync {input : SyncInput}
    (hcall : s.calls.get c = some ⟨.sync input, .ready arc⟩)
    (hg : s.states.get arc = some g) : Tracked (s.act c arc g (.sync input)) := by
  show Tracked ((s.put_state arc (g.apply (.sync s.now c input))).finish_sync c arc
    (g.sync s.now c input).2)
  have hparks : (Group.Action.sync s.now c input).parked g =
      if (g.sync s.now c input).2.parks then [c] else [] := rfl
  have hpanicked := Group.sync_ne_panicked g s.now c input
  cases hreply : (g.sync s.now c input).2 with
  | answered result =>
    rw [hreply] at hparks
    exact h.acted_done hcall hg _ hparks (by simp)
  | panicked => exact absurd hreply hpanicked
  | parked timeout =>
    rw [hreply] at hparks
    exact h.park hcall rfl hg _ hparks

theorem Tracked.act (hcall : s.calls.get c = some ⟨request, .ready arc⟩)
    (hg : s.states.get arc = some g) : Tracked (s.act c arc g request) := by
  cases request with
  | join input fresh => exact h.act_join hcall hg
  | sync input => exact h.act_sync hcall hg
  | heartbeat group_id fence =>
    show Tracked ((s.put_state arc (g.apply (.heartbeat s.now fence))).finish_query c
      (g.heartbeat s.now fence).2 .ended)
    rcases Group.heartbeat_end g s.now fence with ⟨error, heq⟩ | ⟨m, result, -, heq⟩
    · rw [heq]
      exact h.acted_done hcall hg _ rfl (by simp)
    · rw [heq]
      exact h.acted_done hcall hg _ rfl (by simp)
  | assignment group_id fence =>
    show Tracked ((s.put_state arc (g.apply (.assignment s.now fence))).finish_query c
      (g.assignment s.now fence).2 .assigned)
    obtain ⟨result, heq⟩ := Group.assignment_end g s.now fence
    rw [heq]
    exact h.acted_done hcall hg _ rfl (by simp)
  | leave group_id members => exact h.acted_done hcall hg (.leave s.now members) rfl (by simp)
  | describe group_id => exact h.acted_done hcall hg (.expire s.now) rfl (by simp)
  | list group_id => exact h.acted_done hcall hg (.expire s.now) rfl (by simp)
  | commit_offsets group_id fence commits =>
    show Tracked ((s.put_state arc (g.apply (.begin_commit s.now fence commits))).set_phase c _)
    split
    · exact h.acted_done hcall hg _ rfl (by simp)
    · exact h.acted_done hcall hg _ rfl (by simp)
    · exact h.acted_held hcall rfl hg _ rfl rfl rfl
  | delete_offsets group_id partitions =>
    show Tracked ((s.put_state arc (g.apply (.begin_delete_offsets s.now partitions))).set_phase c _)
    split
    · exact h.acted_done hcall hg _ rfl (by simp)
    · exact h.acted_held hcall rfl hg _ rfl rfl rfl
  | fetch_offsets group_id => exact h.acted_done hcall hg (.fetch_offsets s.now) rfl (by simp)
  | delete group_id =>
    show Tracked ((s.put_state arc (g.apply (.expire s.now))).set_phase c _)
    split_ifs
    · exact h.acted_held hcall rfl hg _ rfl rfl rfl
    · exact h.acted_done hcall hg _ rfl (by simp)

/-- Nothing was dropped, so a request that waits is pending or has its answer. -/
theorem Tracked.waits (hcall : s.calls.get c = some call)
    (hphase : call.phase = .parked arc) :
    ∃ g, s.states.get arc = some g ∧ (c ∈ g.pending ∨ ∃ answer, (c, answer) ∈ g.sent) := by
  obtain ⟨g, hg, hc⟩ := h.parked c call arc hcall hphase
  refine ⟨g, hg, ?_⟩
  rw [Group.tokens, (h.sound arc g hg).none_dropped, append_nil, mem_append] at hc
  refine hc.imp_right fun hin => ?_
  obtain ⟨⟨c', answer⟩, hsent, rfl⟩ := mem_map.1 hin
  exact ⟨answer, hsent⟩

theorem Tracked.resume (hcall : s.calls.get c = some ⟨request, .parked arc⟩) :
    Tracked (s.resume c arc) := by
  obtain ⟨g, hg, hwaits⟩ := h.waits hcall rfl
  unfold Coordinator.resume
  rw [hg]
  dsimp only
  cases hanswer : answer_of g c with
  | some answer =>
    refine h.done hcall ?_
    cases answer <;> simp [deliver]
  | none =>
    have hpending : g.pending.contains c = true := by
      rw [contains_iff_mem]
      refine hwaits.resolve_right ?_
      rintro ⟨answer, hsent⟩
      rw [answer_of, Option.map_eq_none_iff, find?_eq_none] at hanswer
      exact hanswer _ hsent (decide_eq_true rfl)
    dsimp only
    rw [if_pos hpending]
    exact h

theorem Tracked.arrive (hnew : s.calls.get c = none) (request : Request) :
    Tracked { s with calls := s.calls.insert c { request } } := by
  have hold : ∀ c' call', (s.calls.insert c { request }).get c' = some call' →
      call' = { request } ∨ s.calls.get c' = some call' := by
    intro c' call' hcall'
    rcases get_insert_cases hcall' with ⟨-, rfl⟩ | ⟨-, hcall'⟩
    · exact .inl rfl
    · exact .inr hcall'
  refine { h with acted := ?_, parked := ?_, held := ?_, no_call_panics := ?_ }
  · intro arc g c' hg hc'
    obtain ⟨call', hcall', hacted⟩ := h.acted arc g c' hg hc'
    refine ⟨call', ?_, hacted⟩
    show (s.calls.insert c { request }).get c' = some call'
    rw [get_insert, if_neg, hcall']
    rintro rfl
    cases hnew.symm.trans hcall'
  · intro c' call' arc hcall' hphase
    rcases hold c' call' hcall' with rfl | hcall'
    · cases hphase
    · exact h.parked c' call' arc hcall' hphase
  · intro c' call' arc hcall' hphase
    rcases hold c' call' hcall' with rfl | hcall'
    · cases hphase
    · exact h.held c' call' arc hcall' hphase
  · intro c' call' hcall'
    rcases hold c' call' hcall' with rfl | hcall'
    · intro hcontra
      cases hcontra
    · exact h.no_call_panics c' call' hcall'

theorem Tracked.step (a : Step) : Tracked (s.step a) := by
  have hend := step_end s a
  generalize hs' : s.step a = s' at hend ⊢
  cases hend with
  | idle => exact h
  | ticked elapsed => exact h.frame rfl rfl rfl rfl rfl
  | arrived c request hnew => exact h.arrive hnew request
  | not_opened c epoch available request error hcall => exact h.refuse hcall request error
  | listed c epoch available request arc hcall harc =>
    exact h.set_phase_held hcall rfl rfl (h.mapped _ arc harc) rfl
  | not_listed c epoch available request hcall => exact h.done hcall (by simp)
  | opened c epoch available request log hcall =>
    exact h.set_phase_free hcall (fun hacted => by cases hacted) rfl (by simp)
  | created c epoch available request hcall =>
    have hlogs : Tracked { s with logs := s.logs.insert request.group_id ⟨epoch, []⟩ } :=
      h.frame rfl rfl rfl rfl rfl
    exact hlogs.set_phase_free hcall (fun hacted => by cases hacted) rfl (by simp)
  | found c request epoch arc hcall harc =>
    exact h.set_phase_held hcall rfl rfl (h.mapped _ arc harc) rfl
  | no_room c request epoch hcall =>
    rw [← calls_evict_idle_groups] at hcall
    exact h.evict_idle_groups.refuse hcall request _
  | placed c request epoch hcall =>
    rw [← calls_evict_idle_groups] at hcall
    exact (h.evict_idle_groups.new_state request.group_id).set_phase_held hcall rfl rfl
      (mem_keys_insert.2 (.inl rfl)) rfl
  | current c request arc epoch g hcall hg =>
    exact h.set_phase_held hcall rfl rfl (mem_keys_of_get hg) rfl
  | outdated c request arc epoch g hcall hg =>
    exact h.set_phase_held hcall rfl rfl (mem_keys_of_get hg) rfl
  | reloaded c request arc epoch log g hcall hlog hg => exact h.acted_held hcall rfl hg _ rfl rfl rfl
  | not_reloaded c readable request arc epoch hcall => exact h.refuse hcall request _
  | acted c request arc g hcall hg =>
    rw [← act_eq]
    exact h.act hcall hg
  | appended c stored request arc record logs hcall =>
    have hlogs : Tracked { s with logs } := h.frame rfl rfl rfl rfl rfl
    exact hlogs.set_phase_held hcall rfl rfl (h.held c _ arc hcall rfl) rfl
  | not_appended c succeeded stored request arc record logs error hcall =>
    have hlogs : Tracked { s with logs } := h.frame rfl rfl rfl rfl rfl
    exact hlogs.done hcall (by simp)
  | recorded c deleted snapshot trimmed request arc record g hcall hg =>
    exact h.acted_done hcall hg _ rfl (by simp)
  | snapshotted c deleted snapshot trimmed request arc record g g' logs hcall hg hg' =>
    have hlogs : Tracked { s with logs } := h.frame rfl rfl rfl rfl rfl
    have hsound := ((h.sound arc g hg).apply (.record_applied record)).apply
      (.snapshot deleted (snapshot && trimmed))
    exact (hlogs.replace_state hg (hg' ▸ hsound) fun t => by rw [hg']; rfl).done hcall (by simp)
  | destroyed c request arc hcall =>
    have hlogs : Tracked { s with logs := s.logs.remove request.group_id } :=
      h.frame rfl rfl rfl rfl rfl
    exact hlogs.set_phase_held hcall rfl rfl (h.held c _ arc hcall rfl) rfl
  | unlisted c request arc hcall =>
    have hgroups : Tracked { s with groups := s.groups.remove request.group_id } :=
      h.shrink_groups fun id arc' hid => (of_get_remove hid).2
    exact hgroups.done hcall (by simp)
  | answered c request arc answer hcall =>
    refine h.done hcall ?_
    cases answer <;> simp [deliver]
  | panicked c request arc hcall =>
    -- a request that waits is held or has its answer
    rw [← hs', Coordinator.step, hcall]
    exact h.resume hcall
  | timed_out c input arc hcall => exact h.done hcall (by simp)
  | hung_up c request arc hcall => exact h.set_phase_free hcall (fun _ => rfl) rfl (by simp)
  | watch_started w watcher arc hw hnone harc =>
    refine h.change_watchers fun w' watcher' arc' hw' harc' => ?_
    rcases get_insert_cases hw' with ⟨-, rfl⟩ | ⟨-, hold⟩
    · cases harc'
      exact h.mapped _ arc harc
    · exact h.watched w' watcher' arc' hold harc'
  | watch_ended w watcher hw hnone harc =>
    exact h.change_watchers fun w' watcher' arc' hw' => h.watched w' watcher' arc'
      (of_get_remove hw').2
  | watched w watcher arc g watchers hw harc hg hwatchers =>
    have hput := h.put_state hg (.watch s.now watcher.schedule.id watcher.schedule.deadline) rfl
    refine hput.change_watchers fun w' watcher' arc' hw' => hput.watched w' watcher' arc' ?_
    rcases hwatchers with rfl | rfl
    · exact hw'
    · exact (of_get_remove hw').2
  | freed arc hmapped hheld => exact h.free hmapped hheld
  | moved group_id log logs => exact h.frame rfl rfl rfl rfl rfl

end Steps

/-- Under any interleaving of requests, watchers, evictions, deletions and reloads, parked requests
are nested, answered at most once and never dropped; no `unreachable` or `expect` fires. -/
theorem parked_requests_answered (max_groups : ℕ) (as : List Step) :
    Run.Always step { max_groups } as Answers := by
  intro i
  have h : Tracked (Run.after step { max_groups } as i) :=
    Run.after_invariant (Tracked.init max_groups) (fun s a h => h.step a) i
  exact
    { nested := fun arc g hg => (h.sound arc g hg).toNested
      at_most_once := fun arc g hg => List.nodup_iff_count_le_one.2 (h.once arc g hg)
      one_state := h.one_state
      none_dropped := fun arc g hg => (h.sound arc g hg).none_dropped
      waits := fun c call arc hcall hphase => h.waits hcall hphase
      no_panic := fun arc g hg => (h.sound arc g hg).no_panic
      no_call_panics := h.no_call_panics }

end Coordinator

end PicoMq.Groups
