import PicoMq.Library.Proofs.OrdMapProofs
import PicoMq.Library.Proofs.RunProofs
import PicoMq.Server.Waiters

/-!
# Proofs: waiting at the tail

A parked call is in the queue of its log until it is sent to.
-/

namespace PicoMq.Server

open List OrdMap StreamWaiterRegistry

namespace StreamWaiterRegistry

variable (r : StreamWaiterRegistry) (name name' : String) {w : Waiter} {next : ℕ}

theorem queue_set_queue (queue : List Waiter) :
    (r.set_queue name queue).queue name' = if name' = name then queue else r.queue name' := by
  unfold set_queue StreamWaiterRegistry.queue
  dsimp only
  by_cases hempty : queue = []
  · rw [if_pos hempty, get_remove]
    split_ifs
    · rw [hempty, Option.getD_none]
    · rfl
  · rw [if_neg hempty, get_insert]
    split_ifs
    · rw [Option.getD_some]
    · rfl

theorem mem_queue : w ∈ r.queue name ↔ ∃ queue, r.waiters.get name = some queue ∧ w ∈ queue := by
  rw [queue]
  cases r.waiters.get name <;> simp

theorem mem_queue_register {offset : ℕ} :
    w ∈ (r.register name offset).1.queue name' ↔
      w ∈ r.queue name' ∨ name' = name ∧ w = ⟨r.next_token + 1, offset⟩ := by
  unfold register
  rw [queue, get_insert]
  split_ifs with hname
  · rw [hname, Option.getD_some, mem_append, mem_singleton]
    simp
  · simp [hname, queue]

theorem mem_queue_deregister {token : ℕ} :
    w ∈ (r.deregister name token).queue name' ↔
      w ∈ r.queue name' ∧ (name' = name → w.token ≠ token) := by
  unfold deregister
  cases hget : r.waiters.get name with
  | none =>
    have hnil : r.queue name = [] := by rw [queue, hget, Option.getD_none]
    refine ⟨fun hw => ⟨hw, fun hname => ?_⟩, fun hw => hw.1⟩
    rw [hname, hnil] at hw
    cases hw
  | some queue =>
    have hqueue : r.queue name = queue := by rw [StreamWaiterRegistry.queue, hget, Option.getD_some]
    dsimp only
    rw [queue_set_queue]
    split_ifs with hname
    · rw [hname, hqueue, mem_filter]
      simp
    · simp [hname]

theorem mem_queue_notify_append (hw : w ∈ r.queue name') :
    w ∈ (r.notify_append name next).1.queue name' ∨ w.token ∈ (r.notify_append name next).2 := by
  unfold notify_append
  cases hget : r.waiters.get name with
  | none => exact .inl hw
  | some queue =>
    dsimp only
    rw [queue_set_queue]
    split_ifs with hname
    · have hqueue : r.queue name' = queue := by
        rw [hname, StreamWaiterRegistry.queue, hget, Option.getD_some]
      rw [hqueue] at hw
      by_cases hlt : w.wait_offset < next
      · exact .inr (mem_map_of_mem (mem_filter.2 ⟨hw, decide_eq_true hlt⟩))
      · exact .inl (mem_filter.2 ⟨hw, decide_eq_true hlt⟩)
    · exact .inl hw

theorem token_mem_notify_append (hw : w ∈ r.queue name)
    (hlt : w.wait_offset < next) : w.token ∈ (r.notify_append name next).2 := by
  obtain ⟨queue, hget, hw⟩ := (r.mem_queue name).1 hw
  rw [notify_append, hget]
  exact mem_map_of_mem (mem_filter.2 ⟨hw, decide_eq_true hlt⟩)

theorem mem_queue_notify_closed (hw : w ∈ r.queue name') :
    w ∈ (r.notify_closed name).1.queue name' ∨ w.token ∈ (r.notify_closed name).2 := by
  by_cases hname : name' = name
  · rw [hname] at hw
    exact .inr (mem_map_of_mem hw)
  · left
    unfold notify_closed
    rwa [queue, get_remove, if_neg hname]

theorem token_mem_drain (hw : w ∈ r.queue name) : w.token ∈ r.drain.2 := by
  obtain ⟨queue, hget, hw⟩ := (r.mem_queue name).1 hw
  have hvalues : queue ∈ r.waiters.values := mem_values.2 ⟨name, hget⟩
  exact mem_map_of_mem (mem_flatten.2 ⟨queue, hvalues, hw⟩)

theorem next_token_deregister (token : ℕ) :
    (r.deregister name token).next_token = r.next_token := by
  unfold deregister
  cases r.waiters.get name <;> rfl

theorem stopped_deregister (token : ℕ) : (r.deregister name token).stopped = r.stopped := by
  unfold deregister
  cases r.waiters.get name <;> rfl

theorem next_token_notify_append (next : ℕ) :
    (r.notify_append name next).1.next_token = r.next_token := by
  unfold notify_append
  cases r.waiters.get name <;> rfl

theorem stopped_notify_append (next : ℕ) : (r.notify_append name next).1.stopped = r.stopped := by
  unfold notify_append
  cases r.waiters.get name <;> rfl

end StreamWaiterRegistry

namespace WaitingNode

variable {s s' : WaitingNode} {c : ℕ} {call : WaitCall}
variable (hc : s.calls.get c = some call)

/-! ## The invariant -/

/-- The call has returned woken or its next action returns. -/
def Ready (s : WaitingNode) (call : WaitCall) : Prop :=
  match call.phase with
  | .begun => call.offset < s.confirmed call.name
  | .checked => False
  | .parked token => token ∈ s.sent
  | .lapsed _ => False
  | .returned outcome => outcome = .woken ∨ s.registry.stopped = true ∧ outcome = .stopping

structure Sound (s : WaitingNode) : Prop where
  fresh : ∀ c call t, s.calls.get c = some call → call.phase.token = some t →
    t ≤ s.registry.next_token
  distinct : ∀ c c' call call' t, s.calls.get c = some call → s.calls.get c' = some call' →
    call.phase.token = some t → call'.phase.token = some t → c = c'
  /-- A parked call is sent to, or in the queue of its log. -/
  queued : ∀ c call t, s.calls.get c = some call → call.phase = .parked t →
    t ∈ s.sent ∨ ⟨t, call.offset⟩ ∈ s.registry.queue call.name
  ready : ∀ c call, s.calls.get c = some call → call.due = true → s.Ready call

theorem Ready.mono (h : s.Ready call) (hsent : ∀ t ∈ s.sent, t ∈ s'.sent)
    (hconfirmed : s.confirmed call.name ≤ s'.confirmed call.name)
    (hstopped : s.registry.stopped = true → s'.registry.stopped = true) : s'.Ready call := by
  unfold Ready at h ⊢
  split
  · next hphase => rw [hphase] at h; exact lt_of_lt_of_le h hconfirmed
  · next hphase => rw [hphase] at h; exact h
  · next hphase => rw [hphase] at h; exact hsent _ h
  · next hphase => rw [hphase] at h; exact h
  · next hphase => rw [hphase] at h; exact h.imp_right fun h => ⟨hstopped h.1, h.2⟩

theorem ready_of_waiting (hwaiting : call.phase.waiting = true)
    (hbegun : call.phase = .begun → call.offset < s.confirmed call.name)
    (hchecked : call.phase ≠ .checked) (hparked : ∀ t, call.phase = .parked t → t ∈ s.sent) :
    s.Ready call := by
  unfold Ready
  split
  · next hphase => exact hbegun hphase
  · next hphase => exact hchecked hphase
  · next t hphase => exact hparked t hphase
  · next hphase =>
    rw [hphase] at hwaiting
    cases hwaiting
  · next hphase =>
    rw [hphase] at hwaiting
    cases hwaiting

/-- No call has a token that it did not have before. -/
theorem Sound.of_tokens (h : s.Sound)
    (htokens : ∀ c call t, s'.calls.get c = some call → call.phase.token = some t →
      ∃ call₀, s.calls.get c = some call₀ ∧ call₀.phase.token = some t)
    (htoken : s'.registry.next_token = s.registry.next_token)
    (hqueued : ∀ c call t, s'.calls.get c = some call → call.phase = .parked t →
      t ∈ s'.sent ∨ ⟨t, call.offset⟩ ∈ s'.registry.queue call.name)
    (hready : ∀ c call, s'.calls.get c = some call → call.due = true → s'.Ready call) :
    s'.Sound where
  fresh := by
    intro c call t hc ht
    obtain ⟨call₀, hc₀, ht₀⟩ := htokens c call t hc ht
    exact htoken ▸ h.fresh c call₀ t hc₀ ht₀
  distinct := by
    intro c c' call call' t hc hc' ht ht'
    obtain ⟨call₀, hc₀, ht₀⟩ := htokens c call t hc ht
    obtain ⟨call₁, hc₁, ht₁⟩ := htokens c' call' t hc' ht'
    exact h.distinct c c' call₀ call₁ t hc₀ hc₁ ht₀ ht₁
  queued := hqueued
  ready := hready

theorem Sound.frame (h : s.Sound) (hcalls : s'.calls = s.calls)
    (htoken : s'.registry.next_token = s.registry.next_token)
    (hsent : ∀ t ∈ s.sent, t ∈ s'.sent)
    (hqueue : ∀ name w, w ∈ s.registry.queue name → w.token ∈ s'.sent ∨ w ∈ s'.registry.queue name)
    (hconfirmed : ∀ name, s.confirmed name ≤ s'.confirmed name)
    (hstopped : s.registry.stopped = true → s'.registry.stopped = true) : s'.Sound := by
  refine h.of_tokens ?_ htoken ?_ ?_
  · rw [hcalls]
    exact fun c call t hc ht => ⟨call, hc, ht⟩
  · intro c call t hc hphase
    rw [hcalls] at hc
    rcases h.queued c call t hc hphase with ht | hw
    · exact .inl (hsent t ht)
    · exact hqueue _ _ hw
  · intro c call hc hdue
    rw [hcalls] at hc
    exact (h.ready c call hc hdue).mono hsent (hconfirmed _) hstopped

theorem Sound.map_calls (h : s.Sound) {f : WaitCall → WaitCall}
    (hf : ∀ call, ∃ due, f call = { call with due })
    (hready : ∀ c call, s.calls.get c = some call → (f call).due = true → s.Ready call) :
    ({ s with calls := s.calls.map f } : WaitingNode).Sound := by
  have hcall : ∀ {c : ℕ} {call : WaitCall}, (s.calls.map f).get c = some call →
      ∃ call', s.calls.get c = some call' ∧ call = f call' ∧ ∃ due, call = { call' with due } := by
    intro c call hc
    rw [get_map] at hc
    obtain ⟨call', hc', rfl⟩ := Option.map_eq_some_iff.1 hc
    exact ⟨call', hc', rfl, hf call'⟩
  refine h.of_tokens (fun c call t hc ht => ?_) rfl ?_ ?_
  · obtain ⟨call', hc', -, due, rfl⟩ := hcall hc
    exact ⟨call', hc', ht⟩
  · intro c call t hc
    obtain ⟨call', hc', -, due, rfl⟩ := hcall hc
    exact h.queued c call' t hc'
  · intro c call hc hdue
    obtain ⟨call', hc', rfl, due, heq⟩ := hcall hc
    rw [heq]
    exact hready c call' hc' hdue

include hc in
theorem Sound.set_phase (h : s.Sound) {phase : WaitPhase}
    (hparked : ∀ t, phase ≠ .parked t)
    (htoken : ∀ t, phase.token = some t → call.phase.token = some t)
    (hready : call.due = true → s.Ready { call with phase }) : (s.set_phase c call phase).Sound := by
  have hcalls : ∀ {c' : ℕ} {call' : WaitCall}, (s.set_phase c call phase).calls.get c' = some call' →
      (c' = c ∧ call' = { call with phase }) ∨ c' ≠ c ∧ s.calls.get c' = some call' :=
    fun hc' => get_insert_cases hc'
  refine h.of_tokens (fun c' call' t hc' ht => ?_) rfl ?_ ?_
  · rcases hcalls hc' with ⟨rfl, rfl⟩ | ⟨-, hold⟩
    · exact ⟨call, hc, htoken t ht⟩
    · exact ⟨call', hold, ht⟩
  · intro c' call' t hc' hphase
    rcases hcalls hc' with ⟨rfl, rfl⟩ | ⟨-, hold⟩
    · exact absurd hphase (hparked t)
    · exact h.queued c' call' t hold hphase
  · intro c' call' hc' hdue
    rcases hcalls hc' with ⟨rfl, rfl⟩ | ⟨-, hold⟩
    · exact hready hdue
    · exact h.ready c' call' hold hdue

include hc in
theorem Sound.not_due (h : s.Sound) (hready : ¬ s.Ready call) :
    call.due ≠ true :=
  fun hdue => hready (h.ready c call hc hdue)

theorem Ready.outcome (s : WaitingNode) (call : WaitCall) :
    s.Ready { call with phase := s.outcome .woken } := by
  show (if s.registry.stopped then _ else _) = _ ∨ _
  by_cases hstopped : s.registry.stopped = true
  · exact .inr ⟨hstopped, if_pos hstopped⟩
  · exact .inl (if_neg hstopped)

section

variable (h : s.Sound)
include h

include hc in
/-- A new waiter is queued with a token no call has, by a call that nothing concerned yet. -/
theorem Sound.register (hphase : call.phase = .checked) :
    ({ s.set_phase c call (.parked (s.registry.register call.name call.offset).2) with
      registry := (s.registry.register call.name call.offset).1 } : WaitingNode).Sound := by
  have hdue : call.due ≠ true := h.not_due hc fun hready => by rwa [Ready, hphase] at hready
  have hnew : ∀ {c' : ℕ} {call' : WaitCall}, s.calls.get c' = some call' →
      call'.phase.token ≠ some (s.registry.next_token + 1) := by
    intro c' call' hc' ht
    exact absurd (h.fresh c' call' _ hc' ht) (Nat.not_succ_le_self _)
  constructor
  · intro c' call' t hc' ht
    show t ≤ s.registry.next_token + 1
    rcases get_insert_cases hc' with ⟨rfl, rfl⟩ | ⟨-, hold⟩
    · cases ht
      exact le_refl _
    · exact (h.fresh c' call' t hold ht).trans (Nat.le_succ _)
  · intro c₁ c₂ call₁ call₂ t hc₁ hc₂ ht₁ ht₂
    rcases get_insert_cases hc₁ with ⟨rfl, rfl⟩ | ⟨-, hold₁⟩ <;>
      rcases get_insert_cases hc₂ with ⟨rfl, rfl⟩ | ⟨-, hold₂⟩
    · rfl
    · cases ht₁
      exact absurd ht₂ (hnew hold₂)
    · cases ht₂
      exact absurd ht₁ (hnew hold₁)
    · exact h.distinct c₁ c₂ call₁ call₂ t hold₁ hold₂ ht₁ ht₂
  · intro c' call' t hc' hparked
    show _ ∨ _ ∈ (s.registry.register call.name call.offset).1.queue call'.name
    rw [mem_queue_register]
    rcases get_insert_cases hc' with ⟨rfl, rfl⟩ | ⟨-, hold⟩
    · cases hparked
      exact .inr (.inr ⟨rfl, rfl⟩)
    · exact (h.queued c' call' t hold hparked).imp_right .inl
  · intro c' call' hc' hdue'
    rcases get_insert_cases hc' with ⟨rfl, rfl⟩ | ⟨-, hold⟩
    · exact absurd hdue' hdue
    · exact (h.ready c' call' hold hdue').mono (fun _ ht => ht) (le_refl _) id

theorem Sound.deregister {t : ℕ}
    (hnone : ∀ c call, s.calls.get c = some call → call.phase.token ≠ some t) (name : String) :
    ({ s with registry := s.registry.deregister name t } : WaitingNode).Sound := by
  refine h.of_tokens (fun c call _ hc ht => ⟨call, hc, ht⟩) (next_token_deregister ..) ?_ ?_
  · intro c call t' hc hparked
    refine (h.queued c call t' hc hparked).imp_right fun hw => ?_
    show _ ∈ (s.registry.deregister name t).queue call.name
    rw [mem_queue_deregister]
    refine ⟨hw, fun _ heq => hnone c call hc ?_⟩
    rw [hparked, ← heq]
    rfl
  · intro c call hc hdue
    refine (h.ready c call hc hdue).mono (fun _ ht => ht) (le_refl _) fun hstopped => ?_
    exact (stopped_deregister ..).trans hstopped

/-! ## One step -/

include hc in
theorem Sound.advance : (s.advance c call).Sound := by
  unfold WaitingNode.advance
  split
  · next hphase =>
    refine h.set_phase hc (fun t ht => ?_) (fun t ht => ?_) fun hdue => ?_
    · split_ifs at ht
    · split_ifs at ht <;> cases ht
    · have hlt : call.offset < s.confirmed call.name := by
        have hready := h.ready c call hc hdue
        rwa [Ready, hphase] at hready
      rw [if_pos hlt]
      exact .inl rfl
  · next hphase =>
    split_ifs with hstopped
    · exact h.set_phase hc nofun nofun fun _ => .inr ⟨hstopped, rfl⟩
    · exact h.register hc hphase
  · next t hphase =>
    split_ifs
    · exact h.set_phase hc nofun nofun fun _ => Ready.outcome s call
    · exact h
  · next t hphase =>
    have hdue : call.due ≠ true := h.not_due hc fun hready => by rwa [Ready, hphase] at hready
    have hreturned : (s.set_phase c call (s.outcome .timed_out)).Sound :=
      h.set_phase hc nofun nofun fun hd => absurd hd hdue
    refine hreturned.deregister (fun c' call' hc' ht => ?_) call.name
    rcases get_insert_cases hc' with ⟨rfl, rfl⟩ | ⟨hne, hold⟩
    · cases ht
    · exact hne (h.distinct c' c call' call t hold hc ht (by rw [hphase]; rfl))
  · exact h

include hc in
theorem Sound.lapse : (s.lapse c call).Sound := by
  unfold WaitingNode.lapse
  split
  · next t hphase =>
    by_cases hsent : t ∈ s.sent
    · rw [if_pos hsent]
      exact h.set_phase hc nofun nofun fun _ => Ready.outcome s call
    · rw [if_neg hsent]
      refine h.set_phase hc nofun (fun t' ht' => ?_) fun hdue => ?_
      · rw [hphase]
        exact ht'
      · have hready := h.ready c call hc hdue
        rw [Ready, hphase] at hready
        exact absurd hready hsent
  · exact h

theorem Sound.send {notified : StreamWaiterRegistry × List ℕ}
    (htoken : notified.1.next_token = s.registry.next_token)
    (hstopped : notified.1.stopped = s.registry.stopped)
    (hqueue : ∀ name w, w ∈ s.registry.queue name →
      w ∈ notified.1.queue name ∨ w.token ∈ notified.2) : (s.send notified).Sound := by
  refine h.frame rfl htoken (fun t ht => mem_append_left _ ht) (fun name w hw => ?_)
    (fun _ => le_refl _) fun hs => hstopped.trans hs
  rcases hqueue name w hw with hkept | hsent
  · exact .inr hkept
  · exact .inl (mem_append_right _ hsent)

/-- A notification of an append reaches every call that it concerns and that waits. -/
theorem Sound.notify_append {name : String} {next : ℕ}
    (hunhurried : s.Unhurried (.notify_append name next)) (hdurable : next ≤ s.confirmed name) :
    ({ s.send (s.registry.notify_append name next) with
      calls := s.calls.map (WaitCall.note_append name next) } : WaitingNode).Sound := by
  have hsend : (s.send (s.registry.notify_append name next)).Sound :=
    h.send (next_token_notify_append ..)
      (stopped_notify_append ..)
      fun name' w hw => mem_queue_notify_append _ _ _ hw
  refine hsend.map_calls (fun call => ⟨_, rfl⟩) fun c call hc hdue => ?_
  rcases Bool.or_eq_true_iff.1 hdue with hdue | hnow
  · exact hsend.ready c call hc hdue
  obtain ⟨hwaiting, hconcerned⟩ := Bool.and_eq_true_iff.1 hnow
  have hlooked := hunhurried call (mem_values.2 ⟨c, hc⟩) hconcerned
  obtain ⟨hname, hlt⟩ := of_decide_eq_true hconcerned
  have hbegun : call.offset < s.confirmed call.name := by
    rw [hname]
    exact lt_of_lt_of_le hlt hdurable
  refine ready_of_waiting hwaiting (fun _ => hbegun) hlooked fun t hphase => ?_
  rcases h.queued c call t hc hphase with ht | hw
  · exact mem_append_left _ ht
  · rw [hname] at hw
    exact mem_append_right _ (token_mem_notify_append _ _ hw hlt)

theorem Sound.notify_closed {name : String} (hunhurried : s.Unhurried (.notify_closed name)) :
    ({ s.send (s.registry.notify_closed name) with
      calls := s.calls.map (WaitCall.note_closed name) } : WaitingNode).Sound := by
  have hsend : (s.send (s.registry.notify_closed name)).Sound :=
    h.send rfl rfl fun name' w hw => mem_queue_notify_closed _ _ _ hw
  refine hsend.map_calls (fun call => ⟨_, rfl⟩) fun c call hc hdue => ?_
  rcases Bool.or_eq_true_iff.1 hdue with hdue | hnow
  · exact hsend.ready c call hc hdue
  obtain ⟨hwaiting, hname⟩ := Bool.and_eq_true_iff.1 hnow
  have hname := of_decide_eq_true hname
  obtain ⟨hbegun, hchecked⟩ := hunhurried call (mem_values.2 ⟨c, hc⟩) hname
  refine ready_of_waiting hwaiting (fun hphase => absurd hphase hbegun) hchecked fun t hphase => ?_
  rcases h.queued c call t hc hphase with ht | hw
  · exact mem_append_left _ ht
  · rw [hname] at hw
    exact mem_append_right _ (mem_map_of_mem hw)

theorem Sound.start_call (c : ℕ) (name : String) (offset : ℕ) :
    ({ s with calls := s.calls.insert c { name, offset } } : WaitingNode).Sound := by
  refine h.of_tokens (fun c' call' t hc' ht => ?_) rfl ?_ ?_
  · rcases get_insert_cases hc' with ⟨-, rfl⟩ | ⟨-, hold⟩
    · cases ht
    · exact ⟨call', hold, ht⟩
  · intro c' call' t hc' hparked
    rcases get_insert_cases hc' with ⟨-, rfl⟩ | ⟨-, hold⟩
    · cases hparked
    · exact h.queued c' call' t hold hparked
  · intro c' call' hc' hdue
    rcases get_insert_cases hc' with ⟨-, rfl⟩ | ⟨-, hold⟩
    · cases hdue
    · exact h.ready c' call' hold hdue

end

theorem le_confirmed_insert (s : WaitingNode) (name : String) (offset : ℕ) (name' : String) :
    s.confirmed name' ≤ ({ s with
      confirm_offset := s.confirm_offset.insert name (max (s.confirmed name) offset) } :
        WaitingNode).confirmed name' := by
  unfold confirmed
  dsimp only
  rw [get_insert]
  split_ifs with hname
  · rw [hname]
    exact le_max_left _ _
  · exact le_refl _

theorem Sound.step (h : s.Sound) {a : Step} (ha : s.Unhurried a) : (s.step a).Sound := by
  cases a with
  | call c name offset =>
    rw [WaitingNode.step]
    split
    · exact h.start_call c name offset
    · exact h
  | advance c =>
    rw [WaitingNode.step]
    split
    · exact h
    · next call hc => exact h.advance hc
  | lapse c =>
    rw [WaitingNode.step]
    split
    · exact h
    · next call hc => exact h.lapse hc
  | confirm name offset =>
    exact h.frame rfl rfl (fun _ ht => ht) (fun _ _ hw => .inr hw)
      (le_confirmed_insert s name offset) id
  | notify_append name next =>
    rw [WaitingNode.step]
    split_ifs with hdurable
    · exact h.notify_append ha hdurable
    · exact h
  | notify_closed name => exact h.notify_closed ha
  | set_stopped =>
    exact h.frame rfl rfl (fun _ ht => ht) (fun _ _ hw => .inr hw) (fun _ => le_refl _)
      fun _ => rfl
  | drain =>
    rw [WaitingNode.step]
    split_ifs
    · exact h.send rfl rfl fun name w hw => .inr (token_mem_drain _ _ hw)
    · exact h

theorem sound_start : ({} : WaitingNode).Sound :=
  ⟨nofun, nofun, nofun, nofun⟩

/-! ## Woken calls return -/

include hc in
theorem Ready.woken (h : s.Ready call) {outcome : WaitOutcome}
    (hphase : call.phase = .returned outcome) : s.Woken c := by
  rw [Ready, hphase] at h
  refine ⟨call, hc, ?_⟩
  rw [hphase]
  exact h.imp (congrArg _) fun h => ⟨h.1, congrArg _ h.2⟩

theorem woken_set_phase (s : WaitingNode) (c : ℕ) (call : WaitCall) {outcome : WaitOutcome}
    (h : outcome = .woken ∨ s.registry.stopped = true ∧ outcome = .stopping) :
    (s.set_phase c call (.returned outcome)).Woken c :=
  ⟨_, get_insert_self .., h.imp (congrArg _) fun h => ⟨h.1, congrArg _ h.2⟩⟩

include hc in
theorem Ready.advance (h : s.Ready call) :
    (s.step (.advance c)).Woken c := by
  rw [WaitingNode.step, hc]
  dsimp only
  unfold WaitingNode.advance
  split
  · next hphase =>
    rw [Ready, hphase] at h
    rw [if_pos h]
    exact woken_set_phase s c call (.inl rfl)
  · next hphase =>
    rw [Ready, hphase] at h
    exact h.elim
  · next t hphase =>
    rw [Ready, hphase] at h
    rw [if_pos h]
    exact woken_set_phase s c call (Ready.outcome s call)
  · next hphase =>
    rw [Ready, hphase] at h
    exact h.elim
  · next hphase => exact h.woken hc hphase

include hc in
theorem Sound.ready_lapse (h : s.Sound) (hdue : call.due = true) :
    ∃ call', (s.step (.lapse c)).calls.get c = some call' ∧ (s.step (.lapse c)).Ready call' := by
  have hsound : (s.step (.lapse c)).Sound := h.step trivial
  suffices hcall : ∃ call', (s.step (.lapse c)).calls.get c = some call' ∧ call'.due = true by
    obtain ⟨call', hc', hdue'⟩ := hcall
    exact ⟨call', hc', hsound.ready c call' hc' hdue'⟩
  rw [WaitingNode.step, hc]
  dsimp only
  unfold WaitingNode.lapse
  split
  · exact ⟨_, get_insert_self .., hdue⟩
  · exact ⟨call, hc, hdue⟩

theorem Sound.noLostWakeup (h : s.Sound) : s.NoLostWakeup := by
  intro c call hc hdue
  refine ⟨(h.ready c call hc hdue).advance hc, ?_⟩
  obtain ⟨call', hc', hready⟩ := h.ready_lapse hc hdue
  exact hready.advance hc'

/-- While no notification falls between a call's look at the log and its registration, no wakeup is
lost. -/
theorem no_lost_wakeup (steps : List Step) (h : Run.EachStep WaitingNode.step {} steps Unhurried) :
    Run.Always WaitingNode.step {} steps NoLostWakeup := by
  have hsound := Run.always_of_eachStep sound_start
    (fun (s : WaitingNode) a (hs : s.Sound) (ha : s.Unhurried a) => hs.step ha) h
  exact fun n => (hsound n).noLostWakeup

/-- Two readers are woken by an append and a close, one of them although its timeout lapses first.
-/
theorem no_lost_wakeup_of_two :
    ∃ s : WaitingNode, s.NoLostWakeup ∧
      s.calls.values = [⟨"orders", 3, .parked 1, true⟩, ⟨"orders", 9, .parked 2, true⟩] := by
  let steps : List Step := [.call 0 "orders" 3, .call 1 "orders" 9, .confirm "orders" 3, .advance 0,
    .advance 0, .advance 1, .advance 1, .confirm "orders" 5, .notify_append "orders" 5,
    .notify_closed "orders"]
  exact ⟨Run.after WaitingNode.step {} steps 10, no_lost_wakeup steps (by decide +kernel) 10,
    by decide +kernel⟩

/-- An append notifies between the reader's look at the log and its registration: the reader sits
out its timeout. -/
theorem wakeup_lost_before_registration :
    (Run.run WaitingNode.step {} [.call 0 "orders" 0, .advance 0, .confirm "orders" 1,
      .notify_append "orders" 1, .advance 0, .lapse 0, .advance 0]).calls.get 0 =
        some ⟨"orders", 0, .returned .timed_out, true⟩ := by
  decide +kernel

end WaitingNode

end PicoMq.Server
