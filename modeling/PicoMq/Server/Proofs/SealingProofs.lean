import PicoMq.Library.Proofs.BatchLogProofs
import PicoMq.Library.Proofs.OrdMapProofs
import PicoMq.Library.Proofs.RunProofs
import PicoMq.Server.Sealing

/-!
# Proofs: sealing

The lock keeps the node that closes the topic from submitting afterwards what it found open before.
-/

namespace PicoMq.Server.Topic

open OrdMap

variable {s : Topic} {r : Request} {id : ℕ}

/-! ## The invariant -/

structure Invariant (s : Topic) : Prop where
  confirm : s.log.IsBoundary s.confirm_offset
  handle : ∀ node, s.owner = some node → s.handles.get node = some s.confirm_offset
  /-- Nothing is in flight on a closed topic. -/
  quiet : s.closed = true → s.log.next_offset = s.confirm_offset
  told : ∀ node ∈ s.told, s.closed = true
  /-- On the node that closed it, no request is left that found the topic open. -/
  closer : ∀ node, s.closer = some node → node ∈ s.told ∧
    ∀ id r, s.requests.get id = some r → r.node = node → r.submitted ≠ none
  /-- A close has the lock of its node alone. -/
  exclusive : ∀ id r id' r', s.requests.get id = some r → s.requests.get id' = some r' →
    r.node = r'.node → r.excludes = true → (r'.excludes = true ∨ r'.shares = true) → id = id'
  acknowledged : ∀ last ∈ s.acknowledged, last ≤ s.confirm_offset
  reported : ∀ n ∈ s.reported, s.closed = true ∧ n = s.confirm_offset

theorem Request.holds (h : r.submitted = none) :
    r.excludes = true ∨ r.shares = true := by
  obtain ⟨node, write, submitted⟩ := r
  simp only at h
  subst h
  cases write <;> simp [PicoMq.Server.Request.excludes, PicoMq.Server.Request.shares]

theorem Invariant.final (h : Invariant s) : Final s := by
  intro n hn
  obtain ⟨-, rfl⟩ := h.reported n hn
  exact ⟨le_refl _, h.acknowledged⟩

/-! ## Requests -/

theorem lock_apply {node : ℕ} {write : Write} (h : s.lock node write = true)
    (hr : s.requests.get id = some r) (hnode : r.node = node) :
    r.excludes = false ∧ (write = .close → r.shares = false) := by
  have hall := List.all_eq_true.1 h r (mem_values.2 ⟨id, hr⟩)
  simp only [hnode, ne_eq, not_true_eq_false, decide_false, Bool.false_or, Bool.and_eq_true,
    Bool.not_eq_eq_eq_not, Bool.not_true, Bool.or_eq_true, decide_eq_true_eq] at hall
  exact ⟨hall.1, fun hw => hall.2.resolve_left fun hne => hne hw⟩

section

variable (h : Invariant s) {last : ℕ}
include h

theorem Invariant.start (id node : ℕ) (write : Write) : Invariant (s.start id node write) := by
  unfold Topic.start
  split_ifs with hcond
  · obtain ⟨hfresh, hlock, htold⟩ := hcond
    refine ⟨h.confirm, h.handle, h.quiet, h.told,
      fun n hn => ⟨(h.closer n hn).1, fun id' r hr hnode => ?_⟩,
      fun id₁ r₁ id₂ r₂ h₁ h₂ hnode hex hhold => ?_, h.acknowledged, h.reported⟩
    · rcases get_insert_cases hr with ⟨-, rfl⟩ | ⟨-, hold⟩
      · simp only at hnode
        exact absurd (hnode ▸ (h.closer n hn).1) htold
      · exact (h.closer n hn).2 id' r hold hnode
    · rcases get_insert_cases h₁ with ⟨hid₁, hr₁⟩ | ⟨-, hold₁⟩ <;>
        rcases get_insert_cases h₂ with ⟨hid₂, hr₂⟩ | ⟨-, hold₂⟩
      · rw [hid₁, hid₂]
      · subst hr₁
        obtain ⟨hno, hclose⟩ := lock_apply hlock hold₂ hnode.symm
        have hw : write = .close := by
          simpa [Request.excludes, PicoMq.Server.Request.excludes] using hex
        rw [hno, hclose hw] at hhold
        simp at hhold
      · subst hr₂
        obtain ⟨hno, -⟩ := lock_apply hlock hold₁ hnode
        rw [hno] at hex
        cases hex
      · exact h.exclusive _ _ _ _ hold₁ hold₂ hnode hex hhold
  · exact h

theorem Invariant.put_submitted {id node : ℕ} {write : Write}
    (hr : s.requests.get id = some ⟨node, write, none⟩) {id₁ id₂ : ℕ} {r₁ r₂ : Request}
    (h₁ : (s.requests.insert id ⟨node, write, some last⟩).get id₁ = some r₁)
    (h₂ : (s.requests.insert id ⟨node, write, some last⟩).get id₂ = some r₂)
    (hnode : r₁.node = r₂.node) (hex : r₁.excludes = true)
    (hhold : r₂.excludes = true ∨ r₂.shares = true) : id₁ = id₂ := by
  have hback : ∀ {id' r}, (s.requests.insert id ⟨node, write, some last⟩).get id' = some r →
      ∃ r', s.requests.get id' = some r' ∧ r'.node = r.node ∧ r'.excludes = r.excludes ∧
        (r.shares = true → r'.shares = true) := by
    intro id' r hget
    rcases get_insert_cases hget with ⟨rfl, rfl⟩ | ⟨-, hold⟩
    · refine ⟨⟨node, write, none⟩, hr, rfl, rfl, fun hs => ?_⟩
      cases write <;> simp_all [Request.shares]
    · exact ⟨r, hold, rfl, rfl, fun hs => hs⟩
  obtain ⟨r₁', hget₁, hn₁, he₁, -⟩ := hback h₁
  obtain ⟨r₂', hget₂, hn₂, he₂, hs₂⟩ := hback h₂
  exact h.exclusive _ _ _ _ hget₁ hget₂ (by rw [hn₁, hn₂, hnode]) (by rw [he₁, hex])
    (hhold.imp (fun he => by rw [he₂, he]) hs₂)

theorem Invariant.open_of_settled
    (hr : s.requests.get id = some r) (hnone : r.submitted = none)
    (hs : s.closed = true → s.closer = some r.node) : s.closed = false := by
  by_contra hclosed
  have hcloser := hs (by simpa using hclosed)
  exact (h.closer _ hcloser).2 id r hr rfl hnone

theorem Invariant.submit {id n : ℕ} (hs : s.Settled (.submit id n)) :
    Invariant (s.submit id n) := by
  unfold Topic.submit
  split
  · rename_i node write hr
    by_cases hcond : s.owner = some node ∧ (0 < n ∨ write = .close)
    · rw [if_pos hcond]
      have hopen := h.open_of_settled hr rfl (hs _ hr)
      have hconfirm : (s.log.append n id).IsBoundary s.confirm_offset := by
        by_cases hn : 0 < n
        · exact h.confirm.append hn
        · simp only [BatchLog.append, hn, dif_neg, not_false_eq_true]
          exact h.confirm
      refine ⟨hconfirm, h.handle, fun hc => ?_, h.told, fun n' hn' => ⟨(h.closer n' hn').1, ?_⟩,
        fun id₁ r₁ id₂ r₂ h₁ h₂ => h.put_submitted hr h₁ h₂, h.acknowledged, h.reported⟩
      · rw [hopen] at hc
        cases hc
      · have hclosed := h.told n' (h.closer n' hn').1
        rw [hopen] at hclosed
        cases hclosed
    · rw [if_neg hcond]
      exact h
  · exact h

theorem Invariant.remove {requests : OrdMap ℕ Request}
    (hsub : ∀ id r, requests.get id = some r → s.requests.get id = some r) :
    Invariant { s with requests := requests } :=
  ⟨h.confirm, h.handle, h.quiet, h.told,
    fun n hn => ⟨(h.closer n hn).1, fun id r hr => (h.closer n hn).2 id r (hsub id r hr)⟩,
    fun id r id' r' hr hr' => h.exclusive id r id' r' (hsub id r hr) (hsub id' r' hr'),
    h.acknowledged, h.reported⟩

/-- A close with nothing in flight writes the row: on its node every other request has submitted. -/
theorem Invariant.seal_topic {id node last : ℕ}
    (hr : s.requests.get id = some ⟨node, .close, some last⟩)
    (hquiet : s.closed = false → s.log.next_offset = s.confirm_offset) :
    Invariant { s.seal_topic node with requests := s.requests.remove id } := by
  have hall : s.log.next_offset = s.confirm_offset := by
    cases hc : s.closed with
    | true => exact h.quiet hc
    | false => exact hquiet hc
  refine ⟨h.confirm, h.handle, fun _ => hall, fun _ _ => rfl, fun n hn => ?_,
    fun id₁ r₁ id₂ r₂ h₁ h₂ =>
      h.exclusive _ _ _ _ (of_get_remove h₁).2 (of_get_remove h₂).2,
    h.acknowledged, fun n hn => ⟨rfl, (h.reported n hn).2⟩⟩
  simp only [Topic.seal_topic] at hn
  split_ifs at hn with hc
  · exact ⟨List.mem_cons_of_mem _ (h.closer n hn).1,
      fun id' r hr' => (h.closer n hn).2 id' r (of_get_remove hr').2⟩
  · cases hn
    refine ⟨List.mem_cons_self, fun id' r hr' hnode hnone => ?_⟩
    obtain ⟨hne, hget⟩ := of_get_remove hr'
    exact hne (h.exclusive _ _ _ _ hr hget hnode.symm rfl (Request.holds hnone)).symm

theorem Invariant.acknowledge (hle : last ≤ s.confirm_offset) :
    Invariant { s with acknowledged := last :: s.acknowledged } := by
  refine ⟨h.confirm, h.handle, h.quiet, h.told, h.closer, h.exclusive, fun last' hmem => ?_, h.reported⟩
  rcases List.mem_cons.1 hmem with rfl | hmem
  · exact hle
  · exact h.acknowledged last' hmem

theorem Invariant.finish (hs : s.Settled (.finish id)) : Invariant (s.finish id) := by
  unfold Topic.finish
  split
  · rename_i node write last hr
    split_ifs with hle hclose
    · subst hclose
      exact (h.seal_topic hr (hs _ hr rfl)).acknowledge hle
    · exact (h.remove fun _ _ hget => (of_get_remove hget).2).acknowledge hle
    · exact h
  · exact h

theorem Invariant.retry (hs : s.Settled (.retry last)) : Invariant (s.retry last) := by
  unfold Topic.retry
  split_ifs with hmem
  · exact h.acknowledge hs
  · exact h

/-! ## The stream and its readers -/

theorem Invariant.durable : Invariant s.durable := by
  unfold Topic.durable
  split
  · exact h
  · rename_i batch rest hsince
    obtain ⟨hin, hge, hlt⟩ := BatchLog.of_since_eq_cons hsince
    have hopen : s.closed ≠ true := fun hc => by
      have := h.quiet hc
      have := BatchLog.base_lt_next hin
      omega
    refine ⟨BatchLog.isBoundary_last hin, fun node howner => ?_, fun hc => absurd hc hopen, h.told,
      h.closer, h.exclusive, fun last hl => ?_, fun n hn => absurd (h.reported n hn).1 hopen⟩
    · simp only at howner
      simp only [howner, get_insert_self]
    · have := h.acknowledged last hl
      show last ≤ batch.last_offset
      omega

theorem Invariant.open_stream (node : ℕ) : Invariant (s.open_stream node) := by
  have hsub : ∀ id r, (s.open_stream node).requests.get id = some r →
      s.requests.get id = some r := by
    intro id r hr
    simp only [Topic.open_stream, get_retain] at hr
    split_ifs at hr
    exact hr
  have hrest := h.remove hsub
  refine ⟨h.confirm.truncate h.confirm (le_refl _), fun node' howner => ?_,
    fun hc => BatchLog.next_offset_truncate h.confirm, h.told, hrest.closer, hrest.exclusive,
    h.acknowledged, h.reported⟩
  cases howner
  exact get_insert_self _ _ _

theorem Invariant.release (node : ℕ) : Invariant (s.release node) := by
  refine ⟨h.confirm, fun node' howner => ?_, h.quiet, h.told, h.closer, h.exclusive,
    h.acknowledged, h.reported⟩
  simp only [Topic.release] at howner
  split_ifs at howner with hnode
  have hne : node' ≠ node := fun he => hnode (he ▸ howner)
  simp only [Topic.release, get_remove, if_neg hne]
  exact h.handle node' howner

theorem Invariant.read {node : ℕ} (hs : s.Settled (.read node)) : Invariant (s.read node) := by
  unfold Topic.read
  rw [h.handle node hs]
  simp only
  split_ifs with htold
  · refine ⟨h.confirm, h.handle, h.quiet, h.told, h.closer, h.exclusive, h.acknowledged,
      fun n hn => ?_⟩
    rcases List.mem_cons.1 hn with rfl | hn
    · exact ⟨h.told node htold, rfl⟩
    · exact h.reported n hn
  · exact h

theorem Invariant.learn (node : ℕ) : Invariant (s.step (.learn node)) := by
  show Invariant (if s.closed then { s with told := node :: s.told } else s)
  split_ifs with hc
  · exact ⟨h.confirm, h.handle, h.quiet, fun _ _ => hc,
      fun n hn => ⟨List.mem_cons_of_mem _ (h.closer n hn).1, (h.closer n hn).2⟩, h.exclusive,
      h.acknowledged, h.reported⟩
  · exact h

theorem Invariant.step {a : Step} (hs : s.Settled a) : Invariant (s.step a) := by
  cases a with
  | start id node write => exact h.start id node write
  | submit id n => exact h.submit hs
  | durable => exact h.durable
  | finish id => exact h.finish hs
  | drop id => exact h.remove fun _ _ hget => (of_get_remove hget).2
  | retry last => exact h.retry hs
  | openOn node => exact h.open_stream node
  | release node => exact h.release node
  | learn node => exact h.learn node
  | read node => exact h.read hs

end

theorem Invariant.initial : Invariant {} where
  confirm := BatchLog.isBoundary_zero
  handle := fun node howner => by cases howner
  quiet := fun hc => by cases hc
  told := fun node hn => by cases hn
  closer := fun node hn => by cases hn
  exclusive := fun _ _ _ _ hr => by cases hr
  acknowledged := fun _ hl => by cases hl
  reported := fun _ hn => by cases hn

/-- If the row is written while nothing is in flight, other nodes submit nothing afterwards,
duplicates are of durable appends and readers are on the owner, sealing is final. -/
theorem sealing_is_final {steps : List Step} (h : Run.EachStep step {} steps Settled) :
    Run.Always step {} steps Final := by
  have hinv : Run.Always step {} steps Invariant :=
    Run.always_of_eachStep Invariant.initial (fun _ _ hs ha => hs.step ha) h
  exact fun i => (hinv i).final

/-- A Kafka batch that is answered before the topic is closed, and a late one that is refused. -/
def closed_in_order : List Step :=
  [.openOn 1, .start 0 1 .produce, .submit 0 2, .durable, .finish 0, .start 1 1 .close, .submit 1 1,
    .durable, .finish 1, .read 1, .start 2 1 .append, .submit 2 1, .retry 2, .release 1, .openOn 2,
    .learn 2, .read 2]

theorem sealing_is_final_when_closed_in_order :
    Run.EachStep step {} closed_in_order Settled ∧ Run.Always step {} closed_in_order Final :=
  ⟨by decide +kernel, sealing_is_final (by decide +kernel)⟩

/-- A Kafka batch that is submitted before the topic is closed and durable after it. -/
def closed_over_flight : List Step :=
  [.openOn 1, .start 0 1 .produce, .submit 0 1, .start 1 1 .close, .submit 1 0, .finish 1, .read 1,
    .durable, .finish 0]

/-- A reader has been told that it read all of the closed topic before the record at offset 0
becomes durable. -/
theorem record_after_end_of_closed_topic :
    (Run.after step {} closed_over_flight 7).reported = [0] ∧
      (Run.after step {} closed_over_flight 9).confirm_offset = 1 ∧
      (Run.after step {} closed_over_flight 9).acknowledged = [1, 0] ∧
      ¬ Final (Run.after step {} closed_over_flight 9) := by
  decide +kernel

end PicoMq.Server.Topic
