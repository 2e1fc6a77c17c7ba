import PicoMq.Server.Proofs.OwnershipProofs

/-!
# Proofs: what producers are answered

A replay at append time is harmless as long as it takes over nothing that the memory has already
seen.
-/

namespace PicoMq.Server.Partition

open BatchLog Option Producers

variable {s : Partition} {p : Producers} {now_ms : ℤ}

/-! ## What the memory answers -/

theorem Invariant.exact (h : Invariant s) : Exact s where
  http := fun p hp producer_id session hs => (h.memory p hp).http producer_id session hs
  kafka := fun p hp id hid kafka hk => by
    have hrem : p.remembered id = some (kafka.epoch, kafka.spans) := by
      rw [remembered, hk]
      rfl
    rcases (h.memory p hp).phase with hc | hb
    · rw [← hc.kafka id hid]
      exact hrem
    · rw [hb.none_known id hid] at hrem
      cases hrem

theorem decide_next {producer : Producer} {session : Session}
    (hs : p.sessions.get producer.producer_id = some session)
    (he : producer.epoch = session.epoch)
    (hseq : producer.seq = ((p.last_seq session.id).map (· + 1)).getD 0) :
    p.decide producer = .accepted producer.epoch producer.seq := by
  unfold Producers.decide Producers.session
  rw [hs]
  simp only
  rw [if_neg (by omega), if_neg (by omega)]
  cases hl : p.last_seq session.id with
  | none =>
    rw [hl] at hseq
    simp only [map_none, getD_none] at hseq
    simp only [hseq, if_true]
  | some last =>
    rw [hl] at hseq
    simp only [map_some, getD_some] at hseq
    simp only
    rw [if_neg (by omega), if_pos hseq]

theorem validate_next {kafka : Kafka} {last : Span} {first_seq last_seq : ℤ}
    (hlast : kafka.spans.getLast? = some last) (hfirst : first_seq = next_seq last.last_seq 1)
    (expected received : ℤ) :
    validate_numeric (some kafka) kafka.epoch first_seq last_seq ≠
      .outOfOrder expected received := by
  unfold validate_numeric
  simp only [lt_irrefl, if_false]
  cases kafka.spans.find? fun s => s.first_seq = first_seq ∧ s.last_seq = last_seq with
  | none => simp [hlast, hfirst]
  | some span => simp

theorem Invariant.admits (h : Invariant s) {action : Action} (ho : s.Orderly action) :
    s.Admits action := by
  cases action with
  | http producer n new_id now_ms =>
    cases producer with
    | none => trivial
    | some producer =>
      intro session hs he hn hseq
      have hm : Memory (s.hold (s.load_producers now_ms)) (s.load_producers now_ms) :=
        h.memory_loaded
      have hs' : (s.load_producers now_ms).sessions.get producer.producer_id = some session := by
        rw [hm.sessions]
        exact hs
      have hknown : (s.load_producers now_ms).last_seq session.id =
          (session_seqs s.stream.log.batches session.id).getLast? := hm.http _ _ hs'
      rw [← hknown] at hseq
      simp [reply, handle, Partition.http_append, decide_next hs' he hseq, Nat.pos_iff_ne_zero.1 hn,
        Partition.commit]
  | produce producer n now_ms =>
    cases producer with
    | none => trivial
    | some producer =>
      intro spans last hw hlast hfirst hn expected received
      obtain ⟨⟨hids, hexp⟩, hr⟩ := ho
      obtain ⟨-, hc⟩ := h.memory_caught_up hr now_ms
      have hrem := ((hc rfl).kafka producer.id (hids producer rfl)).trans hw
      obtain ⟨kafka, hk, hepoch, hspans⟩ := remembered_eq_some hrem
      simp only at hepoch hspans
      unfold NoneExpires at hexp
      simp only [reply, handle, Partition.submit_batch_append, Nat.pos_iff_ne_zero.1 hn, if_false,
        hexp, admit_numeric, hk]
      cases hv : validate_numeric (some kafka) producer.epoch producer.first_seq
          (next_seq producer.first_seq (n - 1)) with
      | accepted => simp
      | duplicate base_offset => simp
      | fenced current_epoch => simp
      | outOfOrder e r =>
        rw [← hepoch] at hv
        exact absurd hv (validate_next (hspans ▸ hlast) hfirst e r)
  | durable => trivial
  | checkpoint => trivial
  | forget => trivial
  | reopen => trivial

/-- In an orderly run the memory is what was accepted, and the next request of a session or producer
is let in. -/
theorem memory_exact {actions : List Action} (h : Run.EachStep step {} actions Orderly) :
    Run.Always step {} actions Exact ∧ Run.EachStep step {} actions Admits := by
  have hinv := invariant_after h
  exact ⟨fun i => (hinv i).exact, fun i action ha => (hinv i).admits (h i action ha)⟩

/-- A plain batch, a new owner, and then two producers with a checkpoint and a third owner. -/
def two_producers : List Action :=
  [.http none 1 0 0, .durable, .reopen, .produce (some ⟨100, 0, 0⟩) 2 0,
    .http (some ⟨"a", 0, 0⟩) 1 7 0, .durable, .durable, .http (some ⟨"a", 0, 1⟩) 1 8 0,
    .produce (some ⟨100, 0, 2⟩) 1 0, .durable, .durable, .checkpoint, .reopen,
    .http (some ⟨"a", 0, 2⟩) 1 8 0, .produce (some ⟨100, 0, 3⟩) 1 0]

theorem memory_exact_for_two_producers :
    Run.EachStep step {} two_producers Orderly ∧
      Run.Always step {} two_producers Exact ∧ Run.EachStep step {} two_producers Admits :=
  ⟨by decide +kernel, memory_exact (by decide +kernel)⟩

/-- A session starts on an owner that has not replayed an earlier batch: a Kafka batch makes up for
it. -/
def double_count : List Action :=
  [.http none 1 0 0, .durable, .reopen, .http (some ⟨"a", 0, 0⟩) 1 7 0, .durable,
    .produce (some ⟨100, 0, 0⟩) 1 0, .http (some ⟨"a", 0, 1⟩) 1 8 0]

theorem not_exact_of_last_seq {producer_id : String} {session : Session} {last : Option ℕ}
    (hs : (s.producers.bind fun p => p.session producer_id) = some session)
    (hl : (s.producers.map fun p => p.last_seq session.id) = some last)
    (hne : (session_seqs s.stream.log.batches session.id).getLast? ≠ last) : ¬ Exact s := by
  intro h
  obtain ⟨p, hp, hsession⟩ := bind_eq_some_iff.1 hs
  have hlast := h.http p hp producer_id session hsession
  rw [hp, map_some, some.injEq] at hl
  exact hne (hlast.symm.trans hl)

/-- The replay counts the session's append again, and its next one is taken for a duplicate. -/
theorem replay_counts_twice :
    Run.EachStep step {} double_count Allotted ∧
      Run.EachStep step {} double_count (fun s action =>
        action = .reopen → s.stream.confirm_offset = s.stream.log.next_offset) ∧
      ¬ Exact (Run.after step {} double_count 6) ∧
      ¬ Run.EachStep step {} double_count Admits := by
  refine ⟨by decide +kernel, by decide +kernel, ?_, fun h => ?_⟩
  · have hs : ((Run.after step {} double_count 6).producers.bind fun p => p.session "a") =
        some ⟨0, 7⟩ := by decide +kernel
    have hl : ((Run.after step {} double_count 6).producers.map fun p => p.last_seq 7) =
        some (some 1) := by decide +kernel
    exact not_exact_of_last_seq hs hl (by decide +kernel)
  · have hsubmitted := h 6 (.http (some ⟨"a", 0, 1⟩) 1 8 0) rfl ⟨0, 7⟩ (by decide +kernel)
      (by decide +kernel) (by decide +kernel) (by decide +kernel)
    revert hsubmitted
    decide +kernel

/-! ## What clients are told -/

theorem Truthful.of_below {s' : Partition} (h : Truthful s) (htold : s'.told = s.told)
    (hbelow : ∀ b ∈ s.stream.log.below s.stream.confirm_offset,
      b ∈ s'.stream.log.below s'.stream.confirm_offset) : Truthful s' := by
  intro success hmem
  rw [htold] at hmem
  have hbacked := h success hmem
  cases success with
  | applied batch => exact hbelow batch hbacked
  | duplicate request =>
    obtain ⟨b, hb, hc⟩ := hbacked
    exact ⟨b, hbelow b hb, hc⟩

theorem Truthful.tell (h : Truthful s) {success : Success} (hb : s.Backed success) :
    Truthful { s with told := s.told ++ [success] } := by
  intro success' hmem
  rcases List.mem_append.1 hmem with hmem | hmem
  · exact h success' hmem
  · rw [List.mem_singleton.1 hmem]
    exact hb

theorem Truthful.append (h : Truthful s) (hc : s.stream.log.IsBoundary s.stream.confirm_offset)
    {n : ℕ} (hn : 0 < n) (o : Origin) : Truthful (s.submit_append n o) := by
  refine h.of_below rfl fun b hb => ?_
  show b ∈ (s.stream.log.append n o).below s.stream.confirm_offset
  rw [below_append hn hc.1]
  exact hb

theorem mem_below_of_not_since {b : Batch Origin} (hb : b ∈ s.stream.log.batches)
    (h : b ∉ s.stream.log.since s.stream.confirm_offset) :
    b ∈ s.stream.log.below s.stream.confirm_offset := by
  rw [← below_append_since s.stream.log s.stream.confirm_offset] at hb
  exact (List.mem_append.1 hb).resolve_right h

theorem Invariant.duplicate_http (h : Invariant s) (hm : Memory s p) {producer : Producer}
    {last : ℕ} (hd : p.decide producer = .duplicate last) :
    ∃ b ∈ s.stream.log.batches, ∃ id, b.payload = .http producer id := by
  have hnew : new_epoch producer ≠ .duplicate last := by
    unfold new_epoch
    split_ifs <;> simp
  unfold Producers.decide Producers.session at hd
  cases hs : p.sessions.get producer.producer_id with
  | none =>
    rw [hs] at hd
    exact absurd hd hnew
  | some session =>
    rw [hs] at hd
    simp only at hd
    by_cases hlt : producer.epoch < session.epoch
    · rw [if_pos hlt] at hd
      cases hd
    rw [if_neg hlt] at hd
    by_cases hgt : producer.epoch > session.epoch
    · rw [if_pos hgt] at hd
      exact absurd hd hnew
    rw [if_neg hgt] at hd
    cases hl : p.last_seq session.id with
    | none =>
      rw [hl] at hd
      simp only at hd
      split_ifs at hd
    | some last' =>
      rw [hl] at hd
      simp only at hd
      by_cases hle : producer.seq ≤ last'
      · -- the sequences of the session count up to the last one
        rw [hm.http _ _ hs, h.consecutive.getLast?] at hl
        have hmem : producer.seq ∈ session_seqs s.stream.log.batches session.id := by
          rw [h.consecutive session.id, List.mem_range]
          split_ifs at hl with hz
          simp only [some.injEq] at hl
          omega
        obtain ⟨b, hb, q, hpay, hseq⟩ := mem_session_seqs.1 hmem
        obtain ⟨hpid, hepoch⟩ := h.owner b hb q session.id hpay _ _ (hm.sessions ▸ hs) rfl
        have hq : q = producer := by
          obtain ⟨qid, qe, qs⟩ := q
          obtain ⟨pid, pe, ps⟩ := producer
          simp only [Producer.mk.injEq] at *
          exact ⟨hpid, by omega, hseq⟩
        exact ⟨b, hb, session.id, hq ▸ hpay⟩
      · rw [if_neg hle] at hd
        split_ifs at hd

theorem Complete.duplicate_kafka (hc : Complete s p) {producer : NumericProducer}
    (hid : producer.id ∉ s.session_ids) {last_seq : ℤ} {base : ℕ}
    (hv : validate_numeric (p.known producer.id) producer.epoch producer.first_seq last_seq =
      .duplicate base) :
    ∃ b ∈ s.stream.log.batches, b.payload = .kafka producer ∧
      next_seq producer.first_seq (b.record_count - 1) = last_seq := by
  unfold validate_numeric at hv
  cases hk : p.known producer.id with
  | none =>
    rw [hk] at hv
    simp only at hv
    split_ifs at hv
  | some kafka =>
    rw [hk] at hv
    simp only at hv
    by_cases hlt : producer.epoch < kafka.epoch
    · rw [if_pos hlt] at hv
      cases hv
    rw [if_neg hlt] at hv
    by_cases hgt : producer.epoch > kafka.epoch
    · rw [if_pos hgt] at hv
      split_ifs at hv
    rw [if_neg hgt] at hv
    cases hf : kafka.spans.find? fun s =>
        s.first_seq = producer.first_seq ∧ s.last_seq = last_seq with
    | none =>
      rw [hf] at hv
      simp only at hv
      split_ifs at hv
    | some span =>
      have hrem : p.remembered producer.id = some (kafka.epoch, kafka.spans) := by
        rw [remembered, hk]
        rfl
      have hw := hc.kafka producer.id hid
      rw [hrem] at hw
      have hspan := mem_of_window hw.symm (List.mem_of_find?_eq_some hf)
      obtain ⟨b, hb, q, hpay, hqid, heq⟩ := mem_kafka_spans.1 hspan
      obtain ⟨hepoch, hspan⟩ := Prod.mk.inj heq
      have hfound := List.find?_some hf
      simp only [decide_eq_true_eq] at hfound
      rw [hspan] at hfound
      have hq : q = producer := by
        obtain ⟨qid, qe, qf⟩ := q
        obtain ⟨pid, pe, pf⟩ := producer
        simp only [NumericProducer.mk.injEq] at *
        exact ⟨hqid, by omega, hfound.1⟩
      subst hq
      exact ⟨b, hb, hpay, hfound.2⟩

section

variable (ht : Truthful s)
include ht

theorem Truthful.http_append (h : Invariant s) {producer : Option Producer}
    {n : ℕ} {new_id : ℤ}
    (hfirst : ∀ b ∈ s.stream.log.since s.stream.confirm_offset,
      ¬ Carries b (.http producer n new_id now_ms)) :
    Truthful (s.http_append producer n new_id now_ms).1 := by
  have hm : Memory (s.hold (s.load_producers now_ms)) (s.load_producers now_ms) := h.memory_loaded
  have h0 := h.hold hm
  have hold : ∀ q, Truthful (s.hold q) := fun q => ht.of_below rfl fun b hb => hb
  unfold Partition.http_append
  set p := s.load_producers now_ms with hpdef
  cases producer with
  | none =>
    simp only
    split_ifs with hn
    · exact hold p
    · exact (hold _).append h.confirm (Nat.pos_of_ne_zero hn) _
  | some producer =>
    simp only
    cases hd : p.decide producer with
    | accepted epoch seq =>
      simp only
      split_ifs with hn
      · exact hold p
      · have hsame : Truthful (s.submit_append n (.http producer
            (session_for p producer new_id).1.id)) :=
          ht.append h.confirm (Nat.pos_of_ne_zero hn) _
        refine hsame.of_below ?_ fun b hb => ?_
        · simp only [Partition.commit, put_session]
          split_ifs <;> rfl
        · simp only [Partition.commit, put_session]
          split_ifs <;> exact hb
    | duplicate last =>
      refine (hold p).tell ?_
      obtain ⟨b, hb, id, hpay⟩ := h0.duplicate_http hm hd
      exact ⟨b, mem_below_of_not_since hb fun hin => hfirst b hin ⟨id, hpay⟩, id, hpay⟩
    | staleEpoch current_epoch => exact hold p
    | invalidEpochSeq => exact hold p
    | sequenceGap expected received => exact hold p

theorem Truthful.submit_batch_append (h : Invariant s)
    {producer : Option NumericProducer} {n : ℕ} (ho : s.Orderly (.produce producer n now_ms))
    (hfirst : ∀ b ∈ s.stream.log.since s.stream.confirm_offset,
      ¬ Carries b (.produce producer n now_ms)) :
    Truthful (s.submit_batch_append producer n now_ms).1 := by
  obtain ⟨⟨hids, hexp⟩, hr⟩ := ho
  obtain ⟨hm, hc⟩ := h.memory_caught_up hr now_ms
  unfold NoneExpires at hexp
  unfold Partition.submit_batch_append
  split_ifs with hn
  · exact ht
  simp only [hexp]
  set c := s.caught_up producer now_ms with hcdef
  cases producer with
  | none =>
    simp only [admit_numeric]
    exact (ht.append h.confirm (Nat.pos_of_ne_zero hn) .plain).of_below rfl fun b hb => hb
  | some producer =>
    cases hv : validate_numeric (c.known producer.id) producer.epoch producer.first_seq
        (next_seq producer.first_seq (n - 1)) with
    | accepted =>
      simp only [admit_numeric, hv]
      exact (ht.append h.confirm (Nat.pos_of_ne_zero hn) (.kafka producer)).of_below rfl
        fun b hb => hb
    | duplicate base =>
      simp only [admit_numeric, hv]
      obtain ⟨b, hb, hpay, hlast⟩ := (hc rfl).duplicate_kafka (hids producer rfl) hv
      have hbacked : s.Backed (.duplicate (.produce (some producer) n now_ms)) :=
        ⟨b, mem_below_of_not_since hb fun hin => hfirst b hin ⟨hpay, hlast⟩, hpay, hlast⟩
      exact (ht.tell hbacked).of_below rfl fun b hb => hb
    | outOfOrder expected received =>
      simp only [admit_numeric, hv]
      exact ht.of_below rfl fun b hb => hb
    | fenced current_epoch =>
      simp only [admit_numeric, hv]
      exact ht.of_below rfl fun b hb => hb

theorem Truthful.complete : Truthful s.complete := by
  unfold Partition.complete
  split
  · exact ht
  · rename_i batch rest hsince
    obtain ⟨hin, hge, -⟩ := of_since_eq_cons hsince
    have hlt := base_lt_last s.stream.log.contiguous hin
    have hmore : Truthful { s with
        stream := { s.stream with confirm_offset := batch.last_offset } } := by
      refine ht.of_below rfl fun b hb => ?_
      obtain ⟨hb, hlt'⟩ := mem_below.1 hb
      exact mem_below.2 ⟨hb, by show b.base_offset < batch.last_offset; omega⟩
    exact hmore.tell (mem_below.2 ⟨hin, hlt⟩)

theorem Truthful.step (h : Invariant s) {action : Action}
    (hp : s.Patient action) : Truthful (s.step action) := by
  obtain ⟨ho, hfirst⟩ := hp
  cases action with
  | http producer n new_id now_ms => exact ht.http_append h hfirst
  | produce producer n now_ms => exact ht.submit_batch_append h ho hfirst
  | durable => exact ht.complete
  | checkpoint => exact ht.of_below rfl fun b hb => hb
  | forget => exact ht.of_below rfl fun b hb => hb
  | reopen =>
    refine ht.of_below rfl fun b hb => ?_
    show b ∈ (s.stream.log.truncate s.stream.confirm_offset).below s.stream.confirm_offset
    rw [below_below (le_refl _)]
    exact hb

end

/-- If no request is repeated while its batch is in flight, a success told to a client is durable
for ever. -/
theorem success_is_durable {actions : List Action} (h : Run.EachStep step {} actions Patient) :
    Run.Always step {} actions Truthful := by
  have hboth : Run.Always step {} actions fun s => Invariant s ∧ Truthful s :=
    Run.always_of_eachStep ⟨Invariant.initial, fun _ hmem => by cases hmem⟩
      (fun _ _ hs hp => ⟨hs.1.step hp.1, hs.2.step hs.1 hp⟩) h
  exact fun i => (hboth i).2

/-- A session and a Kafka producer repeat answered requests across a change of owner. -/
def patient_retries : List Action :=
  [.http (some ⟨"a", 0, 0⟩) 1 7 0, .durable, .http (some ⟨"a", 0, 0⟩) 1 8 0,
    .produce (some ⟨100, 0, 0⟩) 2 0, .durable, .produce (some ⟨100, 0, 0⟩) 2 0, .reopen,
    .http (some ⟨"a", 0, 0⟩) 1 8 0, .produce (some ⟨100, 0, 0⟩) 2 0]

theorem success_is_durable_for_patient_retries :
    Run.EachStep step {} patient_retries Patient ∧ Run.Always step {} patient_retries Truthful :=
  ⟨by decide +kernel, success_is_durable (by decide +kernel)⟩

/-- An append that is repeated while it is in flight, and then lost. -/
def hasty_retry : List Action :=
  [.http (some ⟨"a", 0, 0⟩) 1 7 0, .http (some ⟨"a", 0, 0⟩) 1 8 0, .reopen]

/-- The client is told that its records are there, and they never are. -/
theorem duplicate_of_lost_append :
    Run.EachStep step {} hasty_retry Orderly ∧
      ¬ Truthful (Run.after step {} hasty_retry 2) ∧
      Success.duplicate (.http (some ⟨"a", 0, 0⟩) 1 8 0) ∈ (Run.after step {} hasty_retry 3).told ∧
      (Run.after step {} hasty_retry 3).stream.log.batches = [] := by
  decide +kernel

end PicoMq.Server.Partition
