import PicoMq.Library.Proofs.RunProofs
import PicoMq.Server.Proofs.KnowledgeProofs

/-!
# Proofs: the memory of an owner

In an orderly run the last sequence of every session is that of its last append, and the windows are
complete when a produce request is admitted on them.
-/

namespace PicoMq.Server.Partition

open BatchLog List OrdMap Producers

/-! ## The invariant -/

/-- The windows are those of all batches. -/
structure Complete (s : Partition) (p : Producers) : Prop where
  loaded : s.loaded_end ≤ p.covered
  kafka : KnowsKafka p s.session_ids s.stream.log.batches

/-- Loaded without a replay that none has made up for: no Kafka producer is known, no session is
older than the load, and no Kafka client has appended since. -/
structure Behind (s : Partition) (p : Producers) : Prop where
  covered : p.covered < s.loaded_end
  kafka : KnowsKafka p s.session_ids (s.stream.log.below p.covered)
  none_known : ∀ id ∉ s.session_ids, p.remembered id = none
  later : ∀ b ∈ s.stream.log.batches, s.loaded_end ≤ b.base_offset →
    ∀ producer, b.payload ≠ .kafka producer
  unknown : ∀ b ∈ s.stream.log.batches, b.base_offset < s.loaded_end →
    ∀ producer, b.payload.producer = some producer →
      ∀ producer_id session, p.sessions.get producer_id = some session → session.id ≠ producer.id

structure Memory (s : Partition) (p : Producers) : Prop where
  sessions : p.sessions = s.sessions
  keyed : Keyed p s.session_ids s.kafka_ids
  http : KnowsHttp p s.stream.log.batches
  boundary : s.stream.log.IsBoundary p.covered
  loaded : s.loaded_end ≤ s.stream.confirm_offset
  phase : Complete s p ∨ Behind s p

/-- What a checkpoint is loaded as. -/
def of_checkpoint (s : Partition) (checkpoint : Checkpoint) : Producers :=
  { epoch := s.epoch, covered := checkpoint.covered, tracked := checkpoint.tracked
    sessions := s.sessions }

/-- A checkpoint holds what the durable batches below its end tell. -/
structure Row (s : Partition) (checkpoint : Checkpoint) : Prop where
  boundary : s.stream.log.IsBoundary checkpoint.covered
  durable : checkpoint.covered ≤ s.stream.confirm_offset
  keyed : Keyed (s.of_checkpoint checkpoint) s.session_ids s.kafka_ids
  http : KnowsHttp (s.of_checkpoint checkpoint) (s.stream.log.below checkpoint.covered)
  kafka : KnowsKafka (s.of_checkpoint checkpoint) s.session_ids
    (s.stream.log.below checkpoint.covered)

structure Invariant (s : Partition) : Prop where
  start : s.stream.start_offset = 0
  confirm : s.stream.log.IsBoundary s.stream.confirm_offset
  consecutive : Consecutive s.stream.log.batches
  named : ∀ b ∈ s.stream.log.batches, Named s.session_ids s.kafka_ids b
  disjoint : ∀ id ∈ s.kafka_ids, id ∉ s.session_ids
  owner : ∀ b ∈ s.stream.log.batches, ∀ producer id, b.payload = .http producer id →
    ∀ producer_id session, s.sessions.get producer_id = some session → session.id = id →
      producer.producer_id = producer_id ∧ producer.epoch = session.epoch
  known : ∀ producer_id session, s.sessions.get producer_id = some session →
    session.id ∈ s.session_ids
  distinct : DistinctSessions s.sessions
  forgetting : s.forgetting = []
  idle : s.producers = none → s.stream.confirm_offset = s.stream.log.next_offset
  row : ∀ checkpoint, s.checkpoint = some checkpoint → Row s checkpoint
  memory : ∀ p, s.producers = some p → Memory s p

variable {s : Partition} {p q : Producers} {now_ms : ℤ}

theorem Memory.of_same {s' : Partition} (hm : Memory s p) (hlog : s'.stream.log = s.stream.log)
    (hsessions : s'.sessions = s.sessions) (hids : s'.session_ids = s.session_ids)
    (hkafka : s.kafka_ids ⊆ s'.kafka_ids) (hend : s'.loaded_end = s.loaded_end)
    (hconfirm : s.stream.confirm_offset ≤ s'.stream.confirm_offset) : Memory s' p := by
  refine ⟨hm.sessions.trans hsessions.symm, ?_, ?_, ?_, ?_, hm.phase.imp (fun c => ?_) (fun b => ?_)⟩
  · rw [hids]
    exact hm.keyed.mono (fun _ h => h) hkafka
  · rw [hlog]
    exact hm.http
  · rw [hlog]
    exact hm.boundary
  · rw [hend]
    exact le_trans hm.loaded hconfirm
  · exact ⟨by rw [hend]; exact c.loaded, by rw [hids, hlog]; exact c.kafka⟩
  · exact ⟨by rw [hend]; exact b.covered, by rw [hids, hlog]; exact b.kafka,
      by rw [hids]; exact b.none_known, by rw [hlog, hend]; exact b.later,
      by rw [hlog, hend]; exact b.unknown⟩

theorem Row.of_same {s' : Partition} {checkpoint : Checkpoint} (row : Row s checkpoint)
    (hboundary : s'.stream.log.IsBoundary checkpoint.covered)
    (hbelow : s'.stream.log.below checkpoint.covered = s.stream.log.below checkpoint.covered)
    (hsessions : s'.sessions = s.sessions) (hids : s'.session_ids = s.session_ids)
    (hkafka : s.kafka_ids ⊆ s'.kafka_ids)
    (hconfirm : s.stream.confirm_offset ≤ s'.stream.confirm_offset) : Row s' checkpoint := by
  refine ⟨hboundary, le_trans row.durable hconfirm, ?_, ?_, ?_⟩
  · rw [hids]
    exact (row.keyed.mono (fun _ h => h) hkafka).congr rfl hsessions
  · rw [hbelow]
    exact row.http.congr rfl hsessions
  · rw [hbelow, hids]
    exact row.kafka.congr rfl

theorem hold_self (h : s.producers = some p) : s.hold p = s := by
  unfold hold
  rw [h]
  cases s
  simp_all

theorem loaded_end_hold (h : s.producers = none) :
    (s.hold p).loaded_end = s.stream.confirm_offset := by
  simp [hold, h]

theorem Invariant.hold (h : Invariant s) (hm : Memory (s.hold p) p) : Invariant (s.hold p) :=
  { h with
    idle := fun hnone => by cases hnone
    row := fun checkpoint hc => (h.row checkpoint hc).of_same (h.row checkpoint hc).boundary rfl rfl
      rfl (fun _ h => h) (le_refl _)
    memory := fun q hq => by
      cases hq
      exact hm }

/-! ## Loading and replaying -/

theorem knowsKafka_of_empty {session_ids : List ℤ} (h : p.tracked = .empty) :
    KnowsKafka p session_ids [] := by
  intro id _
  simp [Producers.remembered, Producers.known, h, get_empty, kafka_spans, window]

theorem knowsHttp_of_empty (h : p.tracked = .empty) : KnowsHttp p [] := by
  intro producer_id session _
  simp [Producers.last_seq, h, get_empty, session_seqs]

theorem keyed_of_empty {session_ids kafka_ids : List ℤ} (h : p.tracked = .empty)
    (hs : ∀ producer_id session, p.sessions.get producer_id = some session →
      session.id ∈ session_ids) : Keyed p session_ids kafka_ids := by
  refine ⟨fun id http hget => ?_, fun id tracked hget => ?_, hs⟩
  · rw [h, get_empty] at hget
    cases hget
  · rw [h, get_empty] at hget
    cases hget

section

variable (h : Invariant s)
include h

theorem Invariant.start_le (c : ℕ) : s.stream.start_offset ≤ c := by
  rw [h.start]
  exact Nat.zero_le c

/-- What is loaded is what the log below its end tells. -/
theorem Invariant.load_tells :
    let p := Producers.load s.epoch s.stream s.checkpoint s.sessions
    p.sessions = s.sessions ∧ s.stream.log.IsBoundary p.covered ∧
      p.covered ≤ s.stream.confirm_offset ∧ Keyed p s.session_ids s.kafka_ids ∧
      KnowsHttp p (s.stream.log.below p.covered) ∧
      KnowsKafka p s.session_ids (s.stream.log.below p.covered) := by
  intro p
  cases hc : s.checkpoint with
  | none =>
    have hp : p = { epoch := s.epoch, covered := 0, sessions := s.sessions } := by
      simp [p, Producers.load, hc, h.start]
    have hbelow : s.stream.log.below 0 = [] := by simp [below]
    rw [hp, hbelow]
    exact ⟨rfl, isBoundary_zero, Nat.zero_le _, keyed_of_empty rfl h.known,
      knowsHttp_of_empty rfl, knowsKafka_of_empty rfl⟩
  | some checkpoint =>
    have hrow := h.row checkpoint hc
    have hp : p = s.of_checkpoint checkpoint := by
      simp [p, Producers.load, hc, hrow.durable, of_checkpoint, h.start]
    rw [hp]
    exact ⟨rfl, hrow.boundary, hrow.durable, hrow.keyed, hrow.http, hrow.kafka⟩

/-- The producer state in memory, loaded if it was not there, is what the log tells. -/
theorem Invariant.memory_loaded :
    Memory (s.hold (s.load_producers now_ms)) (s.load_producers now_ms) := by
  cases hmem : s.producers with
  | some p =>
    have hp : s.load_producers now_ms = p := by simp [load_producers, hmem]
    rw [hp, hold_self hmem]
    exact h.memory p hmem
  | none =>
    obtain ⟨hsess, hbound, hle, hkeyed, hhttp, hkafka⟩ := h.load_tells
    have hnext := h.idle hmem
    have hall : s.stream.log.below s.stream.confirm_offset = s.stream.log.batches :=
      below_of_next_le (by omega)
    have hend : ∀ p, (s.hold p).loaded_end = s.stream.confirm_offset := fun p => loaded_end_hold hmem
    set p := Producers.load s.epoch s.stream s.checkpoint s.sessions with hpdef
    by_cases hneed : p.replay_needed none s.stream.confirm_offset = true
    · have hp : s.load_producers now_ms = p.replay s.stream now_ms := by
        simp [load_producers, hmem, ← hpdef, hneed]
      rw [hp]
      refine ⟨replay_sessions.trans hsess, hkeyed.replay h.named, ?_, h.confirm,
        (hend _).le, .inl ⟨(hend _).le, ?_⟩⟩
      · show KnowsHttp _ s.stream.log.batches
        rw [← hall]
        exact hhttp.replay hkeyed h.named h.disjoint h.consecutive (h.start_le _) hbound hle
      · show KnowsKafka _ s.session_ids s.stream.log.batches
        rw [← hall]
        exact hkafka.replay hkeyed h.named (h.start_le _) hbound hle
    · have hp : s.load_producers now_ms = p := by
        simp [load_producers, hmem, ← hpdef, hneed]
      rw [hp]
      by_cases hcov : p.covered = s.stream.confirm_offset
      · rw [hcov, hall] at hhttp hkafka
        exact ⟨hsess, hkeyed, hhttp, hbound, (hend p).le,
          .inl ⟨((hend p).trans hcov.symm).le, hkafka⟩⟩
      · -- nothing is known, so nothing was replayed
        have hlt : p.covered < s.stream.confirm_offset := lt_of_le_of_ne hle hcov
        have hnone : p.tracked.entries = [] ∧ p.sessions.entries = [] := by
          simpa [replay_needed, hlt] using hneed
        have hempty : ∀ producer_id, p.sessions.get producer_id = none := fun producer_id => by
          simp [OrdMap.get, hnone.2, OrdMap.lookupEntry]
        refine ⟨hsess, hkeyed, fun producer_id session hget => ?_, hbound, (hend p).le,
          .inr ⟨by rw [hend]; exact hlt, hkafka, fun id _ => ?_, fun b hb hge => ?_,
            fun b hb _ producer _ producer_id session hget => ?_⟩⟩
        · rw [hempty] at hget
          cases hget
        · simp [Producers.remembered, Producers.known, OrdMap.get, hnone.1, OrdMap.lookupEntry]
        · rw [hend] at hge
          have hlt' := base_lt_next hb
          have : s.stream.log.next_offset = (s.hold p).stream.log.next_offset := rfl
          omega
        · rw [hempty] at hget
          cases hget

theorem Memory.get_replay (hm : Memory s p)
    (hold : ∀ b ∈ s.stream.log.batches, p.covered ≤ b.base_offset →
      b.base_offset < s.stream.confirm_offset → b.payload.producer.isSome →
        b.base_offset < s.loaded_end) {producer_id : String} {session : Session}
    (hs : p.sessions.get producer_id = some session) :
    (p.replay s.stream now_ms).tracked.get session.id = p.tracked.get session.id := by
  rw [replay_eq (h.start_le _)]
  refine get_foldl_fold _ _ fun b hb producer hp => ?_
  obtain ⟨hmem, hge, hlt⟩ := (mem_fetch hm.boundary).1 hb
  have hbase := hold b hmem hge hlt (by rw [hp]; rfl)
  rcases hm.phase with hc | hbehind
  · have := hc.loaded
    omega
  · exact (hbehind.unknown b hmem hbase producer hp producer_id session hs).symm

theorem Memory.kafka_replay (hm : Memory s p)
    (hlt : p.covered < s.stream.confirm_offset)
    (hold : ∀ b ∈ s.stream.log.batches, p.covered ≤ b.base_offset →
      b.base_offset < s.stream.confirm_offset → b.payload.producer.isSome →
        b.base_offset < s.loaded_end) :
    KnowsKafka (p.replay s.stream now_ms) s.session_ids s.stream.log.batches := by
  rcases hm.phase with hc | hbehind
  · -- every batch it reads is plain
    have hnone : ∀ b ∈ s.stream.log.fetch p.covered s.stream.confirm_offset,
        b.payload.producer = none := by
      intro b hb
      obtain ⟨hmem, hge, hlt'⟩ := (mem_fetch hm.boundary).1 hb
      cases hp : b.payload.producer with
      | none => rfl
      | some producer =>
        have := hold b hmem hge hlt' (by rw [hp]; rfl)
        have := hc.loaded
        omega
    rw [replay_eq (h.start_le _), foldl_fold_of_none _ _ hnone]
    exact hc.kafka
  · intro id hid
    have hrest : kafka_spans (s.stream.log.since s.stream.confirm_offset) id = [] := by
      refine kafka_spans_eq_nil fun b hb producer hp => ?_
      obtain ⟨hmem, hge⟩ := mem_since.1 hb
      exact absurd hp (hbehind.later b hmem (le_trans hm.loaded hge) producer)
    rw [← below_append_since s.stream.log s.stream.confirm_offset, kafka_spans_append,
      hrest, append_nil]
    exact hbehind.kafka.replay hm.keyed h.named (h.start_le _) hm.boundary hlt.le id hid

/-- The memory a request is admitted on is what the log tells, and complete where it names a
producer. -/
theorem Invariant.memory_caught_up {producer : Option NumericProducer}
    (hr : s.ReplaysLoaded producer) (now_ms : ℤ) :
    Memory (s.hold (s.caught_up producer now_ms)) (s.caught_up producer now_ms) ∧
      (producer.isSome → Complete (s.hold (s.caught_up producer now_ms))
        (s.caught_up producer now_ms)) := by
  have hm : Memory (s.hold (s.load_producers now_ms)) (s.load_producers now_ms) := h.memory_loaded
  have h0 := h.hold hm
  set p := s.load_producers now_ms with hpdef
  by_cases hneed : p.replay_needed producer s.stream.confirm_offset = true
  · have hc : s.caught_up producer now_ms = p.replay s.stream now_ms := by
      simp [caught_up, ← hpdef, hneed]
    have hlt : p.covered < s.stream.confirm_offset := by
      simp only [replay_needed, Bool.and_eq_true, decide_eq_true_eq] at hneed
      exact hneed.2
    have hold : ∀ b ∈ s.stream.log.batches, p.covered ≤ b.base_offset →
        b.base_offset < s.stream.confirm_offset → b.payload.producer.isSome →
          b.base_offset < (s.hold p).loaded_end := by
      intro b hb hge hlt' hsome
      cases hmem : s.producers with
      | none =>
        rw [loaded_end_hold hmem]
        exact hlt'
      | some q =>
        have hq : p = q := by simp [hpdef, load_producers, hmem]
        rw [hq, hold_self hmem]
        exact hr q hmem (hq ▸ hneed) b hb (hq ▸ hge) hlt' hsome
    have hkafka : KnowsKafka (p.replay (s.hold p).stream now_ms) (s.hold p).session_ids
        (s.hold p).stream.log.batches := hm.kafka_replay h0 hlt hold
    have hcomplete : Complete (s.hold (p.replay s.stream now_ms)) (p.replay s.stream now_ms) :=
      ⟨hm.loaded, hkafka⟩
    rw [hc]
    refine ⟨⟨replay_sessions.trans hm.sessions, hm.keyed.replay h.named, ?_, h.confirm,
      hm.loaded, .inl hcomplete⟩, fun _ => hcomplete⟩
    intro producer_id session hs
    rw [replay_sessions] at hs
    have hget : (p.replay (s.hold p).stream now_ms).tracked.get session.id =
        p.tracked.get session.id := hm.get_replay h0 hold hs
    exact (last_seq_congr hget).trans (hm.http producer_id session hs)
  · have hc : s.caught_up producer now_ms = p := by simp [caught_up, ← hpdef, hneed]
    rw [hc]
    refine ⟨hm, fun hsome => ?_⟩
    have hge : s.stream.confirm_offset ≤ p.covered := by
      simpa [replay_needed, hsome] using hneed
    rcases hm.phase with hcomplete | hbehind
    · exact hcomplete
    · have hlt := hbehind.covered
      have hloaded : (s.hold p).loaded_end ≤ s.stream.confirm_offset := hm.loaded
      omega

end

/-! ## An append -/

section append

variable {n : ℕ} {o : Origin} {producer : Producer}

def next_batch (s : Partition) (n : ℕ) (o : Origin) : Batch Origin :=
  ⟨s.stream.log.next_offset, n, o⟩

theorem batches_submit_append (hn : 0 < n) :
    (s.submit_append n o).stream.log.batches = s.stream.log.batches ++ [s.next_batch n o] :=
  append_of_pos hn

theorem below_submit_append (hn : 0 < n) {c : ℕ} (hc : c ≤ s.stream.log.next_offset) :
    (s.submit_append n o).stream.log.below c = s.stream.log.below c :=
  below_append hn hc

section

variable (h : Invariant s)
include h

theorem Memory.append (hp : s.producers = some p) (hm : Memory s p) (hn : 0 < n)
    (hsessions : q.sessions = p.sessions) (hkeyed : Keyed q s.session_ids s.kafka_ids)
    (hcovered : q.covered = if p.covered = s.stream.log.next_offset then
      s.stream.log.next_offset + n else p.covered)
    (hhttp : KnowsHttp q (s.stream.log.batches ++ [s.next_batch n o]))
    (hcomplete : Complete s p →
      KnowsKafka q s.session_ids (s.stream.log.batches ++ [s.next_batch n o]))
    (hbehind : Behind s p →
      (∀ id ∉ s.session_ids, q.remembered id = p.remembered id) ∧ ∀ producer, o ≠ .kafka producer) :
    Memory ((s.hold q).submit_append n o) q := by
  have hend : ((s.hold q).submit_append n o).loaded_end = s.loaded_end := by
    simp [submit_append, hold, hp]
  have hbatches : ((s.hold q).submit_append n o).stream.log.batches =
      s.stream.log.batches ++ [s.next_batch n o] := batches_submit_append hn
  have hnext : ((s.hold q).submit_append n o).stream.log.next_offset =
      s.stream.log.next_offset + n := next_offset_append hn
  have hconfirm := h.confirm.1
  refine ⟨hsessions.trans hm.sessions, hkeyed, ?_, ?_, ?_, ?_⟩
  · rw [hbatches]
    exact hhttp
  · rw [hcovered]
    split_ifs with hc
    · rw [← hnext]
      exact isBoundary_next
    · exact hm.boundary.append hn
  · rw [hend]
    exact hm.loaded
  · rcases hm.phase with hc | hb
    · refine .inl ⟨?_, ?_⟩
      · have := hc.loaded
        rw [hend, hcovered]
        split_ifs <;> omega
      · rw [hbatches]
        exact hcomplete hc
    · obtain ⟨hsame, hother⟩ := hbehind hb
      have hlt := hb.covered
      have hloaded := hm.loaded
      have hcov : q.covered = p.covered := by
        rw [hcovered, if_neg (by omega)]
      refine .inr ⟨?_, ?_, fun id hid => (hsame id hid).trans (hb.none_known id hid), ?_, ?_⟩
      · rw [hend, hcov]
        exact hlt
      · intro id hid
        have hbelow : ((s.hold q).submit_append n o).stream.log.below q.covered =
            s.stream.log.below p.covered := by
          rw [hcov]
          exact below_submit_append hn (by show p.covered ≤ s.stream.log.next_offset; omega)
        rw [hbelow, hsame id hid]
        exact hb.kafka id hid
      · intro b hmem hge producer
        rw [hbatches] at hmem
        rw [hend] at hge
        rcases mem_append.1 hmem with hmem | hmem
        · exact hb.later b hmem hge producer
        · rw [mem_singleton.1 hmem]
          exact hother producer
      · intro b hmem hlt' producer hpr producer_id session hs
        rw [hbatches] at hmem
        rw [hend] at hlt'
        rw [hsessions] at hs
        rcases mem_append.1 hmem with hmem | hmem
        · exact hb.unknown b hmem hlt' producer hpr producer_id session hs
        · rw [mem_singleton.1 hmem] at hlt'
          exfalso
          have : (s.next_batch n o).base_offset = s.stream.log.next_offset := rfl
          omega

theorem Invariant.append (hn : 0 < n)
    (hnamed : Named s.session_ids s.kafka_ids (s.next_batch n o))
    (hseq : ∀ producer id, o = .http producer id →
      producer.seq = (session_seqs s.stream.log.batches id).length)
    (howner : ∀ producer id, o = .http producer id → ∀ producer_id session,
      s.sessions.get producer_id = some session → session.id = id →
        producer.producer_id = producer_id ∧ producer.epoch = session.epoch)
    (hm : Memory ((s.hold q).submit_append n o) q) :
    Invariant ((s.hold q).submit_append n o) := by
  have hbatches : ((s.hold q).submit_append n o).stream.log.batches =
      s.stream.log.batches ++ [s.next_batch n o] := batches_submit_append hn
  refine ⟨h.start, h.confirm.append hn, ?_, ?_, h.disjoint, ?_, h.known, h.distinct, h.forgetting,
    (fun hnone => by cases hnone), fun checkpoint hc => ?_, fun q' hq' => ?_⟩
  · rw [hbatches]
    exact h.consecutive.append hseq
  · rw [hbatches]
    intro b hb
    rcases mem_append.1 hb with hb | hb
    · exact h.named b hb
    · rw [mem_singleton.1 hb]
      exact hnamed
  · rw [hbatches]
    intro b hb
    rcases mem_append.1 hb with hb | hb
    · exact h.owner b hb
    · rw [mem_singleton.1 hb]
      exact howner
  · have hrow := h.row checkpoint hc
    exact hrow.of_same (hrow.boundary.append hn) (below_submit_append hn hrow.boundary.1) rfl rfl
      (fun _ h => h) (le_refl _)
  · cases hq'
    exact hm

section

variable (hp : s.producers = some p)
include hp

theorem Invariant.append_plain (hn : 0 < n) :
    Invariant ((s.hold (p.note_appended s.stream.log.next_offset
      (s.stream.log.next_offset + n))).submit_append n .plain) := by
  have hm := h.memory p hp
  have hplain : (s.next_batch n .plain).payload = .plain := rfl
  refine h.append hn trivial (fun _ _ he => by cases he) (fun _ _ he => by cases he)
    (hm.append h hp hn (note_appended_sessions _ _) ?_
      (note_appended_covered _ _) ?_ ?_ ?_)
  · exact hm.keyed.congr (note_appended_tracked _ _) (note_appended_sessions _ _)
  · exact (hm.http.append_plain hplain).congr (note_appended_tracked _ _)
      (note_appended_sessions _ _)
  · intro hc
    exact (hc.kafka.append_plain hplain).congr (note_appended_tracked _ _)
  · intro _
    exact ⟨fun id _ => remembered_congr (by rw [note_appended_tracked]),
      fun producer he => by cases he⟩

theorem Invariant.append_http (hn : 0 < n)
    {session : Session} (hs : s.sessions.get producer.producer_id = some session)
    (he : session.epoch = producer.epoch)
    (hseq : producer.seq = (session_seqs s.stream.log.batches session.id).length) :
    Invariant ((s.hold ((p.note_appended s.stream.log.next_offset
      (s.stream.log.next_offset + n)).record_http session producer.seq now_ms)).submit_append n
        (.http producer session.id)) := by
  have hm := h.memory p hp
  have hid := h.known _ _ hs
  have hpayload : (s.next_batch n (.http producer session.id)).payload =
      .http producer session.id := rfl
  have hkeyed := hm.keyed.congr
    (note_appended_tracked s.stream.log.next_offset (s.stream.log.next_offset + n))
    (note_appended_sessions _ _)
  refine h.append hn hid ?_ ?_ (hm.append h hp hn (note_appended_sessions _ _)
    (hkeyed.record_http hid) (note_appended_covered _ _) ?_ ?_ ?_)
  · intro producer' id' heq
    cases heq
    exact hseq
  · intro producer' id' heq producer_id session' hs' hid'
    cases heq
    have hpid := h.distinct _ _ _ _ hs' hs hid'
    subst hpid
    rw [hs] at hs'
    cases hs'
    exact ⟨rfl, he.symm⟩
  · exact (hm.http.congr (note_appended_tracked _ _)
      (note_appended_sessions _ _)).record_http hpayload
  · intro hc
    exact (hc.kafka.congr (note_appended_tracked _ _)).record_http hpayload hid
  · intro _
    refine ⟨fun id hnot => remembered_congr ?_, fun producer he => by cases he⟩
    rw [get_record_http, if_neg fun heq : id = session.id => hnot (heq ▸ hid),
      note_appended_tracked]

theorem Invariant.append_kafka (hn : 0 < n)
    (hc : Complete s p) {producer : NumericProducer} (hs : producer.id ∉ s.session_ids)
    (hk : producer.id ∈ s.kafka_ids) :
    Invariant ((s.hold ((p.record_numeric
      (some (producer, next_seq producer.first_seq (n - 1))) s.stream.log.next_offset
        now_ms).note_appended s.stream.log.next_offset (s.stream.log.next_offset + n))).submit_append
          n (.kafka producer)) := by
  have hm := h.memory p hp
  have hpayload : (s.next_batch n (.kafka producer)).payload = .kafka producer := rfl
  refine h.append hn hk (fun _ _ he => by cases he) (fun _ _ he => by cases he)
    (hm.append h hp hn ?_ ?_ ?_ ?_ ?_ ?_)
  · rw [note_appended_sessions, record_numeric_sessions]
  · exact (hm.keyed.record_numeric hk).congr (note_appended_tracked _ _)
      (note_appended_sessions _ _)
  · rw [note_appended_covered, record_numeric_covered]
  · exact (hm.http.record_numeric (fun _ _ hget he => absurd (he ▸ hm.keyed.session _ _ hget) hs)
      hpayload).congr
      (note_appended_tracked _ _) (note_appended_sessions _ _)
  · intro _
    exact (hc.kafka.record_numeric hm.keyed hpayload).congr (note_appended_tracked _ _)
  · intro hb
    have := hb.covered
    have := hc.loaded
    omega

end

end

end append

/-! ## A new session -/

section establish

variable {producer_id : String} {session : Session}

theorem Memory.establish (h : Invariant s) (hp : s.producers = some p) (hm : Memory s p)
    (hs : session.id ∉ s.session_ids) (hk : session.id ∉ s.kafka_ids) :
    Memory ((s.hold (p.establish producer_id session now_ms)).put_session producer_id session true)
      (p.establish producer_id session now_ms) := by
  have hdistinct : DistinctSessions p.sessions := hm.sessions ▸ h.distinct
  have hend : ((s.hold (p.establish producer_id session now_ms)).put_session producer_id session
      true).loaded_end = s.loaded_end := by
    simp [put_session, hold, hp]
  refine ⟨?_, hm.keyed.establish, hm.http.establish hm.keyed h.named hs hdistinct, hm.boundary, ?_,
    ?_⟩
  · show p.sessions.insert producer_id session = s.sessions.insert producer_id session
    rw [hm.sessions]
  · rw [hend]
    exact hm.loaded
  · rcases hm.phase with hc | hb
    · refine .inl ⟨?_, hc.kafka.establish hm.keyed⟩
      rw [hend]
      exact hc.loaded
    · refine .inr ⟨?_, hb.kafka.establish hm.keyed, fun id hid => ?_, ?_, ?_⟩
      · rw [hend]
        exact hb.covered
      · obtain ⟨hne, hmem⟩ := not_or.1 (mem_cons.not.1 hid)
        rw [remembered_congr (get_establish_of_ne (fun he => hne he.symm)
          fun previous hp he => hmem (he ▸ hm.keyed.session _ _ hp))]
        exact hb.none_known id hmem
      · rw [hend]
        exact hb.later
      · rw [hend]
        intro b hmem hlt producer hpr producer_id' session' hget
        rcases get_insert_cases hget with ⟨-, rfl⟩ | ⟨-, hget⟩
        · intro he
          rcases (h.named b hmem).of_producer hpr with ⟨-, hin⟩ | ⟨-, hin⟩
          · exact hs (he ▸ hin)
          · exact hk (he ▸ hin)
        · exact hb.unknown b hmem hlt producer hpr producer_id' session' hget

theorem Invariant.establish (h : Invariant s) (hp : s.producers = some p)
    (hs : session.id ∉ s.session_ids) (hk : session.id ∉ s.kafka_ids) :
    Invariant ((s.hold (p.establish producer_id session now_ms)).put_session producer_id session
      true) := by
  refine ⟨h.start, h.confirm, h.consecutive, ?_, ?_, ?_, ?_, h.distinct.insert h.known hs,
    h.forgetting, (fun hnone => by cases hnone), fun checkpoint hc => ?_, fun q hq => ?_⟩
  · intro b hb
    exact (h.named b hb).mono (subset_cons_self _ _) (fun _ h => h)
  · intro id hid hmem
    rcases mem_cons.1 hmem with rfl | hmem
    · exact hk hid
    · exact h.disjoint id hid hmem
  · intro b hb producer id hpay producer_id' session' hs' hid
    rcases get_insert_cases hs' with ⟨-, rfl⟩ | ⟨-, hold⟩
    · exact absurd (hid ▸ (h.named b hb).http_mem hpay) hs
    · exact h.owner b hb producer id hpay producer_id' session' hold hid
  · intro producer_id' session' hs'
    rcases get_insert_cases hs' with ⟨-, rfl⟩ | ⟨-, hold⟩
    · exact mem_cons_self
    · exact mem_cons_of_mem _ (h.known _ _ hold)
  · have hrow := h.row checkpoint hc
    have hnamed : ∀ b ∈ s.stream.log.below checkpoint.covered, Named s.session_ids s.kafka_ids b :=
      fun b hb => h.named b (mem_below.1 hb).1
    refine ⟨hrow.boundary, hrow.durable, ⟨fun id http hg => ?_, fun id tracked hg => ?_, ?_⟩,
      hrow.http.put_session hrow.keyed hnamed hs hk, ?_⟩
    · exact mem_cons_of_mem _ (hrow.keyed.http id http hg)
    · exact (hrow.keyed.key id tracked hg).imp (fun h => mem_cons_of_mem _ h) (fun h => h)
    · intro producer_id' session' hs'
      rcases get_insert_cases hs' with ⟨-, rfl⟩ | ⟨-, hold⟩
      · exact mem_cons_self
      · exact mem_cons_of_mem _ (h.known _ _ hold)
    · exact hrow.kafka.mono (subset_cons_self _ _)
  · cases hq
    exact (h.memory p hp).establish h hp hs hk

end establish

/-! ## What an HTTP append is decided on -/

theorem session_for_of_accepted {epoch seq : ℕ}
    (h : p.decide producer = .accepted epoch seq) (new_id : ℤ) :
    (∃ session, session_for p producer new_id = (session, false) ∧
      p.sessions.get producer.producer_id = some session ∧ session.epoch = producer.epoch ∧
      producer.seq = ((p.last_seq session.id).map (· + 1)).getD 0) ∨
    (session_for p producer new_id = (⟨producer.epoch, new_id⟩, true) ∧ producer.seq = 0) := by
  have hnew : ∀ {e q}, Producers.new_epoch producer = .accepted e q → producer.seq = 0 := by
    intro e q hnew
    unfold Producers.new_epoch at hnew
    split_ifs at hnew with hz
    exact not_not.1 hz
  unfold Producers.decide Producers.session at h
  unfold session_for Producers.session
  cases hs : p.sessions.get producer.producer_id with
  | none =>
    rw [hs] at h
    exact .inr ⟨rfl, hnew h⟩
  | some session =>
    rw [hs] at h
    simp only at h ⊢
    by_cases hlt : producer.epoch < session.epoch
    · rw [if_pos hlt] at h
      cases h
    rw [if_neg hlt] at h
    by_cases hgt : producer.epoch > session.epoch
    · rw [if_pos hgt] at h
      rw [if_neg (by omega)]
      exact .inr ⟨rfl, hnew h⟩
    rw [if_neg hgt] at h
    have he : session.epoch = producer.epoch := by omega
    rw [if_pos he]
    refine .inl ⟨session, rfl, rfl, he, ?_⟩
    cases hl : p.last_seq session.id with
    | none =>
      rw [hl] at h
      simp only at h
      split_ifs at h with hz
      simpa using hz
    | some last =>
      rw [hl] at h
      simp only at h
      split_ifs at h with hle hz
      simpa using hz

/-! ## Requests -/

section

variable (h : Invariant s)
include h

theorem Invariant.told (told : List Success) :
    Invariant { s with told := told } :=
  { h with
    row := fun checkpoint hc => (h.row checkpoint hc).of_same (h.row checkpoint hc).boundary rfl rfl
      rfl (fun _ h => h) (le_refl _)
    memory := fun p hp => (h.memory p hp).of_same rfl rfl rfl (fun _ h => h) rfl (le_refl _) }

theorem Invariant.kafka_ids {ids : List ℤ} (hids : ∀ id ∈ ids, id ∉ s.session_ids) :
    Invariant { s with kafka_ids := ids ++ s.kafka_ids } :=
  { h with
    named := fun b hb => (h.named b hb).mono (fun _ h => h) (subset_append_right _ _)
    disjoint := fun id hid => (mem_append.1 hid).elim (hids id) (h.disjoint id)
    row := fun checkpoint hc => (h.row checkpoint hc).of_same (h.row checkpoint hc).boundary rfl rfl
      rfl (subset_append_right _ _) (le_refl _)
    memory := fun p hp =>
      (h.memory p hp).of_same rfl rfl rfl (subset_append_right _ _) rfl (le_refl _) }

theorem Invariant.commit (hp : s.producers = some p)
    {epoch seq n : ℕ} {new_id : ℤ} (hd : p.decide producer = .accepted epoch seq) (hn : 0 < n)
    (hs : new_id ∉ s.session_ids) (hk : new_id ∉ s.kafka_ids)
    (hexp : NoneExpires (recorded p producer (session_for p producer new_id).1
      (session_for p producer new_id).2 s.stream.log.next_offset (s.stream.log.next_offset + n)
        now_ms) now_ms) :
    Invariant (s.commit p producer n new_id now_ms).1 := by
  have hm := h.memory p hp
  unfold NoneExpires at hexp
  rcases session_for_of_accepted hd new_id with ⟨session, hsf, hget, he, hseq⟩ | ⟨hsf, hzero⟩
  · rw [hsf] at hexp
    simp only [Partition.commit, hsf, hexp, append_nil]
    rw [hm.http _ _ hget, h.consecutive.next_seq_eq] at hseq
    rw [hm.sessions] at hget
    exact h.append_http hp hn hget he hseq
  · rw [hsf] at hexp
    simp only [Partition.commit, hsf, hexp, append_nil]
    have h1 : Invariant ((s.hold (p.establish producer.producer_id ⟨producer.epoch, new_id⟩
      now_ms)).put_session producer.producer_id ⟨producer.epoch, new_id⟩ true) :=
      h.establish hp hs hk
    have hget : (s.sessions.insert producer.producer_id ⟨producer.epoch, new_id⟩).get
        producer.producer_id = some ⟨producer.epoch, new_id⟩ := by
      simp [get_insert]
    have hseq : producer.seq = (session_seqs s.stream.log.batches new_id).length := by
      rw [session_seqs_fresh h.named hs, hzero]
      rfl
    exact h1.append_http rfl hn hget rfl hseq

theorem Invariant.http_append {producer : Option Producer} {n : ℕ} {new_id : ℤ}
    (ho : s.Orderly (.http producer n new_id now_ms)) :
    Invariant (s.http_append producer n new_id now_ms).1 := by
  have hm : Memory (s.hold (s.load_producers now_ms)) (s.load_producers now_ms) := h.memory_loaded
  have h0 := h.hold hm
  unfold Partition.http_append
  set p := s.load_producers now_ms with hpdef
  cases producer with
  | none =>
    simp only
    split_ifs with hn
    · exact h0
    · exact h0.append_plain rfl (Nat.pos_of_ne_zero hn)
  | some producer =>
    obtain ⟨⟨hs, hk, hexp⟩, -⟩ := ho
    simp only
    cases hd : p.decide producer with
    | accepted epoch seq =>
      simp only
      split_ifs with hn
      · exact h0
      · exact h0.commit rfl hd (Nat.pos_of_ne_zero hn) hs hk hexp
    | duplicate last_seq => exact h0.told _
    | staleEpoch current_epoch => exact h0
    | invalidEpochSeq => exact h0
    | sequenceGap expected received => exact h0

end

theorem Memory.of_answers (hm : Memory s p) (hp : s.producers = some p)
    (hsessions : q.sessions = p.sessions) (hcovered : q.covered = p.covered)
    (hkeyed : Keyed q s.session_ids s.kafka_ids) (hlast : ∀ id, q.last_seq id = p.last_seq id)
    (hremembered : ∀ id, q.remembered id = p.remembered id) : Memory (s.hold q) q := by
  have hend : (s.hold q).loaded_end = s.loaded_end := by simp [hold, hp]
  have hkafka : ∀ {batches}, KnowsKafka p s.session_ids batches →
      KnowsKafka q s.session_ids batches := fun h id hid => (hremembered id).trans (h id hid)
  refine ⟨hsessions.trans hm.sessions, hkeyed, fun producer_id session hs => ?_, ?_, ?_,
    hm.phase.imp (fun c => ?_) (fun b => ?_)⟩
  · rw [hsessions] at hs
    exact (hlast _).trans (hm.http producer_id session hs)
  · rw [hcovered]
    exact hm.boundary
  · rw [hend]
    exact hm.loaded
  · refine ⟨?_, hkafka c.kafka⟩
    rw [hend, hcovered]
    exact c.loaded
  · refine ⟨?_, ?_, fun id hid => (hremembered id).trans (b.none_known id hid), ?_, ?_⟩
    · rw [hend, hcovered]
      exact b.covered
    · rw [hcovered]
      exact hkafka b.kafka
    · rw [hend]
      exact b.later
    · rw [hend, hsessions]
      exact b.unknown

section

variable (h : Invariant s)
include h

theorem Invariant.touch (hp : s.producers = some p) {id : ℤ} {kafka : Kafka}
    (hk : p.known id = some kafka) :
    Invariant (s.hold { p with
      tracked := p.tracked.insert id (.kafka { kafka with last_touched_ms := now_ms }) }) := by
  have hm := h.memory p hp
  set q : Producers := { p with
    tracked := p.tracked.insert id (.kafka { kafka with last_touched_ms := now_ms }) } with hq
  have hold := get_of_known hk
  have hget : ∀ id', q.tracked.get id' =
      if id' = id then some (.kafka { kafka with last_touched_ms := now_ms })
      else p.tracked.get id' := fun id' => by simp [hq, get_insert]
  have hlast : ∀ id', q.last_seq id' = p.last_seq id' := fun id' => by
    unfold Producers.last_seq
    rw [hget]
    split_ifs with hid
    · simp [hid, hold]
    · rfl
  have hrem : ∀ id', q.remembered id' = p.remembered id' := fun id' => by
    unfold Producers.remembered Producers.known
    rw [hget]
    split_ifs with hid
    · simp [hid, hold]
    · rfl
  refine h.hold (hm.of_answers hp rfl rfl
    ⟨fun id' http hg => ?_, fun id' tracked hg => ?_, hm.keyed.session⟩ hlast hrem)
  · rw [hget] at hg
    split_ifs at hg with hid
    · cases hg
    · exact hm.keyed.http id' http hg
  · rw [hget] at hg
    split_ifs at hg with hid
    · exact hid ▸ hm.keyed.key id _ hold
    · exact hm.keyed.key id' tracked hg

theorem Invariant.submit_batch_append {producer : Option NumericProducer} {n : ℕ}
    (ho : s.Orderly (.produce producer n now_ms)) :
    Invariant (s.submit_batch_append producer n now_ms).1 := by
  obtain ⟨⟨hids, hexp⟩, hr⟩ := ho
  obtain ⟨hm, hc⟩ := h.memory_caught_up hr now_ms
  unfold NoneExpires at hexp
  unfold Partition.submit_batch_append
  split_ifs with hn
  · exact h
  have hpos : 0 < n := Nat.pos_of_ne_zero hn
  simp only [hexp]
  set c := s.caught_up producer now_ms with hcdef
  cases producer with
  | none =>
    simp only [admit_numeric, record_numeric, Option.elim_none, append_nil]
    exact (h.hold hm).append_plain rfl hpos
  | some producer =>
    have hnot : ∀ id ∈ [producer.id], id ∉ s.session_ids := fun id hid => by
      rw [mem_singleton.1 hid]
      exact hids producer rfl
    have h1 := (h.hold hm).kafka_ids hnot
    have hcomplete := hc rfl
    cases hv : validate_numeric (c.known producer.id) producer.epoch producer.first_seq
        (next_seq producer.first_seq (n - 1)) with
    | accepted =>
      simp only [admit_numeric, hv, Option.elim_some, append_nil]
      exact h1.append_kafka rfl hpos ⟨hcomplete.loaded, hcomplete.kafka⟩ (hids producer rfl)
        (mem_append.2 (.inl (mem_singleton.2 rfl)))
    | duplicate base_offset =>
      simp only [admit_numeric, hv, append_nil]
      refine Invariant.told ?_ _
      cases hk : c.known producer.id with
      | none => exact h1
      | some kafka => exact h1.touch rfl hk
    | outOfOrder expected received =>
      simp only [admit_numeric, hv]
      exact h1
    | fenced current_epoch =>
      simp only [admit_numeric, hv]
      exact h1

/-! ## Every step -/

theorem Invariant.complete : Invariant s.complete := by
  unfold Partition.complete
  split
  · exact h
  · rename_i batch rest hsince
    obtain ⟨hin, hge, hlt⟩ := of_since_eq_cons hsince
    refine Invariant.told (s := { s with
      stream := { s.stream with confirm_offset := batch.last_offset } }) ?_ _
    refine { h with
      confirm := isBoundary_last hin
      idle := fun hnone => ?_
      row := fun checkpoint hc => ?_
      memory := fun p hp => ?_ }
    · have hnext := h.idle hnone
      have := base_lt_next hin
      omega
    · have hrow := h.row checkpoint hc
      exact hrow.of_same hrow.boundary rfl rfl rfl (fun _ h => h) hlt.le
    · exact (h.memory p hp).of_same rfl rfl rfl (fun _ h => h) rfl hlt.le

theorem Invariant.put_checkpoint (hp : s.producers = some p)
    (hcov : p.covered = s.stream.log.next_offset)
    (hdur : s.stream.confirm_offset = s.stream.log.next_offset) :
    Invariant { s with checkpoint := some p.checkpoint } := by
  have hm := h.memory p hp
  have hall : s.stream.log.below p.covered = s.stream.log.batches :=
    below_of_next_le hcov.ge
  have hkafka : KnowsKafka p s.session_ids s.stream.log.batches := by
    rcases hm.phase with c | b
    · exact c.kafka
    · have := b.covered
      have := hm.loaded
      omega
  refine { h with row := fun checkpoint hc => ?_, memory := fun q hq => ?_ }
  · cases hc
    refine ⟨hm.boundary, by rw [hdur]; exact hcov.le, hm.keyed.congr rfl hm.sessions.symm, ?_, ?_⟩
    · show KnowsHttp _ (s.stream.log.below p.covered)
      rw [hall]
      exact hm.http.congr rfl hm.sessions.symm
    · show KnowsKafka _ s.session_ids (s.stream.log.below p.covered)
      rw [hall]
      exact hkafka.congr rfl
  · exact (h.memory q hq).of_same rfl rfl rfl (fun _ h => h) rfl (le_refl _)

theorem Invariant.reopen : Invariant s.reopen := by
  have hbatches : s.reopen.stream.log.batches = s.stream.log.below s.stream.confirm_offset := rfl
  refine ⟨h.start, h.confirm.truncate h.confirm (le_refl _), ?_, ?_, h.disjoint, ?_, h.known,
    h.distinct, rfl, fun _ => (next_offset_truncate h.confirm).symm,
    fun checkpoint hc => ?_, (fun p hp => by cases hp)⟩
  · have hcons := h.consecutive
    rw [← below_append_since s.stream.log s.stream.confirm_offset] at hcons
    exact hcons.of_append
  · intro b hb
    exact h.named b (mem_below.1 hb).1
  · intro b hb
    exact h.owner b (mem_below.1 hb).1
  · have hrow := h.row checkpoint hc
    exact hrow.of_same (hrow.boundary.truncate h.confirm hrow.durable)
      (below_below hrow.durable) rfl rfl (fun _ h => h) (le_refl _)

end

theorem step_checkpoint :
    s.step .checkpoint =
      { s with checkpoint := s.producers.elim s.checkpoint fun p => some p.checkpoint } := by
  unfold step handle
  cases s.producers <;> rfl

theorem step_forget (h : s.forgetting = []) : s.step .forget = s := by
  cases s
  simp only at h
  subst h
  rfl

theorem Invariant.step (h : Invariant s) {action : Action} (ho : s.Orderly action) :
    Invariant (s.step action) := by
  cases action with
  | http producer n new_id now_ms => exact h.http_append ho
  | produce producer n now_ms => exact h.submit_batch_append ho
  | durable => exact h.complete
  | checkpoint =>
    rw [step_checkpoint]
    rcases Option.eq_none_or_eq_some s.producers with hp | ⟨p, hp⟩
    · have hsame : (s.producers.elim s.checkpoint fun p => some p.checkpoint) = s.checkpoint := by
        rw [hp]
        rfl
      rw [hsame]
      exact h
    · have hrow : (s.producers.elim s.checkpoint fun p => some p.checkpoint) =
          some p.checkpoint := by
        rw [hp]
        rfl
      obtain ⟨hcov, hdur⟩ := ho.2 p hp
      rw [hrow]
      exact h.put_checkpoint hp hcov hdur
  | forget =>
    rw [step_forget h.forgetting]
    exact h
  | reopen => exact h.reopen

theorem Invariant.initial : Invariant {} where
  start := rfl
  confirm := isBoundary_zero
  consecutive := fun _ => rfl
  named := fun b hb => by cases hb
  disjoint := fun id hid => by cases hid
  owner := fun b hb => by cases hb
  known := fun producer_id session hget => by cases hget
  distinct := fun producer_id session _ _ hget => by cases hget
  forgetting := rfl
  idle := fun _ => rfl
  row := fun checkpoint hc => by cases hc
  memory := fun p hp => by cases hp

/-- In an orderly run the invariant holds in every state. -/
theorem invariant_after {actions : List Action}
    (h : Run.EachStep step {} actions Orderly) : Run.Always step {} actions Invariant :=
  Run.always_of_eachStep Invariant.initial (fun _ _ hs ho => hs.step ho) h

end PicoMq.Server.Partition
