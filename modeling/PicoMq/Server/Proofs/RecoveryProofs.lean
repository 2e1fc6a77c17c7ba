import Mathlib.Data.Fintype.EquivFin
import PicoMq.Metadata.Proofs.NodeProofs
import PicoMq.Server.Proofs.OwnershipProofs
import PicoMq.Server.Recovery

/-!
# Proofs: recovery

What a new owner answers is a function of two values that it counts from the rows and the part of
the log it reads.
-/

namespace PicoMq.Server

open List Producers

/-! ## What an observer knows -/

section ids

variable {l m : List (Batch Origin)} {id : ℤ}

theorem session_ids_of_append (l m : List (Batch Origin)) :
    session_ids_of (l ++ m) = session_ids_of l ++ session_ids_of m := filterMap_append

theorem kafka_ids_of_append (l m : List (Batch Origin)) :
    kafka_ids_of (l ++ m) = kafka_ids_of l ++ kafka_ids_of m := filterMap_append

theorem session_ids_of_subset (l m : List (Batch Origin)) :
    session_ids_of l ⊆ session_ids_of (l ++ m) := by
  rw [session_ids_of_append]
  exact subset_append_left _ _

theorem kafka_ids_of_subset (l m : List (Batch Origin)) :
    kafka_ids_of l ⊆ kafka_ids_of (l ++ m) := by
  rw [kafka_ids_of_append]
  exact subset_append_left _ _

theorem named_of_mem {b : Batch Origin} (hb : b ∈ l) :
    Named (session_ids_of l) (kafka_ids_of l) b := by
  unfold Named
  cases hp : b.payload with
  | plain => trivial
  | kafka producer => exact mem_filterMap.2 ⟨b, hb, by rw [hp]⟩
  | http producer id => exact mem_filterMap.2 ⟨b, hb, by rw [hp]⟩

end ids

/-- The memory knows the batches it has seen. -/
structure Observed (p : Producers) (seen : List (Batch Origin)) : Prop where
  keyed : Keyed p (session_ids_of seen) (kafka_ids_of seen)
  http : KnowsHttp p seen
  kafka : KnowsKafka p (session_ids_of seen) seen
  distinct : DistinctSessions p.sessions

section observed

variable {p : Producers} {seen l : List (Batch Origin)} {b : Batch Origin} {session : Session}

theorem Observed.initial : Observed (observer []) [] where
  keyed := Partition.keyed_of_empty rfl fun _ _ h => by cases h
  http := Partition.knowsHttp_of_empty rfl
  kafka := Partition.knowsKafka_of_empty rfl
  distinct := fun _ _ _ _ h => by cases h

/-- A session that was seen is tracked as one. -/
theorem Observed.tracked_session (h : Observed p seen) {producer_id : String}
    (hget : p.sessions.get producer_id = some session) :
    ∃ http, p.tracked.get session.id = some (.http http) := by
  have hlast := h.http _ _ hget
  obtain ⟨b, hb, hid⟩ := mem_filterMap.1 (h.keyed.session _ _ hget)
  cases hp : b.payload with
  | plain => simp [hp] at hid
  | kafka producer => simp [hp] at hid
  | http producer id =>
    have hsame : id = session.id := by simpa [hp] using hid
    have hmem : producer.seq ∈ session_seqs seen session.id :=
      mem_session_seqs.2 ⟨b, hb, producer, hsame ▸ hp, rfl⟩
    rw [getLast?_eq_some_getLast (ne_nil_of_mem hmem)] at hlast
    unfold last_seq at hlast
    split at hlast
    · exact ⟨_, by assumption⟩
    · cases hlast

theorem Observed.observe_plain (h : Observed p seen) (hb : b.payload = .plain) :
    Observed (p.observe b 0) (seen ++ [b]) := by
  have hp : p.observe b 0 = p.note_appended b.base_offset b.last_offset := by
    simp [observe, hb]
  have ht : (p.observe b 0).tracked = p.tracked := by rw [hp, note_appended_tracked]
  have hs : (p.observe b 0).sessions = p.sessions := by rw [hp, note_appended_sessions]
  refine ⟨?_, (h.http.append_plain hb).congr ht hs,
    ((h.kafka.append_plain hb).mono (session_ids_of_subset seen [b])).congr ht, ?_⟩
  · exact (h.keyed.mono (session_ids_of_subset seen [b]) (kafka_ids_of_subset seen [b])).congr ht hs
  · rw [hs]
    exact h.distinct

theorem Observed.observe_kafka (h : Observed p seen) {producer : NumericProducer}
    (hb : b.payload = .kafka producer) : Observed (p.observe b 0) (seen ++ [b]) := by
  have hk : producer.id ∈ kafka_ids_of (seen ++ [b]) := by
    rw [kafka_ids_of_append]
    exact mem_append_right _ (by simp [kafka_ids_of, hb])
  have hold := session_ids_of_subset seen [b]
  set q := p.record_numeric (some (producer, next_seq producer.first_seq (b.record_count - 1)))
    b.base_offset 0 with hq
  have hp : p.observe b 0 = q.note_appended b.base_offset b.last_offset := by
    simp [observe, hb, hq]
  have ht : (p.observe b 0).tracked = q.tracked := by rw [hp, note_appended_tracked]
  have hss : (p.observe b 0).sessions = q.sessions := by rw [hp, note_appended_sessions]
  have hhttp : KnowsHttp q (seen ++ [b]) :=
    h.http.record_numeric (fun _ _ hget he => he ▸ h.tracked_session hget) hb
  refine ⟨((h.keyed.mono hold (kafka_ids_of_subset seen [b])).record_numeric hk).congr ht hss,
    hhttp.congr ht hss, ((h.kafka.record_numeric h.keyed hb).mono hold).congr ht, ?_⟩
  rw [hss, hq, record_numeric_sessions]
  exact h.distinct

theorem Observed.record (hkeyed : Keyed p (session_ids_of (seen ++ [b])) (kafka_ids_of seen))
    (hhttp : KnowsHttp p seen) (hkafka : KnowsKafka p (session_ids_of (seen ++ [b])) seen)
    (hdistinct : DistinctSessions p.sessions) {producer : Producer}
    (hb : b.payload = .http producer session.id) :
    Observed ((p.note_appended b.base_offset b.last_offset).record_http session producer.seq 0)
      (seen ++ [b]) := by
  have ht : (p.note_appended b.base_offset b.last_offset).tracked = p.tracked :=
    note_appended_tracked _ _
  have hs : (p.note_appended b.base_offset b.last_offset).sessions = p.sessions :=
    note_appended_sessions _ _
  have hid : session.id ∈ session_ids_of (seen ++ [b]) := (named_of_mem (by simp)).http_mem hb
  refine ⟨?_, (hhttp.congr ht hs).record_http hb, (hkafka.congr ht).record_http hb hid, ?_⟩
  · exact ((hkeyed.congr ht hs).record_http hid).mono (Subset.refl _) (kafka_ids_of_subset seen [b])
  · show DistinctSessions (p.note_appended b.base_offset b.last_offset).sessions
    rw [hs]
    exact hdistinct

theorem Observed.observe_http (h : Observed p seen) {producer : Producer} {id : ℤ}
    (hb : b.payload = .http producer id) (hl : LetsIn p seen b) :
    Observed (p.observe b 0) (seen ++ [b]) := by
  have hin : id ∈ session_ids_of (seen ++ [b]) := (named_of_mem (by simp)).http_mem hb
  have hold := session_ids_of_subset seen [b]
  unfold LetsIn at hl
  rw [hb] at hl
  obtain ⟨hd, hsame, hfresh⟩ := hl
  have hp : p.observe b 0 = Partition.recorded p producer (Partition.session_for p producer id).1
      (Partition.session_for p producer id).2 b.base_offset b.last_offset 0 := by
    simp [observe, hb]
  rcases Partition.session_for_of_accepted hd id with ⟨session, hsf, -⟩ | ⟨hsf, -⟩
  · rw [hsf] at hp hsame
    subst hsame
    rw [hp]
    exact .record (h.keyed.mono hold (Subset.refl _)) h.http (h.kafka.mono hold) h.distinct hb
  · rw [hsf] at hp hfresh
    have hnew : id ∉ session_ids_of seen := hfresh rfl
    have hids : id :: session_ids_of seen ⊆ session_ids_of (seen ++ [b]) :=
      cons_subset.2 ⟨hin, hold⟩
    have hb' : b.payload = .http producer (⟨producer.epoch, id⟩ : Session).id := hb
    rw [hp]
    exact .record (h.keyed.establish.mono hids (Subset.refl _))
      (h.http.establish h.keyed (fun b hb => named_of_mem hb) hnew h.distinct)
      ((h.kafka.establish h.keyed).mono hids) (h.distinct.insert h.keyed.session hnew) hb'

/-- An observer knows the batches it has seen. -/
theorem Observed.foldl (h : Observed p seen) (hl : LetsInFrom p seen l) :
    Observed (l.foldl (fun p b => p.observe b 0) p) (seen ++ l) := by
  induction l generalizing p seen with
  | nil =>
    rw [append_nil]
    exact h
  | cons b l ih =>
    obtain ⟨hb, hrest⟩ := hl
    rw [append_cons]
    refine ih ?_ hrest
    cases hp : b.payload with
    | plain => exact h.observe_plain hp
    | kafka producer => exact h.observe_kafka hp
    | http producer id => exact h.observe_http hp hb

end observed

namespace Producers

variable {p q : Producers} {id now_ms : ℤ} {l : List (Batch Origin)}

/-! ## What is decided on -/

/-- What is known of an HTTP producer: the epoch of its session and the last sequence. -/
def standing (p : Producers) (producer_id : String) : Option (ℕ × Option ℕ) :=
  (p.session producer_id).map fun session => (session.epoch, p.last_seq session.id)

section decide

variable {producer_id : String} {session : Session} {seq : ℕ}
  (hs : p.session producer_id = some session)
include hs

theorem decide_of_lt {epoch : ℕ} (h : epoch < session.epoch) :
    p.decide ⟨producer_id, epoch, seq⟩ = .staleEpoch session.epoch := by
  simp [decide, hs, h]

/-- At its own epoch a session is neither stale nor new. -/
theorem decide_current : (∀ epoch, p.decide ⟨producer_id, session.epoch, seq⟩ ≠ .staleEpoch epoch) ∧
    p.decide ⟨producer_id, session.epoch, seq⟩ ≠ .invalidEpochSeq := by
  cases hlast : p.last_seq session.id <;> simp only [decide, hs, hlast, lt_irrefl, if_false]
  all_goals split_ifs <;> simp

theorem decide_duplicate_iff {last : ℕ} :
    p.decide ⟨producer_id, session.epoch, seq⟩ = .duplicate last ↔
      p.last_seq session.id = some last ∧ seq ≤ last := by
  cases hlast : p.last_seq session.id <;> simp only [decide, hs, hlast, lt_irrefl, if_false]
  all_goals split_ifs <;> simp <;> omega

end decide

/-- Two memories answer every request of a producer alike exactly if they know the same of it. -/
theorem decide_eq_iff {producer_id : String} :
    (∀ epoch seq, p.decide ⟨producer_id, epoch, seq⟩ = q.decide ⟨producer_id, epoch, seq⟩) ↔
      p.standing producer_id = q.standing producer_id := by
  have hnone : ∀ {p : Producers}, p.session producer_id = none → ∀ epoch,
      p.decide ⟨producer_id, epoch, 1⟩ = .invalidEpochSeq := fun h epoch => by
    simp [decide, h, new_epoch]
  cases hp : p.session producer_id with
  | none =>
    cases hq : q.session producer_id with
    | none => simp [decide, standing, hp, hq]
    | some session =>
      refine iff_of_false (fun h => ?_) (by simp [standing, hp, hq])
      exact (decide_current hq).2 ((h session.epoch 1).symm.trans (hnone hp _))
  | some session =>
    cases hq : q.session producer_id with
    | none =>
      refine iff_of_false (fun h => ?_) (by simp [standing, hp, hq])
      exact (decide_current hp).2 ((h session.epoch 1).trans (hnone hq _))
    | some session' =>
      simp only [standing, hp, hq, Option.map_some, Option.some.injEq, Prod.mk.injEq]
      constructor
      · intro h
        have hepoch : session.epoch = session'.epoch := by
          rcases lt_trichotomy session.epoch session'.epoch with hlt | heq | hgt
          · exact absurd ((h _ 0).trans (decide_of_lt hq hlt)) ((decide_current hp).1 _)
          · exact heq
          · exact absurd ((h _ 0).symm.trans (decide_of_lt hp hgt)) ((decide_current hq).1 _)
        refine ⟨hepoch, Option.ext fun last => ?_⟩
        have hp' : p.decide ⟨producer_id, session.epoch, last⟩ = .duplicate last ↔ _ :=
          decide_duplicate_iff hp
        rw [h, hepoch, decide_duplicate_iff hq] at hp'
        simpa using hp'.symm
      · rintro ⟨hepoch, hlast⟩ epoch seq
        simp only [decide, hp, hq, hepoch, hlast]

/-- The answer to a Kafka batch, by what the window tells. -/
def answer (known : Option (ℤ × List Span)) (producer : NumericProducer) (record_count : ℕ) :
    Except ServiceError Admission :=
  let at_seq (expected : ℤ) : Except ServiceError Admission :=
    if producer.first_seq = expected then
      .ok (.accepted (some (producer, next_seq producer.first_seq (record_count - 1))))
    else .error (.sequence_gap (Metadata.asU64 expected) (Metadata.asU64 producer.first_seq))
  match tells known with
  | none => at_seq 0
  | some (epoch, expected, held) =>
    if producer.epoch < epoch then .error (.fenced (Metadata.asU64 epoch))
    else if producer.epoch > epoch then at_seq 0
    else
      match held producer.first_seq record_count with
      | some base_offset => .ok (.duplicate base_offset)
      | none => at_seq expected

theorem admission_eq (p : Producers) (producer : NumericProducer) (record_count : ℕ) :
    Partition.admission p producer record_count =
      answer (p.remembered producer.id) producer record_count := by
  unfold Partition.admission admit_numeric validate_numeric answer tells remembered
  cases hk : p.known producer.id with
  | none => by_cases hfirst : producer.first_seq = 0 <;> simp [hfirst, hk]
  | some state =>
    simp only [hk, Option.map_some, held_at, expected_seq]
    cases state.spans.find? fun s => s.first_seq = producer.first_seq ∧
        s.last_seq = next_seq producer.first_seq (record_count - 1) <;>
      split_ifs <;> simp_all

theorem expected_seq_bounds (spans : List Span) :
    -2 ^ 63 ≤ expected_seq spans ∧ expected_seq spans < 2 ^ 63 := by
  unfold expected_seq
  cases spans.getLast? with
  | none => decide
  | some span =>
    have hpos : (0 : ℤ) < SEQ_SPACE := by decide
    have hlt := Int.tmod_lt_of_pos (span.last_seq + (1 : ℕ)) hpos
    have hgt := Int.lt_tmod_of_pos (span.last_seq + (1 : ℕ)) hpos
    simp only [Option.map_some, Option.getD_some, next_seq, SEQ_SPACE] at *
    omega

theorem held_at_of_ne {spans : List Span} {first_seq : ℤ} (h : first_seq ∉ spans.map (·.first_seq))
    (record_count : ℕ) : held_at spans first_seq record_count = none := by
  unfold held_at
  rw [Option.map_eq_none_iff, find?_eq_none]
  intro s hs heq
  exact h (mem_map.2 ⟨s, hs, (of_decide_eq_true heq).1⟩)

section window

variable {epoch epoch' first_seq : ℤ} {spans spans' : List Span} {record_count : ℕ}

/-- Only a batch of an older epoch is fenced. -/
theorem answer_fenced_iff :
    (∃ current, answer (some (epoch, spans)) ⟨id, epoch', first_seq⟩ record_count =
      .error (.fenced current)) ↔ epoch' < epoch := by
  unfold answer tells
  dsimp only [Option.map_some]
  split_ifs with hlt hgt
  · simpa using hlt
  all_goals cases held_at spans first_seq record_count <;> simp [hlt]

theorem answer_duplicate_iff {base_offset : ℕ} :
    answer (some (epoch, spans)) ⟨id, epoch, first_seq⟩ record_count =
      .ok (.duplicate base_offset) ↔ held_at spans first_seq record_count = some base_offset := by
  simp only [answer, tells, Option.map_some, gt_iff_lt, lt_irrefl, if_false]
  cases held_at spans first_seq record_count with
  | some base => simp
  | none => dsimp only; split_ifs <;> simp

theorem answer_gap (h : held_at spans first_seq record_count = none)
    (hne : first_seq ≠ expected_seq spans) :
    answer (some (epoch, spans)) ⟨id, epoch, first_seq⟩ record_count =
      .error (.sequence_gap (Metadata.asU64 (expected_seq spans)) (Metadata.asU64 first_seq)) := by
  simp [answer, tells, h, hne]

theorem expected_eq_of_answers
    (h : ∀ first_seq record_count,
      answer (some (epoch, spans)) ⟨id, epoch, first_seq⟩ record_count =
        answer (some (epoch, spans')) ⟨id, epoch, first_seq⟩ record_count) :
    expected_seq spans = expected_seq spans' := by
  -- A batch that neither window holds or expects is told which sequence is.
  obtain ⟨first_seq, hfresh⟩ := Infinite.exists_notMem_finset
    (expected_seq spans :: expected_seq spans' :: (spans ++ spans').map (·.first_seq)).toFinset
  simp only [mem_toFinset, mem_cons, map_append, mem_append, not_or] at hfresh
  obtain ⟨hne, hne', hheld, hheld'⟩ := hfresh
  have hsame := h first_seq 1
  rw [answer_gap (held_at_of_ne hheld 1) hne, answer_gap (held_at_of_ne hheld' 1) hne'] at hsame
  injection hsame with hsame
  injection hsame with hsame
  exact Metadata.asU64_injective (expected_seq_bounds _) (expected_seq_bounds _) hsame

/-- Two windows answer every batch alike exactly if they tell the same. -/
theorem answer_eq_iff {known known' : Option (ℤ × List Span)} :
    (∀ epoch first_seq record_count, answer known ⟨id, epoch, first_seq⟩ record_count =
      answer known' ⟨id, epoch, first_seq⟩ record_count) ↔ tells known = tells known' := by
  refine ⟨fun h => ?_, fun h _ _ _ => by simp only [answer, h]⟩
  have hnone : ∀ (epoch : ℤ) (spans : List Span),
      answer none ⟨id, epoch - 1, 0⟩ 1 ≠ answer (some (epoch, spans)) ⟨id, epoch - 1, 0⟩ 1 :=
    fun epoch spans => by simp [answer, tells]
  rcases known with _ | ⟨epoch, spans⟩ <;> rcases known' with _ | ⟨epoch', spans'⟩
  · rfl
  · exact absurd (h _ 0 1) (hnone epoch' spans')
  · exact absurd (h _ 0 1).symm (hnone epoch spans)
  · have hlt : ∀ e, e < epoch ↔ e < epoch' := fun e => by
      rw [← @answer_fenced_iff id, h e 0 1, answer_fenced_iff]
    obtain rfl : epoch = epoch' := eq_of_forall_lt_iff hlt
    have hheld : held_at spans = held_at spans' := by
      ext first_seq record_count base_offset
      rw [← answer_duplicate_iff, h, answer_duplicate_iff]
    simp only [tells, Option.map_some, expected_eq_of_answers (h epoch), hheld]

end window

/-! ## What is counted -/

theorem header_spans_cons (b : Batch Origin) (l : List (Batch Origin)) (id : ℤ) :
    header_spans (b :: l) id = header_spans [b] id ++ header_spans l id :=
  filterMap_append (l := [b])

theorem header_spans_single {b : Batch Origin} {producer : NumericProducer}
    (h : b.payload.producer = some producer) : header_spans [b] producer.id =
      [(producer.epoch, ⟨producer.first_seq, next_seq producer.first_seq (b.record_count - 1),
        b.base_offset⟩)] := by
  simp [header_spans, h]

theorem header_spans_single_of_ne {b : Batch Origin}
    (h : ∀ producer, b.payload.producer = some producer → producer.id ≠ id) :
    header_spans [b] id = [] := by
  cases hp : b.payload.producer with
  | none => simp [header_spans, hp]
  | some producer => simp [header_spans, hp, h producer hp]

/-- Under the id of a session, every batch that carries the id counts. -/
theorem last_seq_foldl (hs : ∃ producer_id session, p.sessions.get producer_id = some session ∧
      session.id = id) :
    (l.foldl (fun p b => p.fold b now_ms) p).last_seq id =
      match p.last_seq id with
      | some last => some (last + (header_spans l id).length)
      | none => (header_spans l id).head?.map fun first =>
          Metadata.asU64 first.2.first_seq + ((header_spans l id).length - 1) := by
  induction l generalizing p with
  | nil =>
    cases hlast : p.last_seq id <;> simp [header_spans, hlast]
  | cons b l ih =>
    rw [foldl_cons, ih (by rwa [fold_sessions]), header_spans_cons]
    by_cases hmine : ∃ producer, b.payload.producer = some producer ∧ producer.id = id
    · obtain ⟨producer, hp, rfl⟩ := hmine
      rw [last_seq_fold hp hs, header_spans_single hp]
      cases hlast : p.last_seq producer.id with
      | none => simp
      | some last =>
        simp
        omega
    · have hne : ∀ producer, b.payload.producer = some producer → producer.id ≠ id :=
        fun producer hp he => hmine ⟨producer, hp, he⟩
      rw [last_seq_congr (get_fold_of_ne hne), header_spans_single_of_ne hne]
      rfl

theorem http_foldl (h : ∃ http, p.tracked.get id = some (.http http)) :
    ∃ http, (l.foldl (fun p b => p.fold b now_ms) p).tracked.get id = some (.http http) := by
  induction l generalizing p with
  | nil => exact h
  | cons b l ih =>
    refine ih ?_
    by_cases hmine : ∃ producer, b.payload.producer = some producer ∧ producer.id = id
    · obtain ⟨producer, hp, rfl⟩ := hmine
      obtain ⟨http, hhttp⟩ := h
      simp [fold, hp, hhttp, OrdMap.get_insert]
    · rw [get_fold_of_ne fun producer hp he => hmine ⟨producer, hp, he⟩]
      exact h

/-- The first batch that carries the id of a session makes it one. -/
theorem http_of_carried (hs : ∃ producer_id session, p.sessions.get producer_id = some session ∧
      session.id = id) (hl : header_spans l id ≠ []) :
    ∃ http, (l.foldl (fun p b => p.fold b now_ms) p).tracked.get id = some (.http http) := by
  have hsome : ((l.foldl (fun p b => p.fold b now_ms) p).last_seq id).isSome := by
    rw [last_seq_foldl hs]
    cases p.last_seq id with
    | none => simpa using hl
    | some last => rfl
  unfold last_seq at hsome
  split at hsome
  · exact ⟨_, by assumption⟩
  · cases hsome

theorem remembered_of_http (h : ∃ http, p.tracked.get id = some (.http http)) :
    p.remembered id = none := by
  obtain ⟨http, hhttp⟩ := h
  simp [remembered, known, hhttp]

/-- Under an id of no session, every batch that carries the id extends the window. -/
theorem remembered_foldl (ht : ∀ http, p.tracked.get id ≠ some (.http http))
    (hs : header_spans l id ≠ [] →
      ∀ producer_id session, p.sessions.get producer_id = some session → session.id ≠ id) :
    (l.foldl (fun p b => p.fold b now_ms) p).remembered id =
      (header_spans l id).foldl (fun known span => some (push known span.1 span.2))
        (p.remembered id) := by
  induction l generalizing p with
  | nil => rfl
  | cons b l ih =>
    rw [header_spans_cons] at hs
    rw [foldl_cons, header_spans_cons, foldl_append]
    by_cases hmine : ∃ producer, b.payload.producer = some producer ∧ producer.id = id
    · obtain ⟨producer, hp, rfl⟩ := hmine
      rw [header_spans_single hp] at hs
      have hs := hs (cons_ne_nil _ _)
      have hpushed : (p.fold b now_ms).remembered producer.id = _ := remembered_fold hp ht hs
      rw [ih (fun http he => ?_) (fun _ => by rwa [fold_sessions]), hpushed, header_spans_single hp]
      · rfl
      · rw [remembered_of_http ⟨http, he⟩] at hpushed
        cases hpushed
    · have hne : ∀ producer, b.payload.producer = some producer → producer.id ≠ id :=
        fun producer hp he => hmine ⟨producer, hp, he⟩
      rw [header_spans_single_of_ne hne, nil_append] at hs
      rw [ih (by rwa [get_fold_of_ne hne]) (by rwa [fold_sessions]),
        remembered_congr (get_fold_of_ne hne), header_spans_single_of_ne hne]
      rfl

end Producers

namespace Partition

variable {s : Partition} {now_ms : ℤ}

/-! ## What is loaded -/

theorem at_load_sessions (s : Partition) : s.at_load.sessions = s.sessions := by
  unfold at_load load
  split
  · rfl
  · split_ifs <;> rfl

theorem start_le_at_load (s : Partition) : s.stream.start_offset ≤ s.at_load.covered := by
  unfold at_load load
  split
  · exact le_refl _
  · split_ifs
    · exact le_max_right _ _
    · exact le_refl _

/-- The memory after the part of the log that is not covered was read. -/
def read_up (s : Partition) (now_ms : ℤ) : Producers :=
  s.replayed.foldl (fun p b => p.fold b now_ms) s.at_load

theorem replay_at_load : (s.at_load.replay s.stream now_ms).tracked = (s.read_up now_ms).tracked := by
  rw [replay_eq s.start_le_at_load]
  rfl

section

variable (h : s.Left)
include h

theorem Left.read_up_of_le (hle : s.stream.confirm_offset ≤ s.at_load.covered) :
    s.read_up now_ms = s.at_load := by
  have hnil : s.replayed = [] := by
    refine filter_eq_nil_iff.2 fun b hb => ?_
    have hlast := BatchLog.last_le_foldl s.stream.log.contiguous hb
    have hend : s.stream.confirm_offset = s.stream.log.next_offset := h.durable
    unfold BatchLog.next_offset at hend
    simp only [decide_eq_true_eq]
    omega
  rw [read_up, hnil]
  rfl

/-- A session row makes the new owner read the log at once. -/
theorem Left.tracked_load (hrow : s.sessions.entries ≠ []) :
    (s.load_producers now_ms).tracked = (s.read_up now_ms).tracked := by
  unfold load_producers
  rw [h.memory]
  dsimp only
  by_cases hlt : s.at_load.covered < s.stream.confirm_offset
  · have hneed : s.at_load.replay_needed none s.stream.confirm_offset = true := by
      simp [replay_needed, at_load_sessions, hrow, hlt]
    rw [← at_load, if_pos hneed, replay_at_load]
  · have hneed : s.at_load.replay_needed none s.stream.confirm_offset = false := by
      simp [replay_needed, hlt]
    rw [← at_load, hneed, h.read_up_of_le (not_lt.1 hlt)]
    rfl

theorem Left.sessions_load : (s.load_producers now_ms).sessions = s.sessions := by
  unfold load_producers
  rw [h.memory]
  dsimp only
  split_ifs
  · exact replay_sessions.trans (at_load_sessions s)
  · exact at_load_sessions s

/-- A Kafka batch makes the new owner read the log, if it has not. -/
theorem Left.tracked_caught_up (producer : NumericProducer) :
    (s.caught_up (some producer) now_ms).tracked = (s.read_up now_ms).tracked := by
  unfold caught_up load_producers
  rw [h.memory]
  dsimp only
  rw [← at_load]
  by_cases hlt : s.at_load.covered < s.stream.confirm_offset
  · by_cases hneed : s.at_load.replay_needed none s.stream.confirm_offset = true
    · have hdone : (s.at_load.replay s.stream now_ms).replay_needed (some producer)
          s.stream.confirm_offset = false := by
        simp [replay_needed, replay]
      rw [if_pos hneed, hdone]
      exact replay_at_load
    · have hneed' : s.at_load.replay_needed (some producer) s.stream.confirm_offset = true := by
        simp [replay_needed, hlt]
      rw [if_neg hneed, if_pos hneed']
      exact replay_at_load
  · have hneed : ∀ producer, s.at_load.replay_needed producer s.stream.confirm_offset = false :=
      fun producer => by simp [replay_needed, hlt]
    rw [hneed none, if_neg Bool.false_ne_true, hneed, if_neg Bool.false_ne_true,
      h.read_up_of_le (not_lt.1 hlt)]

/-! ## What is answered -/

theorem Left.standing_load (producer_id : String) : (s.load_producers now_ms).standing producer_id =
    (s.sessions.get producer_id).map fun row => (row.epoch, s.counted_seq row.id) := by
  unfold standing session
  rw [h.sessions_load]
  cases hrow : s.sessions.get producer_id with
  | none => rfl
  | some row =>
    have hne : s.sessions.entries ≠ [] := fun hnil => by
      simp [OrdMap.get, hnil, OrdMap.lookupEntry] at hrow
    have hid : ∃ producer_id session, s.at_load.sessions.get producer_id = some session ∧
        session.id = row.id := ⟨producer_id, row, by rwa [at_load_sessions], rfl⟩
    have hlast : (s.load_producers now_ms).last_seq row.id = s.counted_seq row.id :=
      (last_seq_congr (q := s.read_up now_ms) (by rw [h.tracked_load hne])).trans (last_seq_foldl hid)
    rw [Option.map_some, Option.map_some, hlast]

theorem Left.remembered_caught_up (producer : NumericProducer) (id : ℤ) :
    (s.caught_up (some producer) now_ms).remembered id = s.extended_window id := by
  rw [remembered_congr (q := s.read_up now_ms) (by rw [h.tracked_caught_up]), extended_window]
  split
  · rename_i http hhttp
    exact remembered_of_http (http_foldl ⟨http, hhttp⟩)
  · rename_i hnot
    have hsame := at_load_sessions s
    split_ifs with htaken
    · obtain ⟨hcarried, hany⟩ := htaken
      obtain ⟨session, hmem, hid⟩ := any_eq_true.1 hany
      obtain ⟨producer_id, hget⟩ := OrdMap.mem_values.1 hmem
      exact remembered_of_http (http_of_carried
        ⟨producer_id, session, hsame.symm ▸ hget, of_decide_eq_true hid⟩ hcarried)
    · refine remembered_foldl hnot fun hcarried producer_id session hget hid => ?_
      refine htaken ⟨hcarried, any_eq_true.2 ⟨session, ?_, decide_eq_true hid⟩⟩
      exact OrdMap.mem_values.2 ⟨producer_id, hsame ▸ hget⟩

end

/-- A stream that was left with a checkpoint at offset 2, trimmed up to offset 1. -/
def handed_over : Partition :=
  let log : BatchLog Origin := (((BatchLog.empty.append 1 .plain).append 1
    (.http ⟨"a", 0, 0⟩ 7)).append 2 (.kafka ⟨100, 0, 0⟩)).append 1 (.http ⟨"a", 0, 1⟩ 7)
  { stream := ⟨1, 5, log⟩
    checkpoint := some (observer (log.below 2)).checkpoint
    sessions := (observer log.batches).sessions }

/-- Three appends of one session, a checkpoint after the first, and a trim up to the third. -/
def trimmed_past_checkpoint : Partition :=
  let log : BatchLog Origin := ((BatchLog.empty.append 1 (.http ⟨"a", 0, 0⟩ 7)).append 1
    (.http ⟨"a", 0, 1⟩ 7)).append 1 (.http ⟨"a", 0, 2⟩ 7)
  { stream := ⟨2, 3, log⟩
    checkpoint := some (observer (log.below 1)).checkpoint
    sessions := (observer log.batches).sessions }

end Partition

end PicoMq.Server
