import PicoMq.Library.Proofs.BatchLogProofs
import PicoMq.Library.Proofs.OrdMapProofs
import PicoMq.Server.Ownership

/-!
# Proofs: what a producer state knows

The owner decides on two functions of its memory: the last sequence of a session id and the window
of a Kafka id.
-/

namespace PicoMq.Server

open List Option OrdMap

/-! ## The window of accepted batches -/

theorem rtake_concat {α : Type*} (l : List α) (x : α) {n : ℕ} (hn : 0 < n) :
    (l ++ [x]).rtake n =
      if (l.rtake n ++ [x]).length > n then (l.rtake n ++ [x]).drop 1 else l.rtake n ++ [x] := by
  unfold rtake
  simp only [length_append, length_cons, length_nil, length_drop]
  by_cases h : n ≤ l.length
  · rw [if_pos (by omega), drop_append_of_le_length (by omega),
      drop_append_of_le_length (by rw [length_drop]; omega), drop_drop]
    congr 2
    omega
  · rw [if_neg (by omega), show l.length + (0 + 1) - n = 0 by omega,
      show l.length - n = 0 by omega]
    rfl

theorem window_concat (l : List (ℤ × Span)) (epoch : ℤ) (span : Span) :
    window (l ++ [(epoch, span)]) = some (push (window l) epoch span) := by
  have hlast : (l ++ [(epoch, span)]).getLast? = some (epoch, span) := by simp
  have htake : ((l ++ [(epoch, span)]).rtakeWhile fun s => s.1 = epoch) =
      (l.rtakeWhile fun s => s.1 = epoch) ++ [(epoch, span)] := by
    rw [rtakeWhile_concat]
    simp
  have hspans : ((l.rtakeWhile fun s => s.1 = epoch).map Prod.snd).rtake SPAN_WINDOW =
      (window l).elim [] fun k => if epoch ≠ k.1 then [] else k.2 := by
    unfold window
    cases hl : l.getLast? with
    | none =>
      rw [getLast?_eq_none_iff.1 hl]
      rfl
    | some last =>
      simp only [map_some, elim_some]
      by_cases he : epoch = last.1
      · rw [if_neg (by simpa using he), he]
      · rw [if_pos he]
        have hnil : (l.rtakeWhile fun s => s.1 = epoch) = [] := by
          refine rtakeWhile_eq_nil_iff.2 fun hne => ?_
          rw [getLast?_eq_some_getLast hne, some.injEq] at hl
          rw [hl, decide_eq_true_eq]
          exact fun h => he h.symm
        rw [hnil]
        rfl
  unfold push
  conv_lhs => unfold window
  rw [hlast]
  simp only [map_some, htake, map_append, map_cons, map_nil]
  rw [rtake_concat _ _ (by decide), hspans]

theorem mem_of_window {l : List (ℤ × Span)} {epoch : ℤ} {spans : List Span} {span : Span}
    (h : window l = some (epoch, spans)) (hs : span ∈ spans) : (epoch, span) ∈ l := by
  unfold window at h
  obtain ⟨last, -, heq⟩ := map_eq_some_iff.1 h
  obtain ⟨hepoch, hspans⟩ := Prod.mk.inj heq
  subst hepoch hspans
  have hmem := mem_of_mem_drop hs
  obtain ⟨⟨e, s⟩, hes, rfl⟩ := mem_map.1 hmem
  have he := mem_rtakeWhile_imp hes
  simp only [decide_eq_true_eq] at he
  rw [← he]
  exact (rtakeWhile_suffix _ _).subset hes

/-! ## Appending to what was accepted -/

section accepted

variable {l : List (Batch Origin)} {b : Batch Origin} {id : ℤ} {producer : NumericProducer}

theorem session_seqs_append (l m : List (Batch Origin)) (id : ℤ) :
    session_seqs (l ++ m) id = session_seqs l id ++ session_seqs m id := filterMap_append

theorem kafka_spans_append (l m : List (Batch Origin)) (id : ℤ) :
    kafka_spans (l ++ m) id = kafka_spans l id ++ kafka_spans m id := filterMap_append

theorem session_seqs_single_http {producer : Producer} (h : b.payload = .http producer id) :
    session_seqs [b] id = [producer.seq] := by
  simp [session_seqs, h]

theorem session_seqs_single_of_ne (h : ∀ producer, b.payload ≠ .http producer id) :
    session_seqs [b] id = [] := by
  cases hb : b.payload with
  | http producer sid =>
    have hne : sid ≠ id := fun he => h producer (by rw [hb, he])
    simp [session_seqs, hb, hne]
  | plain => simp [session_seqs, hb]
  | kafka producer => simp [session_seqs, hb]

theorem kafka_spans_single (h : b.payload = .kafka producer) :
    kafka_spans [b] producer.id =
      [(producer.epoch, ⟨producer.first_seq, next_seq producer.first_seq (b.record_count - 1),
        b.base_offset⟩)] := by
  simp [kafka_spans, h]

theorem kafka_spans_single_of_ne (h : ∀ producer, b.payload = .kafka producer → producer.id ≠ id) :
    kafka_spans [b] id = [] := by
  cases hb : b.payload with
  | kafka producer =>
    have hne := h producer hb
    simp [kafka_spans, hb, hne]
  | plain => simp [kafka_spans, hb]
  | http producer sid => simp [kafka_spans, hb]

theorem session_seqs_eq_nil (h : ∀ b ∈ l, ∀ producer, b.payload ≠ .http producer id) :
    session_seqs l id = [] := by
  induction l with
  | nil => rfl
  | cons hd tl ih =>
    have happ := session_seqs_append [hd] tl id
    rw [singleton_append, session_seqs_single_of_ne (h hd mem_cons_self),
      ih fun b hb => h b (mem_cons_of_mem _ hb)] at happ
    exact happ

theorem kafka_spans_eq_nil
    (h : ∀ b ∈ l, ∀ producer, b.payload = .kafka producer → producer.id ≠ id) :
    kafka_spans l id = [] := by
  induction l with
  | nil => rfl
  | cons hd tl ih =>
    have happ := kafka_spans_append [hd] tl id
    rw [singleton_append, kafka_spans_single_of_ne (h hd mem_cons_self),
      ih fun b hb => h b (mem_cons_of_mem _ hb)] at happ
    exact happ

theorem mem_session_seqs {seq : ℕ} :
    seq ∈ session_seqs l id ↔
      ∃ b ∈ l, ∃ producer, b.payload = .http producer id ∧ producer.seq = seq := by
  unfold session_seqs
  rw [mem_filterMap]
  refine exists_congr fun b => and_congr_right fun _ => ?_
  cases hb : b.payload with
  | http producer sid =>
    by_cases hs : sid = id
    · simp [hs]
    · simp [hs]
  | plain => simp
  | kafka producer => simp

theorem mem_kafka_spans {entry : ℤ × Span} :
    entry ∈ kafka_spans l id ↔
      ∃ b ∈ l, ∃ producer, b.payload = .kafka producer ∧ producer.id = id ∧
        entry = (producer.epoch, ⟨producer.first_seq,
          next_seq producer.first_seq (b.record_count - 1), b.base_offset⟩) := by
  unfold kafka_spans
  rw [mem_filterMap]
  refine exists_congr fun b => and_congr_right fun _ => ?_
  cases hb : b.payload with
  | kafka producer =>
    by_cases hp : producer.id = id
    · simp [hp, eq_comm]
    · simp [hp]
  | plain => simp
  | http producer sid => simp

end accepted

namespace Producers

variable {p : Producers} {b : Batch Origin} {id : ℤ} {now_ms : ℤ}

theorem last_seq_congr {q : Producers} (h : p.tracked.get id = q.tracked.get id) :
    p.last_seq id = q.last_seq id := by
  unfold last_seq
  rw [h]

theorem remembered_congr {q : Producers} (h : p.tracked.get id = q.tracked.get id) :
    p.remembered id = q.remembered id := by
  unfold remembered known
  rw [h]

theorem last_seq_of_http {http : Http} (h : p.tracked.get id = some (.http http)) :
    p.last_seq id = http.last_seq := by
  simp [last_seq, h]

theorem remembered_of_kafka {kafka : Kafka} (h : p.tracked.get id = some (.kafka kafka)) :
    p.remembered id = some (kafka.epoch, kafka.spans) := by
  simp [remembered, known, h]

theorem get_of_known {kafka : Kafka} (h : p.known id = some kafka) :
    p.tracked.get id = some (.kafka kafka) := by
  rw [known] at h
  split at h
  · rename_i hget
    rw [hget, some.inj h]
  · cases h

theorem remembered_eq_some {w : ℤ × List Span} (h : p.remembered id = some w) :
    ∃ kafka, p.known id = some kafka ∧ kafka.epoch = w.1 ∧ kafka.spans = w.2 := by
  obtain ⟨kafka, hk, heq⟩ := map_eq_some_iff.1 h
  exact ⟨kafka, hk, by rw [← heq], by rw [← heq]⟩

/-! ## Recording an HTTP append -/

theorem get_establish_self (producer_id : String) (session : Session) :
    (p.establish producer_id session now_ms).tracked.get session.id =
      some (.http ⟨none, now_ms⟩) := by
  simp [establish, get_insert]

theorem get_establish_of_ne {producer_id : String} {session : Session} (h : session.id ≠ id)
    (hprev : ∀ previous, p.sessions.get producer_id = some previous → previous.id ≠ id) :
    (p.establish producer_id session now_ms).tracked.get id = p.tracked.get id := by
  unfold establish
  cases hs : p.sessions.get producer_id with
  | none => simp [get_insert, h.symm]
  | some previous => simp [get_insert, get_remove, h.symm, (hprev previous hs).symm]

theorem get_record_http (session : Session) (seq : ℕ) :
    (p.record_http session seq now_ms).tracked.get id =
      if id = session.id then some (.http ⟨some seq, now_ms⟩) else p.tracked.get id := by
  simp [record_http, get_insert]

@[simp]
theorem note_appended_tracked (base next : ℕ) : (p.note_appended base next).tracked = p.tracked := by
  unfold note_appended
  split <;> rfl

@[simp]
theorem note_appended_sessions (base next : ℕ) :
    (p.note_appended base next).sessions = p.sessions := by
  unfold note_appended
  split <;> rfl

theorem note_appended_covered (base next : ℕ) :
    (p.note_appended base next).covered = if p.covered = base then next else p.covered := by
  unfold note_appended
  split <;> rfl

/-! ## Recording a Kafka batch -/

theorem record_numeric_covered (accepted : Option (NumericProducer × ℤ)) (base : ℕ) :
    (p.record_numeric accepted base now_ms).covered = p.covered := by
  unfold record_numeric
  split
  · rfl
  · simp only
    split <;> rfl

theorem record_numeric_sessions (accepted : Option (NumericProducer × ℤ)) (base : ℕ) :
    (p.record_numeric accepted base now_ms).sessions = p.sessions := by
  unfold record_numeric
  split
  · rfl
  · simp only
    split <;> rfl

theorem record_numeric_of_http {last : ℤ} {base : ℕ} {http : Http}
    (h : p.tracked.get producer.id = some (.http http)) :
    p.record_numeric (some (producer, last)) base now_ms = p := by
  simp [record_numeric, h]

theorem get_record_numeric_of_ne {last : ℤ} {base : ℕ} (h : producer.id ≠ id) :
    (p.record_numeric (some (producer, last)) base now_ms).tracked.get id = p.tracked.get id := by
  unfold record_numeric
  simp only
  split
  · rfl
  · simp [get_insert, h.symm]
  · simp [get_insert, h.symm]

theorem remembered_record_numeric {last : ℤ} {base : ℕ}
    (h : ∀ http, p.tracked.get producer.id ≠ some (.http http)) :
    (p.record_numeric (some (producer, last)) base now_ms).remembered producer.id =
      some (push (p.remembered producer.id) producer.epoch ⟨producer.first_seq, last, base⟩) := by
  cases ht : p.tracked.get producer.id with
  | none =>
    have hrem : p.remembered producer.id = none := by simp [remembered, known, ht]
    have hget : (p.record_numeric (some (producer, last)) base now_ms).tracked.get producer.id =
        some (.kafka (({} : Kafka).record producer.epoch ⟨producer.first_seq, last, base⟩
          now_ms)) := by
      simp [record_numeric, ht, get_insert]
    rw [remembered_of_kafka hget, hrem]
    simp [Kafka.record, push]
  | some t =>
    cases t with
    | http http => exact absurd ht (h http)
    | kafka kafka =>
      have hget : (p.record_numeric (some (producer, last)) base now_ms).tracked.get producer.id =
          some (.kafka (kafka.record producer.epoch ⟨producer.first_seq, last, base⟩ now_ms)) := by
        simp [record_numeric, ht, get_insert]
      rw [remembered_of_kafka hget, remembered_of_kafka ht]
      rfl

/-! ## Taking over a batch of the log -/

theorem fold_sessions : (p.fold b now_ms).sessions = p.sessions := by
  unfold fold
  split
  · rfl
  · simp only
    split
    · rfl
    · split
      · rfl
      · exact record_numeric_sessions _ _

theorem fold_of_none (h : b.payload.producer = none) : p.fold b now_ms = p := by
  simp [fold, h]

theorem get_fold_of_ne (h : ∀ producer, b.payload.producer = some producer → producer.id ≠ id) :
    (p.fold b now_ms).tracked.get id = p.tracked.get id := by
  cases hp : b.payload.producer with
  | none => rw [fold_of_none hp]
  | some producer =>
    have hne := h producer hp
    unfold fold
    rw [hp]
    simp only
    split
    · simp [get_insert, hne.symm]
    · split
      · simp [get_insert, hne.symm]
      · exact get_record_numeric_of_ne hne

section

variable (h : b.payload.producer = some producer)
include h

theorem last_seq_fold
    (hs : ∃ producer_id session, p.sessions.get producer_id = some session ∧
      session.id = producer.id) :
    (p.fold b now_ms).last_seq producer.id = some (match p.last_seq producer.id with
        | some last => last + 1 | none => Metadata.asU64 producer.first_seq) := by
  have hany : (p.sessions.values.any fun session => session.id = producer.id) = true := by
    obtain ⟨producer_id, session, hget, hid⟩ := hs
    exact any_eq_true.2 ⟨session, mem_values.2 ⟨producer_id, hget⟩, by simpa using hid⟩
  cases ht : p.tracked.get producer.id with
  | none => simp [fold, h, ht, hany, last_seq, get_insert]
  | some t =>
    cases t with
    | http http =>
      cases hlast : http.last_seq <;> simp [fold, h, ht, hlast, last_seq, get_insert]
    | kafka kafka => simp [fold, h, ht, hany, last_seq, get_insert]

theorem remembered_fold
    (ht : ∀ http, p.tracked.get producer.id ≠ some (.http http))
    (hs : ∀ producer_id session, p.sessions.get producer_id = some session →
      session.id ≠ producer.id) :
    (p.fold b now_ms).remembered producer.id = some (push (p.remembered producer.id) producer.epoch
        ⟨producer.first_seq, next_seq producer.first_seq (b.record_count - 1), b.base_offset⟩) := by
  have hany : (p.sessions.values.any fun session => session.id = producer.id) = false := by
    refine any_eq_false.2 fun session hmem => ?_
    obtain ⟨producer_id, hget⟩ := mem_values.1 hmem
    simpa using hs producer_id session hget
  have hfold : p.fold b now_ms = p.record_numeric
      (some (producer, next_seq producer.first_seq (b.record_count - 1))) b.base_offset now_ms := by
    cases hget : p.tracked.get producer.id with
    | none => simp [fold, h, hget, hany]
    | some t =>
      cases t with
      | http http => exact absurd hget (ht http)
      | kafka kafka => simp [fold, h, hget, hany]
  rw [hfold, remembered_record_numeric ht]

theorem http_of_fold {http : Http}
    (hget : (p.fold b now_ms).tracked.get producer.id = some (.http http)) :
    (∃ http', p.tracked.get producer.id = some (.http http')) ∨
      ∃ producer_id session, p.sessions.get producer_id = some session ∧
        session.id = producer.id := by
  by_contra hno
  obtain ⟨hht, hss⟩ := not_or.1 hno
  have hnone : (p.fold b now_ms).remembered producer.id = none := by
    simp [remembered, known, hget]
  rw [remembered_fold h (fun http' he => hht ⟨http', he⟩)
    fun producer_id session hs hid => hss ⟨producer_id, session, hs, hid⟩] at hnone
  cases hnone

end

end Producers

end PicoMq.Server
