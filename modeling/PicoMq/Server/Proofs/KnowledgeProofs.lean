import PicoMq.Server.Proofs.ProducersProofs

/-!
# Proofs: knowing what was accepted

A producer state knows a list of batches if the last sequence of every session, and the window of
every Kafka producer, are what the list tells.
-/

namespace PicoMq.Server

open List Option OrdMap Producers

/-! ## Knowing what was accepted -/

/-- The producer in the batch is a session's or a Kafka client's, as its id tells. -/
def Named (session_ids kafka_ids : List ℤ) (b : Batch Origin) : Prop :=
  match b.payload with
  | .plain => True
  | .kafka producer => producer.id ∈ kafka_ids
  | .http _ id => id ∈ session_ids

/-- The sequences of every session count up from 0. -/
def Consecutive (batches : List (Batch Origin)) : Prop :=
  ∀ id, session_seqs batches id = range (session_seqs batches id).length

/-- The last sequence of every session is that of its last batch. -/
def KnowsHttp (p : Producers) (seen : List (Batch Origin)) : Prop :=
  ∀ producer_id session, p.sessions.get producer_id = some session →
    p.last_seq session.id = (session_seqs seen session.id).getLast?

/-- The window of every Kafka producer is that of its batches. -/
def KnowsKafka (p : Producers) (session_ids : List ℤ) (seen : List (Batch Origin)) : Prop :=
  ∀ id ∉ session_ids, p.remembered id = window (kafka_spans seen id)

/-- Sessions are tracked under ids of sessions, and nothing under an id that nobody has. -/
structure Keyed (p : Producers) (session_ids kafka_ids : List ℤ) : Prop where
  http : ∀ id http, p.tracked.get id = some (.http http) → id ∈ session_ids
  key : ∀ id tracked, p.tracked.get id = some tracked → id ∈ session_ids ∨ id ∈ kafka_ids
  session : ∀ producer_id session, p.sessions.get producer_id = some session →
    session.id ∈ session_ids

section knowledge

variable {p : Producers} {seen l : List (Batch Origin)} {b : Batch Origin} {id now_ms : ℤ}
  {session_ids kafka_ids : List ℤ} (hk : Keyed p session_ids kafka_ids)

theorem Consecutive.of_append {l m : List (Batch Origin)} (h : Consecutive (l ++ m)) :
    Consecutive l := by
  intro id
  have hid := h id
  rw [session_seqs_append] at hid
  have htake := congrArg (take (session_seqs l id).length) hid
  rw [take_left, take_range, length_append, Nat.min_eq_left (by omega)] at htake
  exact htake

theorem Consecutive.seq_eq {producer : Producer} (h : Consecutive (seen ++ [b]))
    (hb : b.payload = .http producer id) : producer.seq = (session_seqs seen id).length := by
  have hid := h id
  rw [session_seqs_append, session_seqs_single_http hb, length_append, length_singleton,
    range_succ] at hid
  exact singleton_inj.1 (append_inj_right' hid rfl)

theorem Consecutive.getLast? (h : Consecutive seen) (id : ℤ) :
    (session_seqs seen id).getLast? =
      if (session_seqs seen id).length = 0 then none
      else some ((session_seqs seen id).length - 1) := by
  have hid := h id
  generalize (session_seqs seen id).length = n at hid
  rw [hid]
  cases n with
  | zero => rfl
  | succ n => simp [range_succ]

theorem Consecutive.next_seq_eq (h : Consecutive seen) (id : ℤ) :
    ((session_seqs seen id).getLast?.map (· + 1)).getD 0 = (session_seqs seen id).length := by
  rw [h.getLast? id]
  split_ifs with hz
  · simp [hz]
  · simp only [map_some, getD_some]
    omega

theorem Consecutive.append (h : Consecutive seen)
    (hb : ∀ producer id, b.payload = .http producer id →
      producer.seq = (session_seqs seen id).length) : Consecutive (seen ++ [b]) := by
  intro id
  rw [session_seqs_append]
  by_cases hmine : ∃ producer, b.payload = .http producer id
  · obtain ⟨producer, hp⟩ := hmine
    have hseq := hb producer id hp
    rw [session_seqs_single_http hp, length_append, length_singleton, range_succ,
      ← h id, hseq]
  · have hnil : session_seqs [b] id = [] :=
      session_seqs_single_of_ne fun producer he => hmine ⟨producer, he⟩
    rw [hnil, append_nil]
    exact h id

theorem Named.mono {session_ids' kafka_ids' : List ℤ} (h : Named session_ids kafka_ids b)
    (hs : session_ids ⊆ session_ids') (hk : kafka_ids ⊆ kafka_ids') :
    Named session_ids' kafka_ids' b := by
  unfold Named at h ⊢
  cases hp : b.payload with
  | plain => trivial
  | kafka producer =>
    rw [hp] at h
    exact hk h
  | http producer id =>
    rw [hp] at h
    exact hs h

theorem Keyed.mono {session_ids' kafka_ids' : List ℤ} (h : Keyed p session_ids kafka_ids)
    (hs : session_ids ⊆ session_ids') (hk : kafka_ids ⊆ kafka_ids') :
    Keyed p session_ids' kafka_ids' :=
  ⟨fun id http hget => hs (h.http id http hget),
    fun id tracked hget => (h.key id tracked hget).imp (fun h => hs h) (fun h => hk h),
    fun producer_id session hget => hs (h.session producer_id session hget)⟩

theorem KnowsKafka.mono {session_ids' : List ℤ} (h : KnowsKafka p session_ids seen)
    (hs : session_ids ⊆ session_ids') : KnowsKafka p session_ids' seen :=
  fun id hid => h id fun hmem => hid (hs hmem)

section

variable (h : Named session_ids kafka_ids b)
include h

theorem Named.http_mem {producer : Producer}
    (hb : b.payload = .http producer id) : id ∈ session_ids := by
  unfold Named at h
  rw [hb] at h
  exact h

theorem Named.kafka_mem {producer : NumericProducer}
    (hb : b.payload = .kafka producer) : producer.id ∈ kafka_ids := by
  unfold Named at h
  rw [hb] at h
  exact h

/-- A batch with a producer is of a session or of a Kafka client. -/
theorem Named.of_producer {producer : NumericProducer} (hb : b.payload.producer = some producer) :
    (∃ q, b.payload = .http q producer.id) ∧ producer.id ∈ session_ids ∨
      b.payload = .kafka producer ∧ producer.id ∈ kafka_ids := by
  cases hp : b.payload with
  | plain => simp [hp, Origin.producer] at hb
  | kafka q =>
    simp only [hp, Origin.producer, some.injEq] at hb
    subst hb
    exact .inr ⟨rfl, h.kafka_mem hp⟩
  | http q id =>
    simp only [hp, Origin.producer, some.injEq] at hb
    subst hb
    exact .inl ⟨⟨q, rfl⟩, h.http_mem hp⟩

theorem Named.session_ne (hdisj : ∀ id ∈ kafka_ids, id ∉ session_ids) (hid : id ∈ session_ids)
    (hne : ∀ producer, b.payload ≠ .http producer id) (producer : NumericProducer)
    (hp : b.payload.producer = some producer) : producer.id ≠ id := by
  rintro rfl
  rcases h.of_producer hp with ⟨⟨q, hq⟩, -⟩ | ⟨-, hkafka⟩
  · exact hne q hq
  · exact hdisj _ hkafka hid

theorem Named.kafka_ne (hid : id ∉ session_ids)
    (hne : ∀ producer, b.payload = .kafka producer → producer.id ≠ id) (producer : NumericProducer)
    (hp : b.payload.producer = some producer) : producer.id ≠ id := by
  rintro rfl
  rcases h.of_producer hp with ⟨-, hsession⟩ | ⟨hb, -⟩
  · exact hid hsession
  · exact hne producer hb rfl

end

theorem foldl_fold_sessions (l : List (Batch Origin)) (p : Producers) :
    (l.foldl (fun p b => p.fold b now_ms) p).sessions = p.sessions := by
  induction l generalizing p with
  | nil => rfl
  | cons b l ih => rw [foldl_cons, ih, fold_sessions]

theorem get_foldl_fold (l : List (Batch Origin)) (p : Producers)
    (h : ∀ b ∈ l, ∀ producer, b.payload.producer = some producer → producer.id ≠ id) :
    (l.foldl (fun p b => p.fold b now_ms) p).tracked.get id = p.tracked.get id := by
  induction l generalizing p with
  | nil => rfl
  | cons b l ih =>
    rw [foldl_cons, ih _ fun b' hb' => h b' (mem_cons_of_mem _ hb')]
    exact get_fold_of_ne (h b mem_cons_self)

theorem foldl_fold_of_none (l : List (Batch Origin)) (p : Producers)
    (h : ∀ b ∈ l, b.payload.producer = none) :
    l.foldl (fun p b => p.fold b now_ms) p = p := by
  induction l with
  | nil => rfl
  | cons b l ih =>
    rw [foldl_cons, fold_of_none (h b mem_cons_self)]
    exact ih fun b' hb' => h b' (mem_cons_of_mem _ hb')

section

include hk

theorem Keyed.fold (hb : Named session_ids kafka_ids b) :
    Keyed (p.fold b now_ms) session_ids kafka_ids := by
  have hget : ∀ {id tracked}, (p.fold b now_ms).tracked.get id = some tracked →
      p.tracked.get id = some tracked ∨
        ∃ producer, b.payload.producer = some producer ∧ producer.id = id := by
    intro id tracked hget
    by_cases hmine : ∃ producer, b.payload.producer = some producer ∧ producer.id = id
    · exact .inr hmine
    · rw [get_fold_of_ne fun producer hp he => hmine ⟨producer, hp, he⟩] at hget
      exact .inl hget
  refine ⟨fun id http h => ?_, fun id tracked h => ?_, fun producer_id session hs => ?_⟩
  · rcases hget h with hold | ⟨producer, hp, rfl⟩
    · exact hk.http _ _ hold
    · rcases http_of_fold hp h with ⟨http', hold⟩ | ⟨producer_id, session, hs, hid⟩
      · exact hk.http _ _ hold
      · exact hid ▸ hk.session _ _ hs
  · rcases hget h with hold | ⟨producer, hp, rfl⟩
    · exact hk.key _ _ hold
    · exact (hb.of_producer hp).imp And.right And.right
  · rw [fold_sessions] at hs
    exact hk.session _ _ hs

theorem KnowsHttp.fold (h : KnowsHttp p seen)
    (hdisj : ∀ id ∈ kafka_ids, id ∉ session_ids) (hb : Named session_ids kafka_ids b)
    (hcons : Consecutive (seen ++ [b])) : KnowsHttp (p.fold b now_ms) (seen ++ [b]) := by
  intro producer_id session hs
  rw [fold_sessions] at hs
  have hknown := h producer_id session hs
  rw [session_seqs_append]
  by_cases hmine : ∃ producer, b.payload = .http producer session.id
  · obtain ⟨producer, hp⟩ := hmine
    have hseq := hcons.seq_eq hp
    have hlast := hcons.of_append.getLast? session.id
    have hheader : b.payload.producer = some ⟨session.id, 0, header_seq producer.seq⟩ := by
      rw [hp]
      rfl
    rw [last_seq_fold hheader ⟨producer_id, session, hs, rfl⟩,
      session_seqs_single_http hp, getLast?_append, hknown, hlast]
    by_cases hzero : (session_seqs seen session.id).length = 0
    · rw [hzero] at hseq
      simp [hzero, hseq, header_seq, Metadata.asU64]
    · have hsucc : (session_seqs seen session.id).length - 1 + 1 = producer.seq := by omega
      simp only [hzero, if_false, getLast?_singleton, some_or, hsucc]
  · have hnil : session_seqs [b] session.id = [] :=
      session_seqs_single_of_ne fun producer he => hmine ⟨producer, he⟩
    rw [hnil, append_nil, ← hknown]
    exact last_seq_congr (get_fold_of_ne
      (hb.session_ne hdisj (hk.session _ _ hs) fun producer he => hmine ⟨producer, he⟩))

theorem KnowsKafka.fold (h : KnowsKafka p session_ids seen) (hb : Named session_ids kafka_ids b) :
    KnowsKafka (p.fold b now_ms) session_ids (seen ++ [b]) := by
  intro id hid
  have hknown := h id hid
  rw [kafka_spans_append]
  by_cases hmine : ∃ producer, b.payload = .kafka producer ∧ producer.id = id
  · obtain ⟨producer, hp, rfl⟩ := hmine
    have hheader : b.payload.producer = some producer := by
      rw [hp]
      rfl
    rw [remembered_fold hheader (fun http he => hid (hk.http _ _ he))
        fun producer_id session hs he => hid (he ▸ hk.session _ _ hs),
      kafka_spans_single hp, window_concat, hknown]
  · have hnil : kafka_spans [b] id = [] :=
      kafka_spans_single_of_ne fun producer hp he => hmine ⟨producer, hp, he⟩
    rw [hnil, append_nil, ← hknown]
    exact remembered_congr (get_fold_of_ne
      (hb.kafka_ne hid fun producer hp he => hmine ⟨producer, hp, he⟩))

/-! ## Taking over a part of the log -/

theorem Keyed.foldl
    (hl : ∀ b ∈ l, Named session_ids kafka_ids b) :
    Keyed (l.foldl (fun p b => p.fold b now_ms) p) session_ids kafka_ids := by
  induction l generalizing p with
  | nil => exact hk
  | cons b l ih =>
    exact ih (hk.fold (hl b mem_cons_self)) fun b' hb' => hl b' (mem_cons_of_mem _ hb')

theorem KnowsHttp.foldl (h : KnowsHttp p seen)
    (hdisj : ∀ id ∈ kafka_ids, id ∉ session_ids) (hl : ∀ b ∈ l, Named session_ids kafka_ids b)
    (hcons : Consecutive (seen ++ l)) :
    KnowsHttp (l.foldl (fun p b => p.fold b now_ms) p) (seen ++ l) := by
  induction l generalizing p seen with
  | nil =>
    rw [append_nil]
    exact h
  | cons b l ih =>
    have hb := hl b mem_cons_self
    rw [append_cons] at hcons ⊢
    exact ih (hk.fold hb) (h.fold hk hdisj hb hcons.of_append)
      (fun b' hb' => hl b' (mem_cons_of_mem _ hb')) hcons

theorem KnowsKafka.foldl (h : KnowsKafka p session_ids seen)
    (hl : ∀ b ∈ l, Named session_ids kafka_ids b) :
    KnowsKafka (l.foldl (fun p b => p.fold b now_ms) p) session_ids (seen ++ l) := by
  induction l generalizing p seen with
  | nil =>
    rw [append_nil]
    exact h
  | cons b l ih =>
    have hb := hl b mem_cons_self
    rw [append_cons]
    exact ih (hk.fold hb) (h.fold hk hb) fun b' hb' => hl b' (mem_cons_of_mem _ hb')

end

/-! ## Replaying -/

section replay

variable {stream : Stream} (hn : ∀ b ∈ stream.log.batches, Named session_ids kafka_ids b)
variable {q : Producers}

theorem replay_eq (h : stream.start_offset ≤ p.covered) :
    p.replay stream now_ms =
      { (stream.log.fetch p.covered stream.confirm_offset).foldl
          (fun p b => p.fold b now_ms) p with covered := stream.confirm_offset } := by
  simp [Producers.replay, Nat.max_eq_left h]

theorem replay_sessions : (p.replay stream now_ms).sessions = p.sessions :=
  foldl_fold_sessions _ _

include hk hn

theorem Keyed.replay : Keyed (p.replay stream now_ms) session_ids kafka_ids := by
  have hfold : Keyed ((stream.log.fetch (max p.covered stream.start_offset)
      stream.confirm_offset).foldl (fun p b => p.fold b now_ms) p) session_ids kafka_ids :=
    hk.foldl fun b hb => hn b (mem_of_mem_filter hb)
  exact ⟨hfold.http, hfold.key, hfold.session⟩

/-- A replay makes up for the Kafka batches that were not covered. -/
theorem KnowsKafka.replay (h : KnowsKafka p session_ids (stream.log.below p.covered))
    (hstart : stream.start_offset ≤ p.covered) (hb : stream.log.IsBoundary p.covered)
    (hle : p.covered ≤ stream.confirm_offset) :
    KnowsKafka (p.replay stream now_ms) session_ids (stream.log.below stream.confirm_offset) := by
  rw [replay_eq hstart, ← BatchLog.below_append_fetch hb hle]
  exact h.foldl hk fun b hb => hn b (mem_of_mem_filter hb)

/-- A replay makes up for the session batches that were not covered. -/
theorem KnowsHttp.replay (h : KnowsHttp p (stream.log.below p.covered))
    (hdisj : ∀ id ∈ kafka_ids, id ∉ session_ids) (hcons : Consecutive stream.log.batches)
    (hstart : stream.start_offset ≤ p.covered) (hb : stream.log.IsBoundary p.covered)
    (hle : p.covered ≤ stream.confirm_offset) :
    KnowsHttp (p.replay stream now_ms) (stream.log.below stream.confirm_offset) := by
  rw [← BatchLog.below_append_since stream.log stream.confirm_offset] at hcons
  have hcons' := hcons.of_append
  rw [replay_eq hstart]
  rw [← BatchLog.below_append_fetch hb hle] at hcons' ⊢
  exact h.foldl hk hdisj (fun b hb => hn b (mem_of_mem_filter hb)) hcons'

end replay

/-! ## Seeing an append -/

theorem KnowsHttp.congr (h : KnowsHttp p seen) (ht : q.tracked = p.tracked)
    (hs : q.sessions = p.sessions) : KnowsHttp q seen := by
  intro producer_id session hget
  rw [hs] at hget
  rw [last_seq_congr (congrArg (fun m => OrdMap.get m session.id) ht)]
  exact h producer_id session hget

theorem KnowsKafka.congr (h : KnowsKafka p session_ids seen)
    (ht : q.tracked = p.tracked) : KnowsKafka q session_ids seen := by
  intro id hid
  rw [remembered_congr (congrArg (fun m => OrdMap.get m id) ht)]
  exact h id hid

theorem Keyed.congr (h : Keyed p session_ids kafka_ids)
    (ht : q.tracked = p.tracked) (hs : q.sessions = p.sessions) : Keyed q session_ids kafka_ids :=
  ⟨by rw [ht]; exact h.http, by rw [ht]; exact h.key, by rw [hs]; exact h.session⟩

def DistinctSessions (sessions : OrdMap String Session) : Prop :=
  ∀ producer_id session producer_id' session', sessions.get producer_id = some session →
    sessions.get producer_id' = some session' → session.id = session'.id →
      producer_id = producer_id'

section establish

variable {producer_id : String} {session : Session}

theorem session_seqs_fresh (hn : ∀ b ∈ seen, Named session_ids kafka_ids b)
    (hs : id ∉ session_ids) : session_seqs seen id = [] :=
  session_seqs_eq_nil fun b hb _ hp => hs ((hn b hb).http_mem hp)

theorem DistinctSessions.insert {sessions : OrdMap String Session} (h : DistinctSessions sessions)
    (hk : ∀ producer_id session, sessions.get producer_id = some session →
      session.id ∈ session_ids) (hs : session.id ∉ session_ids) :
    DistinctSessions (sessions.insert producer_id session) := by
  intro id₁ s₁ id₂ s₂ h₁ h₂ he
  simp only [get_insert] at h₁ h₂
  split_ifs at h₁ h₂ with hid₁ hid₂
  · rw [hid₁, hid₂]
  · cases h₁
    exact absurd (he ▸ hk _ _ h₂) hs
  · cases h₂
    exact absurd (he ▸ hk _ _ h₁) hs
  · exact h _ _ _ _ h₁ h₂ he

include hk

theorem Keyed.get_fresh (hs : id ∉ session_ids)
    (hq : id ∉ kafka_ids) : p.tracked.get id = none := by
  cases hget : p.tracked.get id with
  | none => rfl
  | some tracked => exact absurd (hk.key id tracked hget) (by simp [hs, hq])

theorem KnowsHttp.put_session (h : KnowsHttp p seen)
    (hn : ∀ b ∈ seen, Named session_ids kafka_ids b) (hs : session.id ∉ session_ids)
    (hq : session.id ∉ kafka_ids) :
    KnowsHttp { p with sessions := p.sessions.insert producer_id session } seen := by
  intro producer_id' session' hget
  simp only [get_insert] at hget
  split_ifs at hget with hid
  · cases hget
    rw [session_seqs_fresh hn hs]
    simp [Producers.last_seq, hk.get_fresh hs hq]
  · exact h producer_id' session' hget

theorem KnowsHttp.establish (h : KnowsHttp p seen)
    (hn : ∀ b ∈ seen, Named session_ids kafka_ids b) (hs : session.id ∉ session_ids)
    (hd : DistinctSessions p.sessions) :
    KnowsHttp (p.establish producer_id session now_ms) seen := by
  intro producer_id' session' hget
  simp only [Producers.establish, get_insert] at hget
  split_ifs at hget with hid
  · cases hget
    rw [session_seqs_fresh hn hs, last_seq_of_http (get_establish_self _ _)]
    rfl
  · have hne : session.id ≠ session'.id := fun he => hs (he ▸ hk.session _ _ hget)
    rw [last_seq_congr (get_establish_of_ne hne fun previous hp he =>
      hid (hd _ _ _ _ hget hp he.symm))]
    exact h producer_id' session' hget

theorem KnowsKafka.establish (h : KnowsKafka p session_ids seen) :
    KnowsKafka (p.establish producer_id session now_ms) (session.id :: session_ids) seen := by
  intro id hid
  obtain ⟨hne, hmem⟩ := not_or.1 (mem_cons.not.1 hid)
  rw [remembered_congr (get_establish_of_ne (fun he => hne he.symm)
    fun previous hp he => hmem (he ▸ hk.session _ _ hp))]
  exact h id hmem

theorem Keyed.establish :
    Keyed (p.establish producer_id session now_ms) (session.id :: session_ids) kafka_ids := by
  have hget : ∀ {id tracked},
      (p.establish producer_id session now_ms).tracked.get id = some tracked →
        id ∈ session.id :: session_ids ∨ p.tracked.get id = some tracked := by
    intro id tracked hget
    by_cases hid : id ∈ session.id :: session_ids
    · exact .inl hid
    · obtain ⟨hne, hmem⟩ := not_or.1 (mem_cons.not.1 hid)
      rw [get_establish_of_ne (fun he => hne he.symm)
        fun previous hp he => hmem (he ▸ hk.session _ _ hp)] at hget
      exact .inr hget
  refine ⟨fun id http h => ?_, fun id tracked h => ?_, fun producer_id' session' h => ?_⟩
  · exact (hget h).elim (fun hmem => hmem) fun hold => mem_cons_of_mem _ (hk.http _ _ hold)
  · exact (hget h).elim .inl fun hold =>
      (hk.key _ _ hold).imp (fun hmem => mem_cons_of_mem _ hmem) (fun hmem => hmem)
  · simp only [Producers.establish, get_insert] at h
    split_ifs at h with hid
    · cases h
      exact mem_cons_self
    · exact mem_cons_of_mem _ (hk.session _ _ h)

end establish

section record

variable {producer_id : String} {session : Session} {producer : Producer}

theorem KnowsHttp.record_http (h : KnowsHttp p seen) (hb : b.payload = .http producer session.id) :
    KnowsHttp (p.record_http session producer.seq now_ms) (seen ++ [b]) := by
  intro producer_id' session' hget
  rw [session_seqs_append]
  by_cases hid : session'.id = session.id
  · have hself : (p.record_http session producer.seq now_ms).tracked.get session.id =
        some (.http ⟨some producer.seq, now_ms⟩) := by
      rw [get_record_http, if_pos rfl]
    rw [hid, session_seqs_single_http hb, last_seq_of_http hself]
    simp
  · have hnil : session_seqs [b] session'.id = [] := by
      refine session_seqs_single_of_ne fun q hq => hid ?_
      rw [hb] at hq
      exact (Origin.http.inj hq).2.symm
    have hother : (p.record_http session producer.seq now_ms).tracked.get session'.id =
        p.tracked.get session'.id := by
      rw [get_record_http, if_neg hid]
    rw [hnil, append_nil, last_seq_congr hother]
    exact h producer_id' session' hget

theorem KnowsKafka.record_http (h : KnowsKafka p session_ids seen)
    (hb : b.payload = .http producer session.id) (hs : session.id ∈ session_ids) :
    KnowsKafka (p.record_http session producer.seq now_ms) session_ids (seen ++ [b]) := by
  intro id hid
  have hnil : kafka_spans [b] id = [] := kafka_spans_single_of_ne fun q hq => by
    rw [hb] at hq
    cases hq
  have hother : (p.record_http session producer.seq now_ms).tracked.get id = p.tracked.get id := by
    rw [get_record_http, if_neg fun he : id = session.id => hid (he ▸ hs)]
  rw [kafka_spans_append, hnil, append_nil, remembered_congr hother]
  exact h id hid

theorem Keyed.record_http {seq : ℕ} (hk : Keyed p session_ids kafka_ids)
    (hs : session.id ∈ session_ids) :
    Keyed (p.record_http session seq now_ms) session_ids kafka_ids := by
  refine ⟨fun id http h => ?_, fun id tracked h => ?_, hk.session⟩
  · rw [get_record_http] at h
    split_ifs at h with hid
    · exact hid ▸ hs
    · exact hk.http _ _ h
  · rw [get_record_http] at h
    split_ifs at h with hid
    · exact .inl (hid ▸ hs)
    · exact hk.key _ _ h

end record

section kafka

variable {producer : NumericProducer}

include hk

theorem KnowsKafka.record_numeric (h : KnowsKafka p session_ids seen)
    (hb : b.payload = .kafka producer) :
    KnowsKafka (p.record_numeric
      (some (producer, next_seq producer.first_seq (b.record_count - 1))) b.base_offset now_ms)
      session_ids (seen ++ [b]) := by
  intro id hid
  rw [kafka_spans_append]
  by_cases hmine : producer.id = id
  · subst hmine
    rw [remembered_record_numeric fun http he => hid (hk.http _ _ he),
      kafka_spans_single hb, window_concat, h _ hid]
  · have hnil : kafka_spans [b] id = [] := kafka_spans_single_of_ne fun q hq => by
      rw [hb] at hq
      cases hq
      exact hmine
    rw [hnil, append_nil,
      remembered_congr (get_record_numeric_of_ne hmine)]
    exact h id hid

omit hk in
theorem KnowsHttp.record_numeric {last : ℤ} {base : ℕ} (h : KnowsHttp p seen)
    (hs : ∀ producer_id session, p.sessions.get producer_id = some session →
      producer.id = session.id → ∃ http, p.tracked.get producer.id = some (.http http))
    (hb : b.payload = .kafka producer) :
    KnowsHttp (p.record_numeric (some (producer, last)) base now_ms) (seen ++ [b]) := by
  intro producer_id session hget
  rw [record_numeric_sessions] at hget
  have hnil : session_seqs [b] session.id = [] := session_seqs_single_of_ne fun q hq => by
    rw [hb] at hq
    cases hq
  have hsame : (p.record_numeric (some (producer, last)) base now_ms).last_seq session.id =
      p.last_seq session.id := by
    by_cases hid : producer.id = session.id
    · obtain ⟨http, hhttp⟩ := hs _ _ hget hid
      rw [record_numeric_of_http hhttp]
    · exact last_seq_congr (get_record_numeric_of_ne hid)
  rw [session_seqs_append, hnil, append_nil, hsame]
  exact h producer_id session hget

theorem Keyed.record_numeric {last : ℤ} {base : ℕ} (hq : producer.id ∈ kafka_ids) :
    Keyed (p.record_numeric (some (producer, last)) base now_ms) session_ids kafka_ids := by
  by_cases hhttp : ∃ http, p.tracked.get producer.id = some (.http http)
  · obtain ⟨http, hhttp⟩ := hhttp
    rw [record_numeric_of_http hhttp]
    exact hk
  have hnot : ∀ http, p.tracked.get producer.id ≠ some (.http http) :=
    fun http he => hhttp ⟨http, he⟩
  refine ⟨fun id http h => ?_, fun id tracked h => ?_, fun producer_id session h => ?_⟩
  · by_cases hid : producer.id = id
    · subst hid
      have hnone : (p.record_numeric (some (producer, last)) base now_ms).remembered producer.id =
          none := by
        simp [Producers.remembered, Producers.known, h]
      rw [remembered_record_numeric hnot] at hnone
      cases hnone
    · rw [get_record_numeric_of_ne hid] at h
      exact hk.http _ _ h
  · by_cases hid : producer.id = id
    · exact .inr (hid ▸ hq)
    · rw [get_record_numeric_of_ne hid] at h
      exact hk.key _ _ h
  · rw [record_numeric_sessions] at h
    exact hk.session _ _ h

end kafka

theorem KnowsHttp.append_plain (h : KnowsHttp p seen) (hb : b.payload = .plain) :
    KnowsHttp p (seen ++ [b]) := by
  intro producer_id session hget
  have hnil : session_seqs [b] session.id = [] := session_seqs_single_of_ne fun q hq => by
    rw [hb] at hq
    cases hq
  rw [session_seqs_append, hnil, append_nil]
  exact h producer_id session hget

theorem KnowsKafka.append_plain (h : KnowsKafka p session_ids seen) (hb : b.payload = .plain) :
    KnowsKafka p session_ids (seen ++ [b]) := by
  intro id hid
  have hnil : kafka_spans [b] id = [] := kafka_spans_single_of_ne fun q hq => by
    rw [hb] at hq
    cases hq
  rw [kafka_spans_append, hnil, append_nil]
  exact h id hid

end knowledge

end PicoMq.Server
