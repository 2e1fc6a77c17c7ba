import PicoMq.Server.Ownership

/-!
# Recovering the producer state

A new owner loads the checkpoint and the session rows and replays the durable log from where the
checkpoint ends. Nothing is decided on times and the stream epoch, which the observer has at 0.
-/

namespace PicoMq.Server

/-! ## Observing appends -/

variable (batches : List (Batch Origin))

def session_ids_of : List ℤ :=
  batches.filterMap fun b =>
    match b.payload with
    | .http _ id => some id
    | _ => none

/-- The ids of the Kafka producers that have batches. -/
def kafka_ids_of : List ℤ :=
  batches.filterMap fun b =>
    match b.payload with
    | .kafka producer => some producer.id
    | _ => none

/-- The memory of an owner after it has accepted this batch. -/
def Producers.observe (self : Producers) (b : Batch Origin) (now_ms : ℤ) : Producers :=
  match b.payload with
  | .plain => self.note_appended b.base_offset b.last_offset
  | .kafka producer =>
    let last_seq := next_seq producer.first_seq (b.record_count - 1)
    (self.record_numeric (some (producer, last_seq)) b.base_offset now_ms).note_appended
      b.base_offset b.last_offset
  | .http producer id =>
    let session := Partition.session_for self producer id
    Partition.recorded self producer session.1 session.2 b.base_offset b.last_offset now_ms

/-- The memory of an owner that has accepted exactly these batches. -/
def observer : Producers :=
  batches.foldl (fun p b => p.observe b 0) { epoch := 0, covered := 0 }

/-- The owner lets the batch in. A new session has an id that no session had before. -/
def LetsIn (p : Producers) (seen : List (Batch Origin)) (b : Batch Origin) : Prop :=
  match b.payload with
  | .plain => True
  | .kafka producer =>
    validate_numeric (p.known producer.id) producer.epoch producer.first_seq
      (next_seq producer.first_seq (b.record_count - 1)) = .accepted
  | .http producer id =>
    p.decide producer = .accepted producer.epoch producer.seq ∧
      (Partition.session_for p producer id).1.id = id ∧
      ((Partition.session_for p producer id).2 = true → id ∉ session_ids_of seen)

/-- After the batches it has seen, the owner lets in the rest, one after the other. -/
def LetsInFrom (p : Producers) (seen : List (Batch Origin)) : List (Batch Origin) → Prop
  | [] => True
  | b :: l => LetsIn p seen b ∧ LetsInFrom (p.observe b 0) (seen ++ [b]) l

/-- The batches were accepted one after the other. -/
def InTurn : Prop := LetsInFrom (observer []) [] batches

instance (p : Producers) (seen : List (Batch Origin)) : DecidablePred (LetsIn p seen) := fun b =>
  match h : b.payload with
  | .plain => isTrue (by unfold LetsIn; rw [h]; trivial)
  | .kafka producer =>
    decidable_of_iff (validate_numeric (p.known producer.id) producer.epoch producer.first_seq
      (next_seq producer.first_seq (b.record_count - 1)) = .accepted) (by unfold LetsIn; rw [h])
  | .http producer id =>
    decidable_of_iff (p.decide producer = .accepted producer.epoch producer.seq ∧
      (Partition.session_for p producer id).1.id = id ∧
      ((Partition.session_for p producer id).2 = true → id ∉ session_ids_of seen))
      (by unfold LetsIn; rw [h])

instance decidableLetsInFrom (p : Producers) (seen : List (Batch Origin)) :
    DecidablePred (LetsInFrom p seen)
  | [] => inferInstanceAs (Decidable True)
  | b :: l =>
    have := decidableLetsInFrom (p.observe b 0) (seen ++ [b]) l
    inferInstanceAs (Decidable (_ ∧ _))

instance : DecidablePred InTurn := fun _ => inferInstanceAs (Decidable (LetsInFrom _ _ _))

/-! ## What is recovered -/

/-- The producers in the headers that carry this id, whoever sent the batch, with the span of each. -/
def header_spans (id : ℤ) : List (ℤ × Span) :=
  batches.filterMap fun b =>
    match b.payload.producer with
    | some producer =>
      if producer.id = id then
        some (producer.epoch,
          { first_seq := producer.first_seq
            last_seq := next_seq producer.first_seq (b.record_count - 1)
            base_offset := b.base_offset })
      else none
    | none => none

/-- Where the window has the batch with these sequences. -/
def held_at (spans : List Span) (first_seq : ℤ) (record_count : ℕ) : Option ℕ :=
  (spans.find? fun s => s.first_seq = first_seq ∧
    s.last_seq = next_seq first_seq (record_count - 1)).map (·.base_offset)

/-- The sequence after the batches of the window. -/
def expected_seq (spans : List Span) : ℤ :=
  (spans.getLast?.map fun s => next_seq s.last_seq 1).getD 0

/-- What a window tells of the batches to come: its epoch, the sequence that is next, and where each
batch is that it holds. -/
def tells (window : Option (ℤ × List Span)) : Option (ℤ × ℤ × (ℤ → ℕ → Option ℕ)) :=
  window.map fun known => (known.1, expected_seq known.2, held_at known.2)

namespace Partition

variable (s : Partition)

/-- A stream whose owner is gone, with every append durable. The rows may be any. -/
structure Left : Prop where
  memory : s.producers = none
  durable : s.stream.confirm_offset = s.stream.log.next_offset
  accepted : InTurn s.stream.log.batches

/-- What a new owner has from the rows. -/
def at_load : Producers :=
  Producers.load s.epoch s.stream s.checkpoint s.sessions

/-- The batches that it reads. -/
def replayed : List (Batch Origin) :=
  s.stream.log.fetch s.at_load.covered s.stream.confirm_offset

/-- The last sequence under a session's id: the batches that carry the id are counted, on from the
checkpoint or else from the header of the first one. -/
def counted_seq (id : ℤ) : Option ℕ :=
  let spans := header_spans s.replayed id
  match s.at_load.last_seq id with
  | some last => some (last + spans.length)
  | none => spans.head?.map fun first => Metadata.asU64 first.2.first_seq + (spans.length - 1)

/-- The window under a Kafka client's id: the batches that carry the id extend the checkpoint's. An
id that is taken for a session's has none. -/
def extended_window (id : ℤ) : Option (ℤ × List Span) :=
  let spans := header_spans s.replayed id
  match s.at_load.tracked.get id with
  | some (.http _) => none
  | _ =>
    if spans ≠ [] ∧ s.sessions.values.any (fun session => session.id = id) then none
    else spans.foldl (fun known span => some (push known span.1 span.2)) (s.at_load.remembered id)

/-- The row of the producer's session has its epoch, and under the id of the row the sequence of its
last append is counted. A producer without a session has no row. -/
def SessionRecovered (producer_id : String) : Prop :=
  match (observer s.stream.log.batches).session producer_id, s.sessions.get producer_id with
  | none, none => True
  | some session, some row => row.epoch = session.epoch ∧
      s.counted_seq row.id = (session_seqs s.stream.log.batches session.id).getLast?
  | _, _ => False

/-- What a Kafka batch is answered by an owner with this memory. -/
def admission (producers : Producers) (producer : NumericProducer) (record_count : ℕ) :
    Except ServiceError Admission :=
  (producers.admit_numeric (some producer) record_count 0).2

end Partition

end PicoMq.Server
