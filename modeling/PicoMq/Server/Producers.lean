import Mathlib.Data.String.Basic
import PicoMq.Library.BatchLog
import PicoMq.Library.OrdMap
import PicoMq.Metadata.Engine

/-!
# Producer state

The idempotent producers of one stream, as its owner at one epoch knows them: Kafka producers and
HTTP sessions, rebuilt from the batches in the log past `covered`.
-/

namespace PicoMq.Server

open Metadata

def SPAN_WINDOW : ℕ := 5

def EXPIRY_MS : ℤ := 24 * 60 * 60 * 1000

def MAX_TRACKED : ℕ := 1024

def SEQ_SPACE : ℕ := 2 ^ 31

/-! ## Requests and what is kept of them -/

/-- The producer that an HTTP append names. -/
structure Producer where
  producer_id : String
  epoch : ℕ
  seq : ℕ
deriving DecidableEq, Repr

/-- The producer in the header of a Kafka batch. -/
structure NumericProducer where
  id : ℤ
  epoch : ℤ
  first_seq : ℤ
deriving DecidableEq, Repr

/-- An HTTP producer's current epoch and the numeric id its batches carry. -/
structure Session where
  epoch : ℕ
  id : ℤ
deriving DecidableEq, Repr

/-- The sequences of a batch, and where it is. -/
structure Span where
  first_seq : ℤ
  last_seq : ℤ
  base_offset : ℕ
deriving DecidableEq, Repr

/-- What is kept of a Kafka producer: its last batches. -/
structure Kafka where
  epoch : ℤ := 0
  spans : List Span := []
  last_touched_ms : ℤ := 0
deriving DecidableEq, Repr

def Kafka.record (kafka : Kafka) (epoch : ℤ) (span : Span) (now_ms : ℤ) : Kafka :=
  let spans := (if epoch ≠ kafka.epoch then [] else kafka.spans) ++ [span]
  { epoch
    spans := if spans.length > SPAN_WINDOW then spans.drop 1 else spans
    last_touched_ms := now_ms }

/-- What a batch adds to the epoch and the spans that are known of its producer. -/
def push (known : Option (ℤ × List Span)) (epoch : ℤ) (span : Span) : ℤ × List Span :=
  let spans := (known.elim [] fun k => if epoch ≠ k.1 then [] else k.2) ++ [span]
  (epoch, if spans.length > SPAN_WINDOW then spans.drop 1 else spans)

/-- What is kept of an HTTP session. -/
structure Http where
  last_seq : Option ℕ
  last_touched_ms : ℤ
deriving DecidableEq, Repr

inductive Tracked where
  | kafka (kafka : Kafka)
  | http (http : Http)
deriving DecidableEq, Repr

def Tracked.last_touched_ms : Tracked → ℤ
  | .kafka k => k.last_touched_ms
  | .http h => h.last_touched_ms

/-- The answer to an HTTP producer. -/
inductive ProducerDecision where
  | accepted (epoch seq : ℕ)
  | duplicate (last_seq : ℕ)
  | staleEpoch (current_epoch : ℕ)
  | invalidEpochSeq
  | sequenceGap (expected received : ℕ)
deriving DecidableEq, Repr

inductive Admission where
  | accepted (accepted : Option (NumericProducer × ℤ))
  | duplicate (base_offset : ℕ)
deriving DecidableEq, Repr

/-- The errors that admission of a batch answers with. -/
inductive ServiceError where
  | fenced (current_epoch : ℕ)
  | sequence_gap (expected received : ℕ)
deriving DecidableEq, Repr

/-! ## Sequences -/

/-- The sequence an HTTP session's batch carries in the 31-bit header field. -/
def header_seq (seq : ℕ) : ℤ := (seq % SEQ_SPACE : ℕ)

/-- Kafka sequences occupy `[0, i32::MAX]` and wrap to 0. -/
def next_seq (seq : ℤ) (increment : ℕ) : ℤ := (seq + increment).tmod SEQ_SPACE

inductive Decision where
  | accepted
  | duplicate (base_offset : ℕ)
  | outOfOrder (expected received : ℤ)
  | fenced (current_epoch : ℤ)
deriving DecidableEq, Repr

/-- Decision table per Kafka's ProducerStateManager. -/
def validate_numeric (known : Option Kafka) (epoch first_seq last_seq : ℤ) : Decision :=
  match known with
  | none => if first_seq ≠ 0 then .outOfOrder 0 first_seq else .accepted
  | some state =>
    if epoch < state.epoch then .fenced state.epoch
    else if epoch > state.epoch then
      if first_seq ≠ 0 then .outOfOrder 0 first_seq else .accepted
    else
      match state.spans.find? fun s => s.first_seq = first_seq ∧ s.last_seq = last_seq with
      | some span => .duplicate span.base_offset
      | none =>
        let expected := (state.spans.getLast?.map fun s => next_seq s.last_seq 1).getD 0
        if first_seq = expected then .accepted else .outOfOrder expected first_seq

/-! ## What the log holds -/

/-- Where the records of an append come from. Of this the log keeps the producer in the header. -/
inductive Origin where
  /-- Records without a producer. -/
  | plain
  | kafka (producer : NumericProducer)
  /-- An accepted append of an HTTP producer whose session has the numeric id `id`. -/
  | http (producer : Producer) (id : ℤ)
deriving DecidableEq, Repr

/-- The producer in the header of the batch. -/
def Origin.producer : Origin → Option NumericProducer
  | .plain => none
  | .kafka producer => some producer
  | .http producer id => some { id, epoch := 0, first_seq := header_seq producer.seq }

/-- A stream as its owner holds it, with every append, the ones in flight included. -/
structure Stream where
  start_offset : ℕ := 0
  confirm_offset : ℕ := 0
  log : BatchLog Origin := .empty

/-- The state of an owner that is written to its row from time to time. -/
structure Checkpoint where
  covered : ℕ
  tracked : OrdMap ℤ Tracked
deriving DecidableEq

/-- The memory of an owner. It has seen the log up to `covered`. -/
structure Producers where
  epoch : ℕ
  covered : ℕ
  tracked : OrdMap ℤ Tracked := .empty
  sessions : OrdMap String Session := .empty
deriving DecidableEq

namespace Producers

/-! ## Loading -/

/-- What a new owner knows before any replay. -/
def load (epoch : ℕ) (stream : Stream) (checkpoint : Option Checkpoint)
    (sessions : OrdMap String Session) : Producers :=
  let loaded : Producers := { epoch, covered := stream.start_offset, sessions }
  match checkpoint with
  | none => loaded
  | some checkpoint =>
    if checkpoint.covered ≤ stream.confirm_offset then
      { loaded with
        covered := max checkpoint.covered loaded.covered, tracked := checkpoint.tracked }
    else loaded

variable (self : Producers)

def checkpoint : Checkpoint := ⟨self.covered, self.tracked⟩

/-! ## HTTP sessions -/

def session (producer_id : String) : Option Session :=
  self.sessions.get producer_id

def new_epoch (producer : Producer) : ProducerDecision :=
  if producer.seq ≠ 0 then .invalidEpochSeq else .accepted producer.epoch producer.seq

/-- The last sequence of the session with this numeric id. -/
def last_seq (id : ℤ) : Option ℕ :=
  match self.tracked.get id with
  | some (.http http) => http.last_seq
  | _ => none

/-- A session accepts the next sequence at its epoch, and 0 at a new one. -/
def decide (producer : Producer) : ProducerDecision :=
  match self.session producer.producer_id with
  | none => new_epoch producer
  | some session =>
    if producer.epoch < session.epoch then .staleEpoch session.epoch
    else if producer.epoch > session.epoch then new_epoch producer
    else
      match self.last_seq session.id with
      | some last_seq =>
        if producer.seq ≤ last_seq then .duplicate last_seq
        else if producer.seq = last_seq + 1 then .accepted producer.epoch producer.seq
        else .sequenceGap (last_seq + 1) producer.seq
      | none =>
        if producer.seq = 0 then .accepted producer.epoch producer.seq
        else .sequenceGap 0 producer.seq

/-- A producer's new epoch. The previous epoch's id is forgotten with it. -/
def establish (producer_id : String) (session : Session) (now_ms : ℤ) :
    Producers :=
  let tracked := match self.sessions.get producer_id with
    | some previous => self.tracked.remove previous.id
    | none => self.tracked
  { self with
    sessions := self.sessions.insert producer_id session
    tracked := tracked.insert session.id (.http ⟨none, now_ms⟩) }

def record_http (session : Session) (seq : ℕ) (now_ms : ℤ) : Producers :=
  { self with tracked := self.tracked.insert session.id (.http ⟨some seq, now_ms⟩) }

/-! ## Kafka producers -/

/-- What is known of the Kafka producer with this id. -/
def known (id : ℤ) : Option Kafka :=
  match self.tracked.get id with
  | some (.kafka kafka) => some kafka
  | _ => none

/-- What is known of a Kafka producer, without the time it was last seen. -/
def remembered (id : ℤ) : Option (ℤ × List Span) :=
  (self.known id).map fun kafka => (kafka.epoch, kafka.spans)

/-- A batch that is held already is a duplicate, and its producer is touched. -/
def admit_numeric (producer : Option NumericProducer) (record_count : ℕ)
    (now_ms : ℤ) : Producers × Except ServiceError Admission :=
  match producer with
  | none => (self, .ok (.accepted none))
  | some producer =>
    let last_seq := next_seq producer.first_seq (record_count - 1)
    match validate_numeric (self.known producer.id) producer.epoch producer.first_seq last_seq with
    | .accepted => (self, .ok (.accepted (some (producer, last_seq))))
    | .duplicate base_offset =>
      (match self.known producer.id with
        | some kafka =>
          { self with
            tracked := self.tracked.insert producer.id
              (.kafka { kafka with last_touched_ms := now_ms }) }
        | none => self,
       .ok (.duplicate base_offset))
    | .fenced current_epoch => (self, .error (.fenced (asU64 current_epoch)))
    | .outOfOrder expected received =>
      (self, .error (.sequence_gap (asU64 expected) (asU64 received)))

/-- An accepted batch is kept, unless its id is that of a session. -/
def record_numeric (accepted : Option (NumericProducer × ℤ))
    (base_offset : ℕ) (now_ms : ℤ) : Producers :=
  match accepted with
  | none => self
  | some (producer, last_seq) =>
    let span : Span := { first_seq := producer.first_seq, last_seq, base_offset }
    match self.tracked.get producer.id with
    | some (.http _) => self
    | some (.kafka kafka) =>
      { self with
        tracked := self.tracked.insert producer.id
          (.kafka (kafka.record producer.epoch span now_ms)) }
    | none =>
      { self with
        tracked := self.tracked.insert producer.id
          (.kafka (({} : Kafka).record producer.epoch span now_ms)) }

/-! ## Replay -/

/-- Whether state is behind the log: at load for any known producer or session, later for a Kafka
producer's first batch. -/
def replay_needed (producer : Option NumericProducer) (durable_end : ℕ) : Bool :=
  (producer.isSome || !self.tracked.entries.isEmpty || !self.sessions.entries.isEmpty) &&
    self.covered < durable_end

/-- Takes over the producer of one batch of the log. -/
def fold (batch : Batch Origin) (now_ms : ℤ) : Producers :=
  match batch.payload.producer with
  | none => self
  | some producer =>
    match self.tracked.get producer.id with
    | some (.http http) =>
      let last_seq := match http.last_seq with
        | some last => last + 1
        | none => asU64 producer.first_seq
      { self with
        tracked := self.tracked.insert producer.id (.http ⟨some last_seq, now_ms⟩) }
    | _ =>
      if self.sessions.values.any fun session => session.id = producer.id then
        { self with
          tracked := self.tracked.insert producer.id
            (.http ⟨some (asU64 producer.first_seq), now_ms⟩) }
      else
        let last_seq := next_seq producer.first_seq (batch.record_count - 1)
        self.record_numeric (some (producer, last_seq)) batch.base_offset now_ms

/-- Takes over the durable batches from `covered` on. -/
def replay (stream : Stream) (now_ms : ℤ) : Producers :=
  let durable_end := stream.confirm_offset
  let cursor := max self.covered stream.start_offset
  let replayed := (stream.log.fetch cursor durable_end).foldl (fun self b => self.fold b now_ms) self
  { replayed with covered := durable_end }

/-- A batch landed at `base_offset`. State stays complete only while every batch is seen in order.
-/
def note_appended (base_offset next_offset : ℕ) : Producers :=
  if self.covered = base_offset then { self with covered := next_offset } else self

/-! ## Expiry -/

/-- The least recently touched producer, the first one where several are. -/
def stalest (tracked : OrdMap ℤ Tracked) : Option ℤ :=
  (tracked.entries.foldl (fun least e =>
    match least with
    | some l => if e.2.last_touched_ms < l.2.last_touched_ms then some e else some l
    | none => some e) none).map Prod.fst

/-- Drops the stalest producers beyond `MAX_TRACKED`. -/
def evict (tracked : OrdMap ℤ Tracked) : ℕ → OrdMap ℤ Tracked
  | 0 => tracked
  | excess + 1 =>
    match stalest tracked with
    | some id => evict (tracked.remove id) excess
    | none => tracked

/-- Drops producers idle past `EXPIRY_MS`, then the stalest beyond `MAX_TRACKED`. -/
def expire (now_ms : ℤ) : Producers × List String :=
  let tracked := self.tracked.retain fun id =>
    (self.tracked.get id).any fun tracked => now_ms - tracked.last_touched_ms ≤ EXPIRY_MS
  let tracked := evict tracked (tracked.entries.length - MAX_TRACKED)
  let expired := (self.sessions.entries.filter fun e => !tracked.contains_key e.2.id).map Prod.fst
  ({ self with
      tracked, sessions := expired.foldl (fun sessions id => sessions.remove id) self.sessions },
   expired)

end Producers

end PicoMq.Server
