import Mathlib.Data.List.DropRight
import PicoMq.Server.Producers

/-!
# One stream and its owners

Requests are handled one at a time; durability follows later and in offset order. When the stream is
opened again, what was in flight is gone and so is the memory.
-/

namespace PicoMq.Server

/-- What a request is answered. -/
inductive Reply where
  /-- Submitted at this offset; the client hears of it when the batch is durable. -/
  | submitted (base_offset : ℕ)
  | decided (decision : ProducerDecision)
  | duplicate (base_offset : ℕ)
  | error (error : ServiceError)
  /-- No records. -/
  | badRequest
deriving DecidableEq, Repr

/-- What happens to the stream next. -/
inductive Action where
  /-- An HTTP append. `new_id` is the id that is allocated if a session has to be established. -/
  | http (producer : Option Producer) (record_count : ℕ) (new_id : ℤ) (now_ms : ℤ)
  /-- A Kafka produce request. -/
  | produce (producer : Option NumericProducer) (record_count : ℕ) (now_ms : ℤ)
  /-- The next batch in flight becomes durable, and its client is told. -/
  | durable
  /-- The memory is written to the checkpoint row. -/
  | checkpoint
  /-- The rows of expired sessions are removed. -/
  | forget
  /-- The stream is opened at the next epoch, after a failure or by its next owner. -/
  | reopen
deriving DecidableEq, Repr

inductive Success where
  /-- The records of this batch were appended. -/
  | applied (batch : Batch Origin)
  /-- This request repeats an earlier one. -/
  | duplicate (request : Action)
deriving DecidableEq, Repr

/-- A stream with its rows and its owner's memory, and a record of what clients were told. -/
structure Partition where
  epoch : ℕ := 0
  stream : Stream := {}
  checkpoint : Option Checkpoint := none
  sessions : OrdMap String Session := .empty
  /-- The owner's memory. -/
  producers : Option Producers := none
  /-- The expired sessions whose rows are still there. -/
  forgetting : List String := []
  /-- The durable end when the memory was loaded. -/
  loaded_end : ℕ := 0
  /-- The ids that sessions of this stream were given. -/
  session_ids : List ℤ := []
  /-- The ids that Kafka clients have produced with. -/
  kafka_ids : List ℤ := []
  /-- What clients were told has succeeded. -/
  told : List Success := []

namespace Partition

variable (self : Partition)

/-- The producer state in memory, loaded if it is not there yet. -/
def load_producers (now_ms : ℤ) : Producers :=
  match self.producers with
  | some producers => producers
  | none =>
    let loaded := Producers.load self.epoch self.stream self.checkpoint self.sessions
    if loaded.replay_needed none self.stream.confirm_offset then loaded.replay self.stream now_ms
    else loaded

variable (producers : Producers)

/-- The memory is replaced, and where it was loaded for this request, the end it was loaded at. -/
def hold : Partition :=
  { self with
    producers := some producers
    loaded_end := if self.producers.isSome then self.loaded_end else self.stream.confirm_offset }

def submit_append (record_count : ℕ) (origin : Origin) : Partition :=
  { self with stream := { self.stream with log := self.stream.log.append record_count origin } }

/-! ## HTTP appends -/

/-- The session of a producer at its current epoch, and whether it is a new one. -/
def session_for (producer : Producer) (new_id : ℤ) : Session × Bool :=
  match producers.session producer.producer_id with
  | some session =>
    if session.epoch = producer.epoch then (session, false) else (⟨producer.epoch, new_id⟩, true)
  | none => (⟨producer.epoch, new_id⟩, true)

/-- The rows and the ids handed out, once the session is there. -/
def put_session (producer_id : String) (session : Session) (isNew : Bool) : Partition :=
  if isNew then
    { self with
      sessions := self.sessions.insert producer_id session
      session_ids := session.id :: self.session_ids }
  else self

/-- The memory after an accepted HTTP append at `base_offset`. -/
def recorded (producer : Producer) (session : Session) (isNew : Bool)
    (base_offset next_offset : ℕ) (now_ms : ℤ) : Producers :=
  let established :=
    if isNew then producers.establish producer.producer_id session now_ms else producers
  (established.note_appended base_offset next_offset).record_http session producer.seq now_ms

/-- An HTTP append whose producer was accepted. -/
def commit (producer : Producer) (record_count : ℕ) (new_id now_ms : ℤ) : Partition × Reply :=
  let (session, isNew) := session_for producers producer new_id
  let base_offset := self.stream.log.next_offset
  let recorded := recorded producers producer session isNew base_offset
    (base_offset + record_count) now_ms
  let (producers, expired) := recorded.expire now_ms
  let self := (self.hold producers).put_session producer.producer_id session isNew
  let self := self.submit_append record_count (.http producer session.id)
  ({ self with forgetting := self.forgetting ++ expired }, .submitted base_offset)

/-- An HTTP append, with a producer or without. -/
def http_append (producer : Option Producer) (record_count : ℕ)
    (new_id now_ms : ℤ) : Partition × Reply :=
  let producers := self.load_producers now_ms
  match producer with
  | none =>
    if record_count = 0 then (self.hold producers, .badRequest)
    else
      let base_offset := self.stream.log.next_offset
      let producers := producers.note_appended base_offset (base_offset + record_count)
      ((self.hold producers).submit_append record_count .plain, .submitted base_offset)
  | some producer =>
    match producers.decide producer with
    | .accepted _ _ =>
      if record_count = 0 then (self.hold producers, .badRequest)
      else self.commit producers producer record_count new_id now_ms
    | .duplicate last_seq =>
      let self := self.hold producers
      let request : Action := .http (some producer) record_count new_id now_ms
      ({ self with told := self.told ++ [.duplicate request] }, .decided (.duplicate last_seq))
    | decision => (self.hold producers, .decided decision)

/-! ## Kafka produce requests -/

/-- The memory that a Kafka batch is admitted on. -/
def caught_up (producer : Option NumericProducer) (now_ms : ℤ) : Producers :=
  let producers := self.load_producers now_ms
  if producers.replay_needed producer self.stream.confirm_offset then
    producers.replay self.stream now_ms
  else producers

/-- A Kafka produce request. -/
def submit_batch_append (producer : Option NumericProducer) (record_count : ℕ)
    (now_ms : ℤ) : Partition × Reply :=
  if record_count = 0 then (self, .badRequest)
  else
    let (producers, expired) := (self.caught_up producer now_ms).expire now_ms
    let self := { self with kafka_ids := producer.toList.map NumericProducer.id ++ self.kafka_ids }
    match producers.admit_numeric producer record_count now_ms with
    | (producers, .ok (.accepted accepted)) =>
      let base_offset := self.stream.log.next_offset
      let producers := producers.record_numeric accepted base_offset now_ms
      let producers := producers.note_appended base_offset (base_offset + record_count)
      let origin : Origin := producer.elim .plain .kafka
      let self := (self.hold producers).submit_append record_count origin
      ({ self with forgetting := self.forgetting ++ expired }, .submitted base_offset)
    | (producers, .ok (.duplicate base_offset)) =>
      let self := self.hold producers
      let request : Action := .produce producer record_count now_ms
      ({ self with
          forgetting := self.forgetting ++ expired
          told := self.told ++ [.duplicate request] }, .duplicate base_offset)
    | (producers, .error error) => (self.hold producers, .error error)

/-! ## Steps -/

/-- The next batch in flight becomes durable. -/
def complete : Partition :=
  match self.stream.log.since self.stream.confirm_offset with
  | [] => self
  | batch :: _ =>
    { self with
      stream := { self.stream with confirm_offset := batch.last_offset }
      told := self.told ++ [.applied batch] }

/-- The stream is opened at the next epoch, with the durable batches. -/
def reopen : Partition :=
  { self with
    epoch := self.epoch + 1
    stream := { self.stream with log := self.stream.log.truncate self.stream.confirm_offset }
    producers := none
    forgetting := [] }

def handle : Action → Partition × Option Reply
  | .http producer record_count new_id now_ms =>
    let (self, reply) := self.http_append producer record_count new_id now_ms
    (self, some reply)
  | .produce producer record_count now_ms =>
    let (self, reply) := self.submit_batch_append producer record_count now_ms
    (self, some reply)
  | .durable => (self.complete, none)
  | .checkpoint =>
    ({ self with
        checkpoint := match self.producers with
          | some producers => some producers.checkpoint
          | none => self.checkpoint }, none)
  | .forget =>
    ({ self with
        sessions := self.forgetting.foldl (fun sessions id => sessions.remove id) self.sessions
        forgetting := [] }, none)
  | .reopen => (self.reopen, none)

def step (action : Action) : Partition := (self.handle action).1

def reply (action : Action) : Option Reply := (self.handle action).2

end Partition

/-! ## What was accepted -/

/-- The sequences of the session with this id, in the order of its appends. -/
def session_seqs (batches : List (Batch Origin)) (id : ℤ) : List ℕ :=
  batches.filterMap fun b =>
    match b.payload with
    | .http producer sid => if sid = id then some producer.seq else none
    | _ => none

/-- The batches of a Kafka producer in the order of its appends, each with the producer's epoch. -/
def kafka_spans (batches : List (Batch Origin)) (id : ℤ) : List (ℤ × Span) :=
  batches.filterMap fun b =>
    match b.payload with
    | .kafka producer =>
      if producer.id = id then
        some (producer.epoch,
          { first_seq := producer.first_seq
            last_seq := next_seq producer.first_seq (b.record_count - 1)
            base_offset := b.base_offset })
      else none
    | _ => none

/-- The last batches of the last epoch, at most `SPAN_WINDOW` of them. -/
def window (spans : List (ℤ × Span)) : Option (ℤ × List Span) :=
  spans.getLast?.map fun last =>
    (last.1, ((spans.rtakeWhile fun s => s.1 = last.1).map Prod.snd).rtake SPAN_WINDOW)

namespace Partition

/-- The memory is what was accepted: the last sequence of every session, and the window of every
known Kafka producer. -/
structure Exact (s : Partition) : Prop where
  http : ∀ producers ∈ s.producers, ∀ producer_id session,
    producers.session producer_id = some session →
      producers.last_seq session.id = (session_seqs s.stream.log.batches session.id).getLast?
  kafka : ∀ producers ∈ s.producers, ∀ id ∉ s.session_ids, ∀ kafka,
    producers.known id = some kafka →
      window (kafka_spans s.stream.log.batches id) = some (kafka.epoch, kafka.spans)

variable (self : Partition)

/-- The next sequence of a session, and the next batch of a Kafka producer's epoch, are let in. -/
def Admits : Action → Prop
  | .http (some producer) record_count new_id now_ms =>
    ∀ session, self.sessions.get producer.producer_id = some session →
      producer.epoch = session.epoch → 0 < record_count →
      producer.seq =
          ((session_seqs self.stream.log.batches session.id).getLast?.map (· + 1)).getD 0 →
        self.reply (.http (some producer) record_count new_id now_ms) =
          some (.submitted self.stream.log.next_offset)
  | .produce (some producer) record_count now_ms =>
    ∀ spans last, window (kafka_spans self.stream.log.batches producer.id) =
        some (producer.epoch, spans) → spans.getLast? = some last →
      producer.first_seq = next_seq last.last_seq 1 → 0 < record_count →
        ∀ expected received, self.reply (.produce (some producer) record_count now_ms) ≠
          some (.error (.sequence_gap expected received))
  | _ => True

/-! ## When replaying is harmless -/

/-- Every batch of a producer that a replay would take over now was there at the load. -/
def ReplaysLoaded (producer : Option NumericProducer) : Prop :=
  ∀ producers ∈ self.producers, producers.replay_needed producer self.stream.confirm_offset →
    ∀ b ∈ self.stream.log.batches, producers.covered ≤ b.base_offset →
      b.base_offset < self.stream.confirm_offset → b.payload.producer.isSome →
        b.base_offset < self.loaded_end

/-- No producer expires in this memory. -/
def NoneExpires (producers : Producers) (now_ms : ℤ) : Prop :=
  producers.expire now_ms = (producers, [])

/-- Ids are handed out once, to a session or to a Kafka client, and nothing expires. -/
def Allotted : Action → Prop
  | .http (some producer) record_count new_id now_ms =>
    new_id ∉ self.session_ids ∧ new_id ∉ self.kafka_ids ∧
      let producers := self.load_producers now_ms
      let session := session_for producers producer new_id
      NoneExpires (recorded producers producer session.1 session.2 self.stream.log.next_offset
        (self.stream.log.next_offset + record_count) now_ms) now_ms
  | .produce producer _ now_ms =>
    (∀ p ∈ producer, p.id ∉ self.session_ids) ∧ NoneExpires (self.caught_up producer now_ms) now_ms
  | _ => True

/-- A replay takes over no producer's batch that the memory has seen, and a checkpoint is of a
complete memory, while nothing is in flight. -/
def Orderly (action : Action) : Prop :=
  self.Allotted action ∧
    match action with
    | .produce producer _ _ => self.ReplaysLoaded producer
    | .checkpoint =>
      ∀ producers ∈ self.producers, producers.covered = self.stream.log.next_offset ∧
        self.stream.confirm_offset = self.stream.log.next_offset
    | _ => True

variable (self : Partition)

instance (producer : Option NumericProducer) : Decidable (self.ReplaysLoaded producer) :=
  inferInstanceAs (Decidable (∀ producers ∈ self.producers, _ → ∀ b ∈ _, _ → _ → _ → _))

instance (producers : Producers) (now_ms : ℤ) : Decidable (NoneExpires producers now_ms) :=
  inferInstanceAs (Decidable (producers.expire now_ms = (producers, [])))

instance : DecidablePred self.Allotted
  | .http (some _) _ _ _ => inferInstanceAs (Decidable (_ ∧ _ ∧ _))
  | .produce _ _ _ => inferInstanceAs (Decidable (_ ∧ _))
  | .http none _ _ _ | .durable | .checkpoint | .forget | .reopen => .isTrue trivial

instance : DecidablePred self.Orderly
  | .produce _ _ _ => inferInstanceAs (Decidable (_ ∧ _))
  | .checkpoint => inferInstanceAs (Decidable (_ ∧ ∀ producers ∈ self.producers, _ ∧ _))
  | .http _ _ _ _ | .durable | .forget | .reopen => inferInstanceAs (Decidable (_ ∧ True))

/-! ## When a success is one -/

/-- The batch carries the records of this request. -/
def Carries (b : Batch Origin) : Action → Prop
  | .http (some producer) _ _ _ => ∃ id, b.payload = .http producer id
  | .produce (some producer) record_count _ =>
    b.payload = .kafka producer ∧
      next_seq producer.first_seq (b.record_count - 1) =
        next_seq producer.first_seq (record_count - 1)
  | _ => False

/-- The records that a client was told of are durable. -/
def Backed : Success → Prop
  | .applied batch => batch ∈ self.stream.log.below self.stream.confirm_offset
  | .duplicate request =>
    ∃ b ∈ self.stream.log.below self.stream.confirm_offset, Carries b request

/-- Every client that was told of a success has its records in the durable log. -/
def Truthful : Prop := ∀ success ∈ self.told, self.Backed success

/-- Besides being orderly, a request is not repeated while its batch is in flight. -/
def Patient (action : Action) : Prop :=
  self.Orderly action ∧
    ∀ b ∈ self.stream.log.since self.stream.confirm_offset, ¬ Carries b action

instance (b : Batch Origin) : DecidablePred (Carries b)
  | .http (some producer) _ _ _ =>
    match h : b.payload with
    | .http q id =>
      decidable_of_iff (q = producer)
        ⟨fun he => ⟨id, by rw [h, he]⟩, fun ⟨_, he⟩ => by rw [h] at he; exact (Origin.http.inj he).1⟩
    | .plain => isFalse fun ⟨_, he⟩ => by rw [h] at he; cases he
    | .kafka _ => isFalse fun ⟨_, he⟩ => by rw [h] at he; cases he
  | .produce (some _) _ _ => inferInstanceAs (Decidable (_ ∧ _))
  | .http none _ _ _ | .produce none _ _ | .durable | .checkpoint | .forget | .reopen =>
    .isFalse fun h => h

instance : DecidablePred self.Backed
  | .applied _ => inferInstanceAs (Decidable (_ ∈ _))
  | .duplicate request =>
    inferInstanceAs (Decidable (∃ b ∈ _, Carries b request))

instance : Decidable self.Truthful :=
  inferInstanceAs (Decidable (∀ success ∈ self.told, self.Backed success))

instance : DecidablePred self.Patient :=
  fun _ => inferInstanceAs (Decidable (_ ∧ _))

end Partition

end PicoMq.Server
