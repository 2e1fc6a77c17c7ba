import PicoMq.Server.Ownership

/-!
# The sequence of one Kafka producer

The batches of one producer id, offered one by one and recorded when accepted.
-/

namespace PicoMq.Server

open Metadata

/-- One batch of the producer, and where it is recorded if it is accepted. -/
structure Offer where
  epoch : ℤ
  first_seq : ℤ
  record_count : ℕ
  base_offset : ℕ
  now_ms : ℤ
deriving DecidableEq

namespace Offer

def producer (o : Offer) (id : ℤ) : NumericProducer := ⟨id, o.epoch, o.first_seq⟩

/-- The batch that comes right after `b` in its epoch. -/
def Follows (b o : Offer) : Prop :=
  o.epoch = b.epoch ∧ o.first_seq = (b.first_seq + b.record_count) % SEQ_SPACE

/-- The first batch of a later epoch. -/
def Restarts (b o : Offer) : Prop := b.epoch < o.epoch ∧ o.first_seq = 0

def Resubmits (o b : Offer) : Prop :=
  o.epoch = b.epoch ∧ o.first_seq = b.first_seq ∧ o.record_count = b.record_count

end Offer

/-- The batch is the next one after those accepted. -/
def Continues (accepted : List Offer) (o : Offer) : Prop :=
  match accepted.getLast? with
  | none => o.first_seq = 0
  | some last => last.Follows o ∨ last.Restarts o

/-- Epochs do not go back, and within each the sequences are contiguous from 0 on. -/
structure InOrder (accepted : List Offer) : Prop where
  epochs : accepted.Pairwise fun a b => a.epoch ≤ b.epoch
  sequences : ∀ before o after, accepted = before ++ o :: after → Continues before o

/-- The last batches of the current epoch, at most `SPAN_WINDOW` of them. -/
def current_batches (accepted : List Offer) : List Offer :=
  match accepted.getLast? with
  | none => []
  | some last => (accepted.rtakeWhile fun b => b.epoch = last.epoch).rtake SPAN_WINDOW

/-- The memory of the owner, and beside it the batches of the producer that were accepted. -/
structure NumericRun where
  producers : Producers
  accepted : List Offer := []
deriving DecidableEq

namespace NumericRun

def answer (id : ℤ) (s : NumericRun) (o : Offer) : Except ServiceError Admission :=
  (s.producers.admit_numeric (some (o.producer id)) o.record_count o.now_ms).2

def step (id : ℤ) (s : NumericRun) (o : Offer) : NumericRun :=
  match s.producers.admit_numeric (some (o.producer id)) o.record_count o.now_ms with
  | (producers, .ok (.accepted accepted)) =>
    { producers := producers.record_numeric accepted o.base_offset o.now_ms
      accepted := s.accepted ++ [o] }
  | (producers, _) => { s with producers }

/-- The batch and the last `SPAN_WINDOW` accepted ones hold fewer records than there are sequences.
-/
def Fits (s : NumericRun) (o : Offer) : Prop :=
  0 < o.record_count ∧
    o.record_count + ((s.accepted.rtake SPAN_WINDOW).map (·.record_count)).sum < SEQ_SPACE

instance (s : NumericRun) (o : Offer) : Decidable (s.Fits o) := inferInstanceAs (Decidable (_ ∧ _))

/-- The answer to a batch, by what was accepted before it. -/
structure Answered (id : ℤ) (s : NumericRun) (o : Offer) : Prop where
  accepted : Continues s.accepted o → ∃ a, s.answer id o = .ok (.accepted a)
  duplicate : ∀ b ∈ current_batches s.accepted, o.Resubmits b →
    s.answer id o = .ok (.duplicate b.base_offset)
  fenced : ∀ last, s.accepted.getLast? = some last → o.epoch < last.epoch →
    s.answer id o = .error (.fenced (asU64 last.epoch))
  refused : ¬Continues s.accepted o → (∀ b ∈ current_batches s.accepted, ¬o.Resubmits b) →
    (∀ last, s.accepted.getLast? = some last → last.epoch ≤ o.epoch) →
      ∃ expected received, s.answer id o = .error (.sequence_gap expected received)

end NumericRun

end PicoMq.Server
