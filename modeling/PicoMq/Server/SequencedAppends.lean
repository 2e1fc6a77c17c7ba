import PicoMq.Library.BatchLog
import PicoMq.Library.OrdMap
import PicoMq.Server.StreamSeq

/-!
# Appends with a stream sequence

Successive owners of a stream, each at an epoch of its own. An append is checked, its value is
booked, the row is written, and its records are submitted; each of these may be where it ends. An
owner that has been succeeded may go on, but the engine takes no records from it. A row write whose
answer is lost may land later, or never.
-/

namespace PicoMq.Server

variable {T : Type} [LinearOrder T]

/-- An append of an HTTP client; without records it only closes the topic. -/
structure SeqRequest (T : Type) where
  /-- Its `Stream-Seq`. -/
  value : Option T
  record_count : ℕ
deriving DecidableEq, Repr

/-- How far the append that holds the lock of an owner is. -/
inductive Stage (T : Type) where
  | idle
  /-- Its value is not a conflict; its session is looked up or allocated. -/
  | checked (request : SeqRequest T)
  /-- Its value is booked; this row is to be written. -/
  | writing (request : SeqRequest T) (row : Row T)
  /-- Its timestamp is looked up, then it is submitted. -/
  | ready (request : SeqRequest T)
deriving DecidableEq, Repr

def Stage.value : Stage T → Option T
  | .idle => none
  | .checked request => request.value
  | .writing request _ => request.value
  | .ready request => request.value

/-- Whether an append has its value in the ledger and is not submitted yet. -/
def Stage.booked : Stage T → Bool
  | .idle => false
  | .checked _ => false
  | .writing _ _ => true
  | .ready request => request.value.isSome

/-- The owner of the stream at one epoch, which may have been replaced since. -/
structure Owner (T : Type) where
  /-- The ends its handle shows. -/
  next_offset : ℕ
  confirm_offset : ℕ
  /-- The stream sequence of its producers, once they are loaded. -/
  producers : Option (Option (StreamSeq T)) := none
  stage : Stage T := .idle
deriving DecidableEq, Repr

/-- A row write whose answer was lost. -/
structure Delayed (T : Type) where
  expected : Option (Row T)
  row : Row T
  /-- How often the row had been written when it was sent. -/
  sent : ℕ
deriving DecidableEq, Repr

/-- A stream with its row, its owners, and a record of what became of the values. -/
structure Sequenced (T : Type) where
  /-- The newest epoch the stream was opened at. -/
  epoch : ℕ := 0
  /-- The appends, each with its `Stream-Seq`. -/
  log : BatchLog (Option T) := .empty
  confirm_offset : ℕ := 0
  row : Option (Row T) := none
  /-- How often the row has been written. -/
  writes : ℕ := 0
  delayed : List (Delayed T) := []
  owners : OrdMap ℕ (Owner T) := .empty
  /-- The values of the appends that were submitted, lost ones too. -/
  submitted : List T := []
  /-- The values of the appends that closed the topic. -/
  closed : List T := []
  /-- The values that the rows of earlier owners showed as durable. -/
  inherited : List T := []
  /-- The values that were refused with a sequence conflict. -/
  refused : List T := []

namespace Sequenced

inductive Step (T : Type) where
  /-- The stream is opened at the next epoch; what is durable by then ends at `durable_end`. -/
  | openAt (durable_end : ℕ)
  /-- An owner loads its producers. -/
  | load (epoch : ℕ)
  /-- An append takes the lock of an owner and has its value checked. -/
  | check (epoch : ℕ) (request : SeqRequest T)
  /-- Its value is booked. -/
  | book (epoch : ℕ)
  /-- The row is written, and the answer arrives. -/
  | write (epoch : ℕ)
  /-- The answer to a row write is lost, and the append fails. -/
  | lose (epoch : ℕ)
  /-- A row write whose answer was lost reaches the row. -/
  | land (i : ℕ)
  /-- The records are submitted; without records, the topic is closed. -/
  | submit (epoch : ℕ)
  /-- The append fails: no session, no timestamp, or the client is gone. -/
  | fail (epoch : ℕ)
  /-- The next batch in flight becomes durable. -/
  | durable
  /-- An append that became durable confirms the values up to it. -/
  | confirm (epoch : ℕ)
deriving DecidableEq, Repr

variable (self : Sequenced T) (epoch : ℕ)

def put_owner (owner : Owner T) : Sequenced T :=
  { self with owners := self.owners.insert epoch owner }

/-- The stream is opened by its next owner. Appends that are not durable are lost. -/
def open_stream (durable_end : ℕ) : Sequenced T :=
  if self.log.IsBoundary durable_end ∧ self.confirm_offset ≤ durable_end then
    { self with
      epoch := self.epoch + 1
      log := self.log.truncate durable_end
      confirm_offset := durable_end
      owners := self.owners.insert (self.epoch + 1)
        { next_offset := durable_end, confirm_offset := durable_end } }
  else self

/-- The durable value of a row, if an owner before `epoch` wrote it. -/
def inherits (row : Option (Row T)) (epoch : ℕ) : List T :=
  match row with
  | some row => if row.epoch < epoch then row.ledger.durable.toList else []
  | none => []

/-- An owner takes over the ledger of the row. -/
def load_producers : Sequenced T :=
  match self.owners.get epoch with
  | some ⟨next_offset, confirm_offset, none, .idle⟩ =>
    match StreamSeq.load epoch confirm_offset self.row with
    | .ok stream_seq =>
      { self with
        owners := self.owners.insert epoch ⟨next_offset, confirm_offset, some stream_seq, .idle⟩
        inherited := inherits self.row epoch ++ self.inherited }
    | .error _ => self
  | _ => self

/-- An append whose value is not above the last one is refused. -/
def check_stream_seq (request : SeqRequest T) : Sequenced T :=
  match self.owners.get epoch with
  | some ⟨next_offset, confirm_offset, some stream_seq, .idle⟩ =>
    match request.value.filter fun seq => StreamSeq.stream_seq_regressed stream_seq seq with
    | some seq => { self with refused := seq :: self.refused }
    | none =>
      self.put_owner epoch ⟨next_offset, confirm_offset, some stream_seq, .checked request⟩
  | _ => self

/-- The value goes into the ledger, before the records are submitted. -/
def book : Sequenced T :=
  match self.owners.get epoch with
  | some ⟨next_offset, confirm_offset, some stream_seq, .checked request⟩ =>
    match request.value with
    | some seq =>
      let landed := if request.record_count = 0 then none else some next_offset
      let (stream_seq, row) := StreamSeq.accept_stream_seq stream_seq epoch seq landed
      self.put_owner epoch
        ⟨next_offset, confirm_offset, some (some stream_seq), .writing request row⟩
    | none => self.put_owner epoch ⟨next_offset, confirm_offset, some stream_seq, .ready request⟩
  | _ => self

/-- What the row is after a compare and set; nothing is expected of a row that is to be absent. -/
def put_kv_if (stored expected : Option (Row T)) (row : Row T) : Option (Row T) :=
  if stored = expected then some row else stored

/-- Whether it is answered that the row is written. It may be there already as it was to be. -/
def answered (stored expected : Option (Row T)) (row : Row T) : Bool :=
  stored = expected || (expected.isNone && stored = some row)

/-- Another owner's row is merged and the write repeated, or the owner gives up. -/
def write_stream_seq : Sequenced T :=
  match self.owners.get epoch with
  | some ⟨next_offset, confirm_offset, some (some stream_seq), .writing request row⟩ =>
    if answered self.row stream_seq.written row then
      { self with
        row := put_kv_if self.row stream_seq.written row
        writes := self.writes + 1
        owners := self.owners.insert epoch ⟨next_offset, confirm_offset,
          some (some { stream_seq with written := some row }), .ready request⟩ }
    else
      match self.row with
      | some stored =>
        match stream_seq.merge_stream_seq epoch stored confirm_offset with
        | .ok (stream_seq, row) =>
          { self with
            owners := self.owners.insert epoch
              ⟨next_offset, confirm_offset, some (some stream_seq), .writing request row⟩
            inherited := inherits self.row epoch ++ self.inherited }
        -- the cached producers are removed
        | .error _ => self.put_owner epoch ⟨next_offset, confirm_offset, none, .idle⟩
      | none =>
        self.put_owner epoch ⟨next_offset, confirm_offset, some (some stream_seq), .idle⟩
  | _ => self

/-- The write may still reach the row later. -/
def lose : Sequenced T :=
  match self.owners.get epoch with
  | some ⟨next_offset, confirm_offset, some (some stream_seq), .writing _ row⟩ =>
    { self with
      delayed := ⟨stream_seq.written, row, self.writes⟩ :: self.delayed
      owners := self.owners.insert epoch
        ⟨next_offset, confirm_offset, some (some stream_seq), .idle⟩ }
  | _ => self

def land (i : ℕ) : Sequenced T :=
  match self.delayed[i]? with
  | some write =>
    if self.row = write.expected then
      { self with
        row := some write.row
        writes := self.writes + 1
        delayed := self.delayed.eraseIdx i }
    else { self with delayed := self.delayed.eraseIdx i }
  | none => self

/-- Only the newest owner can append. -/
def submit_append : Sequenced T :=
  match self.owners.get epoch with
  | some ⟨next_offset, confirm_offset, producers, .ready request⟩ =>
    if request.record_count = 0 then
      { self with
        owners := self.owners.insert epoch ⟨next_offset, confirm_offset, producers, .idle⟩
        closed := request.value.toList ++ self.closed }
    else if epoch = self.epoch then
      let log := self.log.append request.record_count request.value
      { self with
        log
        owners := self.owners.insert epoch ⟨log.next_offset, confirm_offset, producers, .idle⟩
        submitted := request.value.toList ++ self.submitted }
    -- fenced, and the owner is reset
    else self.put_owner epoch ⟨next_offset, confirm_offset, none, .idle⟩
  | _ => self

def fail : Sequenced T :=
  match self.owners.get epoch with
  | some ⟨next_offset, confirm_offset, producers, .checked _⟩ =>
    self.put_owner epoch ⟨next_offset, confirm_offset, producers, .idle⟩
  | some ⟨next_offset, confirm_offset, producers, .ready _⟩ =>
    self.put_owner epoch ⟨next_offset, confirm_offset, producers, .idle⟩
  | _ => self

def durable : Sequenced T :=
  match self.log.since self.confirm_offset with
  | [] => self
  | batch :: _ =>
    let owners :=
      match self.owners.get self.epoch with
      | some owner =>
        self.owners.insert self.epoch { owner with confirm_offset := batch.last_offset }
      | none => self.owners
    { self with confirm_offset := batch.last_offset, owners }

def confirm : Sequenced T :=
  match self.owners.get epoch with
  | some ⟨next_offset, confirm_offset, some stream_seq, .idle⟩ =>
    self.put_owner epoch ⟨next_offset, confirm_offset,
      some (StreamSeq.confirm_stream_seq stream_seq confirm_offset), .idle⟩
  | _ => self

def step : Step T → Sequenced T
  | .openAt durable_end => self.open_stream durable_end
  | .load epoch => self.load_producers epoch
  | .check epoch request => self.check_stream_seq epoch request
  | .book epoch => self.book epoch
  | .write epoch => self.write_stream_seq epoch
  | .lose epoch => self.lose epoch
  | .land i => self.land i
  | .submit epoch => self.submit_append epoch
  | .fail epoch => self.fail epoch
  | .durable => self.durable
  | .confirm epoch => self.confirm epoch

/-! ## Strict order -/

/-- The values of the durable appends increase with the offset. -/
def Increasing : Prop :=
  ((self.log.below self.confirm_offset).filterMap Batch.payload).Pairwise (· < ·)

/-- Producers are loaded while nothing is in flight, and a row write whose answer was lost lands
before the next one, or never. -/
def Steady : Step T → Prop
  | .load epoch => ∀ owner ∈ self.owners.get epoch, owner.next_offset = owner.confirm_offset
  | .land i => ∀ write ∈ self.delayed[i]?, write.sent = self.writes
  | _ => True

instance (self : Sequenced T) : Decidable self.Increasing :=
  inferInstanceAs (Decidable (List.Pairwise _ _))

instance (self : Sequenced T) : DecidablePred self.Steady
  | .load epoch => inferInstanceAs (Decidable (∀ owner ∈ self.owners.get epoch, _))
  | .land i => inferInstanceAs (Decidable (∀ write ∈ self.delayed[i]?, _))
  | .openAt _ | .check _ _ | .book _ | .write _ | .lose _ | .submit _ | .fail _ | .durable
  | .confirm _ => .isTrue trivial

/-! ## Conflicts -/

/-- A refused value is no greater than one submitted, closing the topic, or recorded as durable. -/
def Justified : Prop :=
  ∀ seq ∈ self.refused, ∃ value ∈ self.submitted ++ self.closed ++ self.inherited, seq ≤ value

/-- Only the newest owner books values, and nothing fails or succeeds it before it submits. -/
def Unfailing : Step T → Prop
  | .book epoch =>
    ∀ owner ∈ self.owners.get epoch, owner.stage.value.isSome → epoch = self.epoch
  | .lose epoch => ∀ owner ∈ self.owners.get epoch, owner.stage.booked = false
  | .fail epoch => ∀ owner ∈ self.owners.get epoch, owner.stage.booked = false
  | .openAt _ => ∀ owner ∈ self.owners.get self.epoch, owner.stage.booked = false
  | _ => True

instance (self : Sequenced T) : Decidable self.Justified :=
  inferInstanceAs (Decidable (∀ seq ∈ self.refused, ∃ value ∈ _, seq ≤ value))

instance (self : Sequenced T) : DecidablePred self.Unfailing
  | .book epoch => inferInstanceAs (Decidable (∀ owner ∈ self.owners.get epoch, _ → _))
  | .lose epoch => inferInstanceAs (Decidable (∀ owner ∈ self.owners.get epoch, _))
  | .fail epoch => inferInstanceAs (Decidable (∀ owner ∈ self.owners.get epoch, _))
  | .openAt _ => inferInstanceAs (Decidable (∀ owner ∈ self.owners.get self.epoch, _))
  | .load _ | .check _ _ | .write _ | .land _ | .submit _ | .durable | .confirm _ => .isTrue trivial

end Sequenced

end PicoMq.Server
