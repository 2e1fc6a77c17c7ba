import Mathlib.Algebra.Group.Int.Defs
import Mathlib.Order.Lattice

/-!
# Timestamps of HTTP appends

The owner of a stream stamps an HTTP append later than the last timestamp it remembers, and not
before its clock. What it remembers is lost when the stream moves and when an append fails, and is
then read back from the last batch, unless the log was trimmed to its end. Kafka clients choose the
times of their batches themselves. Appends hold a lock; a failed append empties the memory without
it.
-/

namespace PicoMq.Server

def I64_MAX : ℤ := 2 ^ 63 - 1

/-- What timestamps depend on in the header of a Kafka batch. -/
structure TimeHeader where
  log_append_time : Bool
  max_timestamp_ms : ℤ
deriving DecidableEq, Repr

/-- An append, with the times it carries. -/
inductive TimedEntry where
  | http (timestamp_ms : ℤ)
  | kafka (headers : List TimeHeader)
deriving DecidableEq, Repr

namespace TimedEntry

def http_time : TimedEntry → Option ℤ
  | http timestamp_ms => some timestamp_ms
  | kafka _ => none

/-- The times of the batches that say they were stamped at append; an HTTP append is one. -/
def append_times : TimedEntry → List ℤ
  | http timestamp_ms => [timestamp_ms]
  | kafka headers => (headers.filter fun h => h.log_append_time).map fun h => h.max_timestamp_ms

/-- What is read back from the last batch of the log. -/
def read_back (e : TimedEntry) : ℤ := e.append_times.max?.getD 0

end TimedEntry

/-- The timestamps of the HTTP appends, in the order of their offsets. -/
def http_times (log : List TimedEntry) : List ℤ := log.filterMap TimedEntry.http_time

/-- How far the append that holds the lock has come. -/
inductive TimeStage where
  | idle
  /-- An HTTP append has its timestamp. -/
  | stamped (timestamp_ms : ℤ)
  /-- It is submitted, and its timestamp is to be noted. -/
  | submitted (timestamp_ms : ℤ)
  /-- A Kafka produce with times of its own is submitted; the latest is to be noted. -/
  | produced (timestamp_ms : ℤ)
deriving DecidableEq, Repr

def TimeStage.produced_time : TimeStage → Option ℤ
  | produced timestamp_ms => some timestamp_ms
  | _ => none

/-- A log on its owner, which remembers the last timestamp. -/
structure TimedLog where
  /-- What was submitted and not lost since. -/
  log : List TimedEntry := []
  /-- How many of the appends are durable. -/
  durable : ℕ := 0
  /-- How many of the appends are wholly below the start of the log. -/
  trimmed : ℕ := 0
  last_timestamp_ms : Option ℤ := none
  stage : TimeStage := .idle
  /-- A sum left the range of an `i64`. -/
  overflowed : Bool := false
deriving DecidableEq, Repr

namespace TimedLog

inductive Step where
  /-- An HTTP append computes its timestamp at this clock reading. -/
  | stamp (now_ms : ℤ)
  | submit_http
  | submit_kafka (headers : List TimeHeader)
  | note
  /-- The stream refuses an HTTP append; the memory is emptied before the lock is released. -/
  | abandon
  | confirm (durable : ℕ)
  /-- A trim or retention moves the start of the log, at most up to the end of what is durable. -/
  | trim (trimmed : ℕ)
  /-- An append that failed empties the memory. -/
  | reset_memory
  /-- The stream is opened again after a failure; appends past `kept` are lost. -/
  | reopen (kept : ℕ)
  /-- Another node opens the stream. -/
  | change_owner (kept : ℕ)
deriving DecidableEq, Repr

/-- `gate.note_timestamp`. -/
def note_timestamp (last : Option ℤ) (timestamp_ms : ℤ) : ℤ :=
  match last with
  | none => timestamp_ms
  | some last => max last timestamp_ms

variable (s : TimedLog)

/-- The log-append time of the last durable batch, if it is still live. -/
def read_back_timestamp : ℤ :=
  if s.durable ≤ s.trimmed then 0
  else
    match (s.log.take s.durable).getLast? with
    | none => 0
    | some tail => tail.read_back

/-- The last timestamp as the owner knows it, read back if the memory is empty. -/
def last : ℤ := s.last_timestamp_ms.getD s.read_back_timestamp

def next_timestamp (now_ms : ℤ) : TimedLog :=
  if s.last + 1 ≤ I64_MAX then
    { s with last_timestamp_ms := some s.last, stage := .stamped (max now_ms (s.last + 1)) }
  else { s with last_timestamp_ms := some s.last, overflowed := true }

def submit_kafka (headers : List TimeHeader) : TimedLog :=
  { s with
    log := s.log ++ [.kafka headers]
    stage :=
      if headers.any fun h => h.log_append_time then
        .produced ((headers.map fun h => h.max_timestamp_ms).max?.getD 0)
      else .idle }

/-- A stream that is opened again ends at the first `kept` appends, or at the durable ones. -/
def keep (kept : ℕ) : TimedLog :=
  let durable := max s.durable (min kept s.log.length)
  { s with log := s.log.take durable, durable := durable }

def step : Step → TimedLog
  | .stamp now_ms => if s.stage = .idle then s.next_timestamp now_ms else s
  | .submit_http =>
    match s.stage with
    | .stamped t => { s with log := s.log ++ [.http t], stage := .submitted t }
    | _ => s
  | .submit_kafka headers => if s.stage = .idle then s.submit_kafka headers else s
  | .note =>
    match s.stage with
    | .submitted t | .produced t =>
      { s with last_timestamp_ms := some (note_timestamp s.last_timestamp_ms t), stage := .idle }
    | _ => s
  | .abandon =>
    match s.stage with
    | .stamped _ => { s with last_timestamp_ms := none, stage := .idle }
    | _ => s
  | .confirm durable =>
    if s.durable ≤ durable ∧ durable ≤ s.log.length then { s with durable := durable } else s
  | .trim trimmed => { s with trimmed := max s.trimmed (min trimmed s.durable) }
  | .reset_memory => { s with last_timestamp_ms := none }
  | .reopen kept => s.keep kept
  | .change_owner kept => { s.keep kept with last_timestamp_ms := none, stage := .idle }

/-- The timestamps of the durable HTTP appends increase, and no sum overflowed. -/
def Monotonic : Prop :=
  (http_times (s.log.take s.durable)).Pairwise (· < ·) ∧ s.overflowed = false

/-- The last timestamp is not the largest there is, and an owner that reads it back finds a live HTTP
append at the durable end, or has a clock past all of them. -/
def CanStamp (now_ms : ℤ) : Prop :=
  s.last < I64_MAX ∧
    (s.last_timestamp_ms = none →
      (s.trimmed < s.durable ∧ s.durable = s.log.length ∧
          ∃ tail ∈ s.log.getLast?, tail.http_time.isSome) ∨
        ∀ t ∈ http_times s.log, t < now_ms)

/-- A Kafka produce that is the first to fill the memory is not older than the HTTP appends. -/
def CanNote : Prop :=
  s.last_timestamp_ms = none → ∀ t ∈ s.stage.produced_time, ∀ t' ∈ http_times s.log, t' ≤ t

def Recalls : Step → Prop
  | .stamp now_ms => s.CanStamp now_ms
  | .note => s.CanNote
  | _ => True

instance : Decidable s.Monotonic := inferInstanceAs (Decidable (_ ∧ _))

instance (now_ms : ℤ) : Decidable (s.CanStamp now_ms) :=
  inferInstanceAs (Decidable (_ ∧ (_ → _)))

instance : Decidable s.CanNote := inferInstanceAs (Decidable (_ → _))

instance (a : Step) : Decidable (s.Recalls a) :=
  match a with
  | .stamp now_ms => inferInstanceAs (Decidable (s.CanStamp now_ms))
  | .note => inferInstanceAs (Decidable s.CanNote)
  | .submit_http | .submit_kafka _ | .abandon | .confirm _ | .trim _ | .reset_memory
  | .reopen _ | .change_owner _ => .isTrue trivial

end TimedLog

end PicoMq.Server
