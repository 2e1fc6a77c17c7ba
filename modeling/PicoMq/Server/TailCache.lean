import Mathlib.Algebra.GroupWithZero.Nat
import PicoMq.Library.BatchLog

/-!
# The tail cache

An append puts its batches in when it is durable, outside the lock under which it was submitted; a
reset after a failure empties the cache; a trim leaves it alone.
-/

namespace PicoMq.Server

def TAIL_MAX_BYTES : ℕ := 4 * 1024 * 1024

def TAIL_MAX_RECORDS : ℕ := 4096

/-- What a batch carries, and how many bytes it takes. -/
structure Payload (ρ : Type) where
  records : List ρ
  len : ℕ
deriving DecidableEq, Repr

variable {ρ : Type}

def numbered (b : Batch (Payload ρ)) : List (ℕ × ρ) :=
  b.payload.records.zipIdx.map fun r => (b.base_offset + r.2, r.1)

/-- The records of some batches in the range `[start, end_offset)`. -/
def records_in (start end_offset : ℕ) (batches : List (Batch (Payload ρ))) : List (ℕ × ρ) :=
  (batches.flatMap numbered).filter fun r => start ≤ r.1 ∧ r.1 < end_offset

/-! ## The cache -/

/-- The last batches of a log. -/
structure TailCache (ρ : Type) where
  recent : List (Batch (Payload ρ)) := []
  recent_bytes : ℕ := 0
  recent_records : ℕ := 0
deriving DecidableEq, Repr

namespace TailCache

def reset : TailCache ρ := {}

/-- Drops batches from the front while the cache is too large; the last one stays. -/
def evict : List (Batch (Payload ρ)) → ℕ → ℕ → TailCache ρ
  | b :: b' :: rest, bytes, records =>
    if records > TAIL_MAX_RECORDS ∨ bytes > TAIL_MAX_BYTES then
      evict (b' :: rest) (bytes - b.payload.len) (records - b.record_count)
    else ⟨b :: b' :: rest, bytes, records⟩
  | recent, bytes, records => ⟨recent, bytes, records⟩

/-- Adds the batches at the end, then drops from the front. -/
def push (cache : TailCache ρ) (batches : List (Batch (Payload ρ))) : TailCache ρ :=
  evict (cache.recent ++ batches)
    (batches.foldl (fun bytes b => bytes + b.payload.len) cache.recent_bytes)
    (batches.foldl (fun records b => records + b.record_count) cache.recent_records)

/-- Batches below the end of the cache are not added; a gap empties it first. -/
def record_append (cache : TailCache ρ) (batches : List (Batch (Payload ρ))) : TailCache ρ :=
  match batches.head?, cache.recent.getLast? with
  | none, _ => cache
  | some _, none => cache.push batches
  | some first, some last =>
    if first.base_offset < last.last_offset then cache
    else if first.base_offset > last.last_offset then reset.push batches
    else cache.push batches

/-- The batches from `start` on, if the cache goes back that far. -/
def tail_batches (cache : TailCache ρ) (start : ℕ) : Option (List (Batch (Payload ρ))) :=
  match cache.recent.head?, cache.recent.getLast? with
  | some first, some last =>
    if start < first.base_offset ∨ start ≥ last.last_offset then none
    else some (cache.recent.filter fun b => b.last_offset > start)
  | _, _ => none

/-- The totals are exact, and within the limits unless one batch alone has more. -/
structure Bounded (cache : TailCache ρ) : Prop where
  bytes : cache.recent_bytes = (cache.recent.map fun b => b.payload.len).sum
  records : cache.recent_records = (cache.recent.map fun b => b.record_count).sum
  limits : cache.recent.length ≤ 1 ∨
    cache.recent_records ≤ TAIL_MAX_RECORDS ∧ cache.recent_bytes ≤ TAIL_MAX_BYTES

end TailCache

/-- Up to `end_offset`, and within the limit of bytes unless the first batch alone has more. -/
def cut_to_limits (end_offset max_bytes : ℕ) :
    List (Batch (Payload ρ)) → ℕ → Bool → List (Batch (Payload ρ))
  | [], _, _ => []
  | batch :: cached, total, is_empty =>
    if batch.base_offset ≥ end_offset then []
    else if total + batch.payload.len > max_bytes ∧ !is_empty then []
    else batch :: cut_to_limits end_offset max_bytes cached (total + batch.payload.len) false

/-! ## One log -/

/-- An append whose outcome its task still awaits. -/
structure TailTask (ρ : Type) where
  batches : List (Batch (Payload ρ))
deriving DecidableEq, Repr

/-- A read that has looked up where the log ends. -/
structure TailRead where
  start : ℕ
  end_offset : ℕ
deriving DecidableEq, Repr

/-- What the cache answered, and what the stream would have returned. -/
structure TailAnswer (ρ : Type) where
  log_start : ℕ
  served : List (ℕ × ρ)
  fetched : Option (List (ℕ × ρ))
deriving DecidableEq, Repr

/-- One log on its owner, with the tasks that are under way. -/
structure CachedLog (ρ : Type) where
  /-- What was submitted to the stream and not lost since. -/
  log : BatchLog (Payload ρ) := .empty
  start_offset : ℕ := 0
  confirm_offset : ℕ := 0
  /-- The offset below which something was reported durable. -/
  durable_end : ℕ := 0
  tasks : List (TailTask ρ) := []
  cache : TailCache ρ := {}
  reads : List TailRead := []
  answers : List (TailAnswer ρ) := []

namespace CachedLog

inductive Step (ρ : Type) where
  /-- Batches are submitted under the lock. -/
  | submit (payloads : List (Payload ρ))
  /-- The end of what is durable moves up. -/
  | confirm (offset : ℕ)
  /-- A task learns that its append is durable and fills the cache; tasks do so in any order. -/
  | finish (task : ℕ)
  /-- The append failed: the stream is opened again and ends at `cut`; the cache is emptied in a
  step of its own. -/
  | fail (task cut : ℕ)
  | reset_cache
  | trim (new_start_offset committed_end : ℕ)
  | begin_read (start : ℕ)
  | serve_read (read max_bytes : ℕ)
deriving DecidableEq, Repr

/-- What a read that the cache does not serve gets. -/
def fetch (s : CachedLog ρ) (start end_offset : ℕ) : Option (List (Batch (Payload ρ))) :=
  if start < s.start_offset then none else some (s.log.fetch start end_offset)

def submit (s : CachedLog ρ) (payloads : List (Payload ρ)) : CachedLog ρ :=
  let log := payloads.foldl (fun log p => log.append p.records.length p) s.log
  { s with log := log, tasks := s.tasks ++ [⟨log.since s.log.next_offset⟩] }

def trim (s : CachedLog ρ) (new_start_offset committed_end : ℕ) : CachedLog ρ :=
  let clamped := min (max new_start_offset s.start_offset) (min s.confirm_offset committed_end)
  if clamped > s.start_offset then { s with start_offset := clamped } else s

/-- A read is answered from the cache, next to what a fetch would get. -/
def serve (s : CachedLog ρ) (read : TailRead) (max_bytes : ℕ) : CachedLog ρ :=
  match s.cache.tail_batches read.start with
  | none => s
  | some cached =>
    let out := cut_to_limits read.end_offset max_bytes cached 0 true
    { s with
      answers := ⟨s.start_offset, records_in read.start read.end_offset out,
        (s.fetch read.start read.end_offset).map (records_in read.start read.end_offset)⟩ ::
          s.answers }

variable [DecidableEq ρ]

/-- A task learns of success only if its batches are in the log. -/
def finish (s : CachedLog ρ) (task : ℕ) : CachedLog ρ :=
  match s.tasks[task]? with
  | none => s
  | some t =>
    if ∀ b ∈ t.batches, b ∈ s.log.batches then
      { s with
        tasks := s.tasks.eraseIdx task
        durable_end := t.batches.foldl (fun d b => max d b.last_offset) s.durable_end
        cache := s.cache.record_append t.batches }
    else s

def step (s : CachedLog ρ) : Step ρ → CachedLog ρ
  | .submit payloads => s.submit payloads
  | .confirm offset =>
    if s.confirm_offset ≤ offset ∧ s.log.IsBoundary offset then
      { s with confirm_offset := offset, durable_end := max s.durable_end offset }
    else s
  | .finish task => s.finish task
  | .fail task cut =>
    if s.durable_end ≤ cut ∧ s.log.IsBoundary cut then
      { s with
        log := s.log.truncate cut
        confirm_offset := cut
        durable_end := cut
        tasks := s.tasks.eraseIdx task }
    else s
  | .reset_cache => { s with cache := .reset }
  | .trim new_start_offset committed_end => s.trim new_start_offset committed_end
  | .begin_read start =>
    if start < s.confirm_offset then
      { s with reads := ⟨start, s.confirm_offset⟩ :: s.reads }
    else s
  | .serve_read read max_bytes =>
    match s.reads[read]? with
    | none => s
    | some r => s.serve r max_bytes

/-- What the cache serves is read at or above the start of the log. -/
def ServesLiveRecords (s : CachedLog ρ) : Step ρ → Prop
  | .serve_read read _ => ∀ r ∈ s.reads[read]?,
    (s.cache.tail_batches r.start).isSome → s.start_offset ≤ r.start
  | _ => True

instance (s : CachedLog ρ) (a : Step ρ) : Decidable (s.ServesLiveRecords a) :=
  match a with
  | .serve_read read _ => inferInstanceAs (Decidable (∀ r ∈ s.reads[read]?, _))
  | .submit _ | .confirm _ | .finish _ | .fail _ _ | .reset_cache | .trim _ _ | .begin_read _ =>
    .isTrue trivial

end CachedLog

/-- What the cache returned is where a fetch would have started, record for record, at or above the
start of the log. -/
structure TailAnswer.Invisible (a : TailAnswer ρ) : Prop where
  fetched : ∃ fetched, a.fetched = some fetched ∧ a.served <+: fetched
  above_start : ∀ r ∈ a.served, a.log_start ≤ r.1
  served_ne : a.served ≠ []

end PicoMq.Server
