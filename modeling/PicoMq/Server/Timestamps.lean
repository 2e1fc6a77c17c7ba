import PicoMq.Metadata.Spans
import PicoMq.Server.Reads

/-!
# Looking records up by their time

Both lookups leave out batches whose header says that they are too old, and objects that were
written too early; the first also searches the batches by halving.
-/

namespace PicoMq.Server

open Metadata Wire

def READ_BYTES : ℕ := 4 * 1024 * 1024

def PROBE_BYTES : ℕ := 1

structure BatchReadResult where
  batches : List StreamBatch
  next_offset : ℕ
deriving DecidableEq, Repr

def read_batches (source : Source) (high_watermark start max_bytes : ℕ) : BatchReadResult :=
  if high_watermark ≤ start then ⟨[], start⟩
  else
    let batches := batches_from source start high_watermark (limit max_bytes)
    ⟨batches, batches.foldl (fun next batch => max next batch.last_offset) start⟩

structure StreamWatermarks where
  log_start_offset : ℕ
  high_watermark : ℕ
deriving DecidableEq, Repr

/-- The newest timestamp in every Kafka batch the stored payload holds. -/
def max_timestamp (batch : StreamBatch) : Except BatchError ℤ := do
  let headers ← (batch_headers batch.payload).mapError BatchError.of_record
  .ok (headers.foldl (fun newest header => max newest header.max_timestamp_ms) (-2 ^ 63))

/-- A stored batch can start below the log start after a trim, so records before it are dropped. -/
def live_records (codecs : Codecs) (batch : StreamBatch) (log_start : ℕ) :
    Except BatchError (List StreamRecord) := do
  let records ← (decode_batches codecs batch.payload).mapError BatchError.of_fault
  .ok (records.filter fun record => log_start ≤ record.offset)

/-! ## The first record at or after a time -/

def written_from (spans : List ObjectSpan) (timestamp_ms : ℤ) : ℕ :=
  match spans.find? fun span => timestamp_ms ≤ span.last_write_ms with
  | some span => span.start_offset
  | none => spans.getLast?.elim 0 ObjectSpan.end_offset

/-- The loop of `first_batch_reaching`; a round at least shrinks the range by one offset. -/
def first_batch_reaching (probe : ℕ → Option StreamBatch) (floor : ℕ) (timestamp_ms : ℤ) :
    ℕ → ℕ → ℕ → Except BatchError ℕ
  | 0, low, high => .ok (max (min low high) floor)
  | rounds + 1, low, high =>
    if low < high then
      match probe (low + (high - low) / 2) with
      | none => .ok (max (min low high) floor)
      | some batch => do
        let newest ← max_timestamp batch
        if newest < timestamp_ms ∧ low < batch.last_offset then
          first_batch_reaching probe floor timestamp_ms rounds batch.last_offset high
        else if timestamp_ms ≤ newest ∧ batch.base_offset < high then
          first_batch_reaching probe floor timestamp_ms rounds low batch.base_offset
        else .ok (max (min low high) floor)
    else .ok (max (min low high) floor)

/-- The batches that the loop looks at. -/
def probed (probe : ℕ → Option StreamBatch) (timestamp_ms : ℤ) : ℕ → ℕ → ℕ → List StreamBatch
  | 0, _, _ => []
  | rounds + 1, low, high =>
    if low < high then
      match probe (low + (high - low) / 2) with
      | none => []
      | some batch =>
        batch :: match max_timestamp batch with
          | .error _ => []
          | .ok newest =>
            if newest < timestamp_ms ∧ low < batch.last_offset then
              probed probe timestamp_ms rounds batch.last_offset high
            else if timestamp_ms ≤ newest ∧ batch.base_offset < high then
              probed probe timestamp_ms rounds low batch.base_offset
            else []
    else []

section Lookup

variable (codecs : Codecs) (source : Source) (watermarks : StreamWatermarks)

/-- The batches of one read, up to the first record that is found. -/
def find_in_batches (timestamp_ms : ℤ) : List StreamBatch → Except BatchError (Option StreamRecord)
  | [] => .ok none
  | batch :: batches => do
    let newest ← max_timestamp batch
    if newest < timestamp_ms then find_in_batches timestamp_ms batches
    else do
      let records ← live_records codecs batch watermarks.log_start_offset
      match records.find? fun record => timestamp_ms ≤ record.record.timestamp_ms with
      | some found => .ok (some found)
      | none => find_in_batches timestamp_ms batches

/-- The reads from `cursor` on. -/
def find_from (timestamp_ms : ℤ) : ℕ → ℕ → Except BatchError (Option StreamRecord)
  | 0, _ => .ok none
  | rounds + 1, cursor =>
    if cursor < watermarks.high_watermark then
      let read := read_batches source watermarks.high_watermark cursor READ_BYTES
      if read.batches = [] then .ok none
      else do
        match ← find_in_batches codecs watermarks timestamp_ms read.batches with
        | some found => .ok (some found)
        | none => find_from timestamp_ms rounds read.next_offset
    else .ok none

/-- The first batch that a small read at the offset returns. -/
def probe_at (high_watermark offset : ℕ) : Option StreamBatch :=
  (read_batches source high_watermark offset PROBE_BYTES).batches.head?

/-- The two loops make at most `rounds` rounds each. -/
def record_at_or_after (rounds : ℕ) (spans : List ObjectSpan) (timestamp_ms : ℤ) :
    Except BatchError (Option StreamRecord) := do
  let floor := max (written_from spans timestamp_ms) watermarks.log_start_offset
  let cursor ← first_batch_reaching (probe_at source watermarks.high_watermark) floor timestamp_ms
    rounds floor watermarks.high_watermark
  find_from codecs source watermarks timestamp_ms rounds cursor

/-! ## The newest record -/

def replaces (record best : StreamRecord) : Prop :=
  best.record.timestamp_ms < record.record.timestamp_ms ∨
    record.record.timestamp_ms = best.record.timestamp_ms ∧ record.offset < best.offset

instance (record best : StreamRecord) : Decidable (replaces record best) :=
  inferInstanceAs (Decidable (_ ∨ _))

def best_of_records (start end_offset : ℕ) (records : List StreamRecord)
    (best : Option StreamRecord) : Option StreamRecord :=
  records.foldl (fun best record =>
    if record.offset < start ∨ end_offset ≤ record.offset then best
    else if best.all fun best => replaces record best then some record
    else best) best

def best_of_batches (start end_offset : ℕ) :
    List StreamBatch → Option StreamRecord → Except BatchError (Option StreamRecord)
  | [], best => .ok best
  | batch :: batches, best => do
    let ceiling ← max_timestamp batch
    if best.any fun best => ceiling < best.record.timestamp_ms then
      best_of_batches start end_offset batches best
    else do
      let records ← live_records codecs batch watermarks.log_start_offset
      best_of_batches start end_offset batches (best_of_records start end_offset records best)

/-- The reads from `cursor` on. -/
def best_between (start end_offset : ℕ) :
    ℕ → ℕ → Option StreamRecord → Except BatchError (Option StreamRecord)
  | 0, _, best => .ok best
  | rounds + 1, cursor, best =>
    if cursor < end_offset then
      let read := read_batches source watermarks.high_watermark cursor READ_BYTES
      if read.batches = [] then .ok best
      else do
        let best ← best_of_batches codecs watermarks start end_offset read.batches best
        best_between start end_offset rounds read.next_offset best
    else .ok best

/-- The end of what the objects hold, or the start of the log. -/
def committed_end (spans : List ObjectSpan) : ℕ :=
  max (spans.getLast?.elim watermarks.log_start_offset ObjectSpan.end_offset)
    watermarks.log_start_offset

/-- The objects from the newest to the oldest; each loop makes at most `rounds` rounds. -/
def best_of_spans (rounds : ℕ) :
    List ObjectSpan → Option StreamRecord → Except BatchError (Option StreamRecord)
  | [], best => .ok best
  | span :: spans, best =>
    if best.any fun best => span.last_write_ms < best.record.timestamp_ms then
      best_of_spans rounds spans best
    else do
      let start := max span.start_offset watermarks.log_start_offset
      let best ← best_between codecs source watermarks start span.end_offset rounds start best
      best_of_spans rounds spans best

def record_with_max_timestamp (rounds : ℕ) (spans : List ObjectSpan) :
    Except BatchError (Option StreamRecord) := do
  let committed := committed_end watermarks spans
  let best ← best_between codecs source watermarks committed watermarks.high_watermark rounds
    committed none
  best_of_spans codecs source watermarks rounds spans.reverse best

end Lookup

/-! ## What is asked for -/

section Asked

variable (log : RecordLog) (source : Source) (log_start : ℕ)

def RecordLog.live : List StreamRecord :=
  log.records.filter fun record => log_start ≤ record.offset

/-- The first live record at or after the time. -/
def RecordLog.first_from (timestamp_ms : ℤ) : Option StreamRecord :=
  (log.live log_start).find? fun record => timestamp_ms ≤ record.record.timestamp_ms

/-- The batch holds the record, as far as its offsets tell. -/
def InBatch (b : Batch Bytes) (record : StreamRecord) : Prop :=
  b.base_offset ≤ record.offset ∧ record.offset < b.last_offset

/-- The header of the batch is not older than the time. -/
def HeaderReaches (timestamp_ms : ℤ) (b : Batch Bytes) : Prop :=
  ∀ newest, max_timestamp (of_log_batch b) = .ok newest → timestamp_ms ≤ newest

/-- Those of the batches that a header makes too old end at or before the offset. -/
def PassesOnly (timestamp_ms : ℤ) (batches : List StreamBatch) (offset : ℕ) : Prop :=
  ∀ batch ∈ batches, ∀ newest, max_timestamp batch = .ok newest → newest < timestamp_ms →
    batch.last_offset ≤ offset

/-- The first record at or after the time is not hidden: not by the header of a batch that holds it,
not by a batch further on that the search by halving looks at, and not by the objects. -/
def SearchFinds (rounds : ℕ) (spans : List ObjectSpan) (timestamp_ms : ℤ) : Prop :=
  ∀ first ∈ log.first_from log_start timestamp_ms,
    (∀ b, source.Has log_start log.records.length b → InBatch b first →
      HeaderReaches timestamp_ms b) ∧
    PassesOnly timestamp_ms (probed (probe_at source log.records.length) timestamp_ms rounds
      (max (written_from spans timestamp_ms) log_start) log.records.length) first.offset ∧
    written_from spans timestamp_ms ≤ first.offset

/-- All reads cut the log into the same batches. -/
def OneCut : Prop :=
  ∀ b b', source.Has log_start log.records.length b → source.Has log_start log.records.length b' →
    b.base_offset < b'.last_offset → b'.base_offset < b.last_offset → b = b'

/-- The live records of every batch are on one side of the offset. -/
def Cuts (offset : ℕ) : Prop :=
  ∀ b, source.Has log_start log.records.length b →
    offset ≤ max b.base_offset log_start ∨ b.last_offset ≤ offset

/-- A record is newer than another, or as new and not after it. -/
def AtLeast (m r : StreamRecord) : Prop :=
  r.record.timestamp_ms < m.record.timestamp_ms ∨
    r.record.timestamp_ms = m.record.timestamp_ms ∧ m.offset ≤ r.offset

/-- The newest of the records, with the lowest offset among equals. -/
def IsNewest (records : List StreamRecord) : Option StreamRecord → Prop
  | none => records = []
  | some newest => newest ∈ records ∧ ∀ record ∈ records, AtLeast newest record

/-- No live record but `m` that was looked at is newer than the time. -/
def OthersBelow (m : StreamRecord) (looked_at : StreamRecord → Prop) (ceiling : ℤ) : Prop :=
  ∀ r ∈ log.live log_start, looked_at r → r ≠ m → r.record.timestamp_ms ≤ ceiling

/-- The record was looked at before, or is in the range and in a batch that ends by the cursor. -/
def LookedAt (looked_at : StreamRecord → Prop) (start end_offset cursor : ℕ) (r : StreamRecord) :
    Prop :=
  looked_at r ∨ start ≤ r.offset ∧ r.offset < end_offset ∧
    ∃ b, source.Has log_start log.records.length b ∧ InBatch b r ∧ b.last_offset ≤ cursor

/-- The header of every batch that holds `m` is at least as new as what is looked at before it, if
the range is gone through from its start. -/
def HeadersReach (m : StreamRecord) (looked_at : StreamRecord → Prop) (start end_offset : ℕ) : Prop :=
  ∀ b, source.Has log_start log.records.length b → InBatch b m →
    ∀ newest, max_timestamp (of_log_batch b) = .ok newest → OthersBelow log log_start m
      (LookedAt log source log_start looked_at start end_offset m.offset) newest

/-- One of the objects, which are gone through in this order, holds `m`, and neither its time nor the
header of a batch hides `m` behind what is looked at before. -/
def ShownIn (m : StreamRecord) : (StreamRecord → Prop) → List ObjectSpan → Prop
  | _, [] => False
  | looked_at, span :: spans =>
    span.Holds m.offset ∧ OthersBelow log log_start m looked_at span.last_write_ms ∧
      HeadersReach log source log_start m looked_at (max span.start_offset log_start)
        span.end_offset ∨
    ShownIn m (fun r => looked_at r ∨ span.Holds r.offset) spans

/-- The newest record is not hidden by what is looked at before it: in the tail by its header, and
in the committed part by its header and an object that holds it. -/
def NewestShows (spans : List ObjectSpan) : Prop :=
  ∀ m, IsNewest (log.live log_start) (some m) →
    if committed_end ⟨log_start, log.records.length⟩ spans ≤ m.offset then
      HeadersReach log source log_start m (fun _ => False)
        (committed_end ⟨log_start, log.records.length⟩ spans) log.records.length
    else ShownIn log source log_start m
      (fun r => committed_end ⟨log_start, log.records.length⟩ spans ≤ r.offset) spans.reverse

end Asked

end PicoMq.Server
