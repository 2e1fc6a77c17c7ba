import PicoMq.Server.Produce
import PicoMq.Server.TailCache

/-!
# Reading a log to its end

A reader asks again from the offset that was returned. The batches come from the tail cache if it
reaches back to the start of the read, and from the stream otherwise.
-/

namespace PicoMq.Server

open Metadata Wire

def with_bytes (b : Batch (Payload UInt8)) : Batch Bytes :=
  ⟨b.base_offset, b.record_count, b.payload.records⟩

/-- The cache, and what the stream answers to a fetch of `[start, end)` with a limit of bytes. -/
structure Source where
  cache : TailCache UInt8
  fetch : ℕ → ℕ → ℕ → List (Batch Bytes)

def batches_from (source : Source) (start end_offset max_bytes : ℕ) : List StreamBatch :=
  match source.cache.tail_batches start with
  | some cached =>
    (cut_to_limits end_offset max_bytes cached 0 true).map fun b => of_log_batch (with_bytes b)
  | none => (source.fetch start end_offset max_bytes).map of_log_batch

def read_from (codecs : Codecs) (source : Source) (end_offset start max_bytes max_records : ℕ) :
    Except BatchError LogRead :=
  if end_offset < start then .error (.badRequest "BadRequest")
  else if start = end_offset then .ok ⟨[], end_offset, true⟩
  else
    collect_records start end_offset (limit max_bytes) (limit max_records) codecs
      (batches_from source start end_offset (limit max_bytes))

/-- Reads from the offset that the read before returned, until one is up to date. The cache changes
meanwhile, so each has its own source. -/
def read_on (codecs : Codecs) (end_offset max_bytes max_records : ℕ) :
    List Source → ℕ → Except BatchError (List LogRead)
  | [], _ => .ok []
  | source :: sources, start => do
    let read ← read_from codecs source end_offset start max_bytes max_records
    if read.up_to_date then .ok [read]
    else do
      let reads ← read_on codecs end_offset max_bytes max_records sources read.next_offset
      .ok (read :: reads)

/-! ## The log -/

/-- The records of a log from offset 0 on; a trim hides the first of them. -/
structure RecordLog where
  records : List StreamRecord
  /-- Every record stands at its offset. -/
  numbered : records.map StreamRecord.offset = List.range records.length

/-- The bytes of the batch decode to the records of the log at its offsets. -/
structure RecordLog.Holds (codecs : Codecs) (log : RecordLog) (b : Batch Bytes) : Prop where
  last_le : b.last_offset ≤ log.records.length
  decodes : decode_batches codecs b.payload =
    .ok ((log.records.drop b.base_offset).take b.record_count)

/-- The states of the tail cache: what appends of adjacent batches and resets lead to. -/
inductive TailCache.Built {ρ : Type} : TailCache ρ → Prop
  | reset : Built reset
  | append {cache : TailCache ρ} {batches : List (Batch (Payload ρ))} (built : Built cache)
    (adjacent : ∃ n, Contiguous n batches) : Built (cache.record_append batches)

/-- The cached batches are of the log, and a fetch returns a run of batches whose first has the
record that was asked for. -/
structure Source.Serves (codecs : Codecs) (log : RecordLog) (start_offset end_offset : ℕ)
    (source : Source) : Prop where
  built : source.cache.Built
  cached : ∀ b ∈ source.cache.recent, log.Holds codecs (with_bytes b)
  fetched : ∀ start max_bytes, start_offset ≤ start → start < end_offset →
    ∃ first rest, source.fetch start end_offset max_bytes = first :: rest ∧
      first.base_offset ≤ start ∧ start < first.last_offset ∧
      Contiguous first.base_offset (first :: rest) ∧ ∀ b ∈ first :: rest, log.Holds codecs b

/-- A batch that a read of `[start_offset, end_offset)` can come across. -/
def Source.Has (source : Source) (start_offset end_offset : ℕ) (b : Batch Bytes) : Prop :=
  (∃ cached ∈ source.cache.recent, with_bytes cached = b) ∨
    ∃ start max_bytes, start_offset ≤ start ∧ start < end_offset ∧
      b ∈ source.fetch start end_offset max_bytes

/-- The reads return every record once and in order, and only the last reaches the end and says so.
-/
structure ReadsRange (log : RecordLog) (start end_offset : ℕ) (reads : List LogRead) : Prop where
  records : reads.flatMap LogRead.records = (log.records.drop start).take (end_offset - start)
  ends : ∃ before last, reads = before ++ [last] ∧
    last.next_offset = end_offset ∧ last.up_to_date = true ∧
    ∀ read ∈ before, read.records ≠ [] ∧ read.next_offset < end_offset ∧ read.up_to_date = false

end PicoMq.Server
