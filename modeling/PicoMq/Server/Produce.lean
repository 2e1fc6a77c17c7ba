import PicoMq.Server.Record

/-!
# The produce path and the read path

A Kafka client's payload is checked, stamped with the offsets it gets and appended. The checks look
at the batch headers and at the checksum, never at the records.
-/

namespace PicoMq.Server

open Metadata Wire

/-- The errors of the two paths, with their messages. -/
inductive BatchError where
  | badRequest (message : String)
  | corruptBatch (message : String)
  /-- The sum that overflowed is in the records. -/
  | overflow
deriving DecidableEq, Repr

def BatchError.of_record (error : RecordError) : BatchError := .corruptBatch error.to_string

def BatchError.of_fault : Fault → BatchError
  | .error error => .of_record error
  | .overflow => .overflow

/-! ## Produce -/

/-- The checksums of the batches, one after the other. -/
def verify_crcs (codecs : Codecs) : List BatchHeader → Bytes → Except RecordError Unit
  | [], _ => .ok ()
  | header :: headers, rest => do
    verify_crc codecs (rest.take header.len)
    verify_crcs codecs headers (rest.drop header.len)

variable (headers : List BatchHeader)

/-- What the server does not support. -/
def check_headers : Except BatchError Unit :=
  if headers.any (fun h => h.transactional_or_control) then
    .error (.badRequest "transactional produce is not supported")
  else if headers.length > 1 ∧ headers.any (fun h => h.producer.isSome) then
    .error (.badRequest "idempotent produce must carry exactly one batch")
  else .ok ()

def parse_batches (codecs : Codecs) (payload : Bytes) : Except BatchError (List BatchHeader) :=
  if payload = [] then .error (.badRequest "empty batch payload")
  else do
    let headers ← (batch_headers payload).mapError BatchError.of_record
    if headers = [] then .error (.badRequest "empty batch payload")
    else do
      (verify_crcs codecs headers payload).mapError BatchError.of_record
      check_headers headers
      .ok headers

/-- A batch of the log, as the tail cache and the read path hold it. -/
structure StreamBatch where
  base_offset : ℕ
  last_offset : ℕ
  count : ℕ
  payload : Bytes
deriving DecidableEq, Repr

/-- Where one batch stands in the payload, and the offsets it gets. -/
structure StampedSpan where
  pos : ℕ
  to_pos : ℕ
  assigned : ℕ
  count : ℕ
deriving DecidableEq, Repr

def stamp_loop (leader_epoch : ℤ) :
    List BatchHeader → Bytes → ℕ → ℕ → Bytes × List StampedSpan
  | [], stamped, _, _ => (stamped, [])
  | header :: headers, stamped, pos, assigned =>
    let stamped := stamp stamped pos assigned leader_epoch
    let result := stamp_loop leader_epoch headers stamped (pos + header.len)
      (assigned + header.record_count)
    (result.1, ⟨pos, pos + header.len, assigned, header.record_count⟩ :: result.2)

def stamp_batches (payload : Bytes) (headers : List BatchHeader) (base_offset : ℕ)
    (leader_epoch : ℤ) : Bytes × List StreamBatch :=
  let result := stamp_loop leader_epoch headers payload 0 base_offset
  (result.1, result.2.map fun s =>
    ⟨s.assigned, s.assigned + s.count, s.count, slice result.1 s.pos (s.to_pos - s.pos)⟩)

/-- The offsets that a payload takes. The sum of the counts saturates. -/
def total_count : ℕ :=
  headers.foldl (fun acc h => min (acc + h.record_count) (2 ^ 32 - 1)) 0

/-- A payload of a Kafka client is appended to the log, as one append. -/
def produce (codecs : Codecs) (log : BatchLog Bytes) (payload : Bytes) (stream_epoch : ℕ) :
    Except BatchError (BatchLog Bytes) := do
  let headers ← parse_batches codecs payload
  let stamped := stamp_batches payload headers log.next_offset (leader_epoch stream_epoch)
  .ok (log.append (total_count headers) stamped.1)

/-! ## Read -/

structure LogRead where
  records : List StreamRecord
  next_offset : ℕ
  up_to_date : Bool
deriving DecidableEq, Repr

structure Collected where
  records : List StreamRecord := []
  total : ℕ := 0
  next : ℕ
deriving DecidableEq, Repr

section Collect

variable (start end_offset max_bytes max_records : ℕ)

/-- The records of one batch; the flag says that the read ends here. -/
def collect_batch : List StreamRecord → Collected → Collected × Bool
  | [], c => (c, false)
  | r :: rs, c =>
    if r.offset < start then collect_batch rs c
    else if end_offset ≤ r.offset then (c, true)
    else if max_bytes < c.total + r.record.size_hint ∧ 0 < c.total then (c, true)
    else
      let c := ⟨c.records ++ [r], c.total + r.record.size_hint, r.offset + 1⟩
      if max_bytes ≤ c.total ∨ max_records ≤ c.records.length then (c, true)
      else collect_batch rs c

def collect_loop (codecs : Codecs) : List StreamBatch → Collected → Except Fault Collected
  | [], c => .ok c
  | batch :: batches, c =>
    if batch.last_offset ≤ start then collect_loop codecs batches c
    else if end_offset ≤ batch.base_offset then .ok c
    else do
      let records ← decode_batches codecs batch.payload
      let result := collect_batch start end_offset max_bytes max_records records c
      if result.2 then .ok result.1 else collect_loop codecs batches result.1

def collect_records (codecs : Codecs) (batches : List StreamBatch) : Except BatchError LogRead := do
  let c ← (collect_loop start end_offset max_bytes max_records codecs batches
    { next := start }).mapError BatchError.of_fault
  .ok ⟨c.records, c.next, end_offset ≤ c.next⟩

end Collect

/-- A limit of 0 is none. -/
def limit (n : ℕ) : ℕ := if n > 0 then n else 2 ^ 64 - 1

def of_log_batch (batch : Batch Bytes) : StreamBatch :=
  ⟨batch.base_offset, batch.last_offset, batch.record_count, batch.payload⟩

/-- An HTTP read. The stream returns the first `fetched` of the batches that the range touches. -/
def read (codecs : Codecs) (log : BatchLog Bytes) (confirm_offset fetched start max_bytes
    max_records : ℕ) : Except BatchError LogRead :=
  if confirm_offset < start then .error (.badRequest "BadRequest")
  else if start = confirm_offset then .ok ⟨[], confirm_offset, true⟩
  else
    collect_records start confirm_offset (limit max_bytes) (limit max_records) codecs
      (((log.fetch start confirm_offset).take fetched).map of_log_batch)

/-! ## What Kafka clients should send -/

/-- The section alone, at offset 0, reads as the records that the header declares, numbered from 0 on.
What follows them does not matter. -/
def WellFormedSection (header : BatchHeader) (bytes : Bytes) : Prop :=
  (run_records { header with base_offset := 0, leader_epoch := 0 } bytes).map
    (List.map StreamRecord.offset) = .ok (List.range header.record_count)

instance (header : BatchHeader) (bytes : Bytes) : Decidable (WellFormedSection header bytes) :=
  inferInstanceAs (Decidable (_ = _))

/-- Every batch of the payload with its record section. -/
def sections : List BatchHeader → Bytes → List (BatchHeader × Bytes)
  | [], _ => []
  | header :: headers, rest =>
    (header, (rest.take header.len).drop BATCH_HEADER_LEN) ::
      sections headers (rest.drop header.len)

def declared : ℕ := (headers.map BatchHeader.record_count).sum

/-- The stamped payload decodes, each batch to as many records as it declares, at consecutive offsets
from its own, and so the whole. -/
def DecodesAsStamped (codecs : Codecs) (payload : Bytes) (headers : List BatchHeader)
    (base_offset : ℕ) (leader_epoch : ℤ) : Prop :=
  let stamped := stamp_batches payload headers base_offset leader_epoch
  stamped.2.map StreamBatch.count = headers.map BatchHeader.record_count ∧
    (∀ b ∈ stamped.2, (decode_batches codecs b.payload).map (List.map StreamRecord.offset) =
      .ok (List.range' b.base_offset b.count)) ∧
    (decode_batches codecs stamped.1).map (List.map StreamRecord.offset) =
      .ok (List.range' base_offset (declared headers))

/-- Uncompressed batches whose records are what their headers say, not more than a count can hold. -/
structure Honest (payload : Bytes) : Prop where
  uncompressed : ∀ header ∈ headers, header.compression = 0
  well_formed : ∀ s ∈ sections headers payload, WellFormedSection s.1 s.2
  count : declared headers < 2 ^ 32

end PicoMq.Server
