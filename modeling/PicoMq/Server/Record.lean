import PicoMq.Library.Wire
import PicoMq.Server.Producers

/-!
# Record batches

The Kafka RecordBatch v2 format: a header of fixed fields, then the records, whose lengths and
deltas are zigzag varints.
-/

namespace PicoMq.Server

open Metadata Wire

def BATCH_HEADER_PREFIX : ℕ := 12

def BATCH_HEADER_LEN : ℕ := 61

def MAGIC_V2 : ℤ := 2

def ATTR_COMPRESSION : ℕ := 0x07

def ATTR_LOG_APPEND_TIME : ℕ := 1 <<< 3

def ATTR_TRANSACTIONAL : ℕ := 1 <<< 4

def ATTR_CONTROL : ℕ := 1 <<< 5

def NO_PRODUCER_ID : ℤ := -1

def NO_PRODUCER_EPOCH : ℤ := -1

def NO_SEQUENCE : ℤ := -1

/-- A record without its offset. -/
structure LogRecord where
  timestamp_ms : ℤ := 0
  key : Option Bytes := none
  value : Option Bytes := none
  headers : List (String × Option Bytes) := []
deriving DecidableEq, Repr

def LogRecord.size_hint (record : LogRecord) : ℕ :=
  (record.key.map List.length).getD 0 + (record.value.map List.length).getD 0 +
    record.headers.foldl (fun size header =>
      size + (header.1.utf8ByteSize + (header.2.map List.length).getD 0)) 0

structure StreamRecord where
  offset : ℕ
  record : LogRecord
deriving DecidableEq, Repr

/-- The header of a batch, as far as it is used. -/
structure BatchHeader where
  base_offset : ℕ
  leader_epoch : ℤ
  record_count : ℕ
  first_timestamp_ms : ℤ
  max_timestamp_ms : ℤ
  compression : ℕ
  log_append_time : Bool
  transactional_or_control : Bool
  producer : Option NumericProducer
  len : ℕ
deriving DecidableEq, Repr

inductive RecordError where
  | truncated
  | magic (magic : ℤ)
  | empty
  | crc
  | decode (message : String)
deriving DecidableEq, Repr

def RecordError.to_string : RecordError → String
  | truncated => "record batch truncated"
  | magic m => s!"record batch magic {m} is not v2"
  | empty => "record batch has no records"
  | crc => "record batch crc does not match its contents"
  | decode message => s!"record batch: {message}"

/-- An error, or a sum that leaves its type: a panic, or a wrapped value where overflow is not
checked. -/
inductive Fault where
  | error (error : RecordError)
  | overflow
deriving DecidableEq, Repr

/-- The functions of other crates that the format rests on. -/
structure Codecs where
  crc32c : Bytes → UInt32
  /-- What the decompressor of a codec makes of a record section, or its error text. -/
  decompress : ℕ → Bytes → Except String Bytes

/-! ## Words -/

def put_i8 (x : ℤ) : Bytes := be_bytes 1 (to_unsigned 7 x)

def put_i16 (x : ℤ) : Bytes := be_bytes 2 (to_unsigned 15 x)

def put_i32 (x : ℤ) : Bytes := be_bytes 4 (to_unsigned 31 x)

def put_u32 (n : ℕ) : Bytes := be_bytes 4 n

def put_i64 (x : ℤ) : Bytes := be_bytes 8 (to_unsigned 63 x)

/-- The loop shifts seven bits out at a time, so the tenth byte holds what is left of a `u64`. -/
def put_unsigned_varint (value : ℕ) : Bytes := varint 9 value

def put_varint (value : ℤ) : Bytes := put_unsigned_varint (zigzag (BitVec.ofInt 32 value)).toNat

def put_varlong (value : ℤ) : Bytes := put_unsigned_varint (zigzag (BitVec.ofInt 64 value)).toNat

def get_unsigned_varint (max_bytes : ℕ) : Reader Fault ℕ :=
  Reader.varint 64 (.error .truncated) (.error (.decode "varint is too long")) max_bytes 0 0

def get_varint : Reader Fault ℤ := do
  let raw ← get_unsigned_varint 5
  pure (unzigzag (BitVec.ofNat 32 raw)).toInt

def get_varlong : Reader Fault ℤ := do
  let raw ← get_unsigned_varint 10
  pure (unzigzag (BitVec.ofNat 64 raw)).toInt

/-! ## Encoding -/

def leader_epoch (stream_epoch : ℕ) : ℤ :=
  if stream_epoch < 2 ^ 31 then stream_epoch else 2 ^ 31 - 1

/-- A length and the bytes, or `-1` in their place. -/
def put_nullable : Option Bytes → Bytes
  | some bytes => put_varint bytes.length ++ bytes
  | none => put_varint (-1)

def put_header (header : String × Option Bytes) : Bytes :=
  put_varint header.1.utf8ByteSize ++ utf8 header.1 ++ put_nullable header.2

def record_body (attributes : UInt8) (timestamp_delta offset_delta : ℤ) (record : LogRecord) :
    Bytes :=
  [attributes] ++ put_varlong timestamp_delta ++ put_varint offset_delta ++
    put_nullable record.key ++ put_nullable record.value ++ put_varint record.headers.length ++
    record.headers.flatMap put_header

/-- The server's own records: no attributes, and the time of their batch. -/
def put_record (offset_delta : ℤ) (record : LogRecord) : Bytes :=
  let body := record_body 0 0 offset_delta record
  put_varint body.length ++ body

def put_producer : Option NumericProducer → Bytes
  | some producer => put_i64 producer.id ++ put_i16 producer.epoch ++ put_i32 producer.first_seq
  | none => put_i64 NO_PRODUCER_ID ++ put_i16 NO_PRODUCER_EPOCH ++ put_i32 NO_SEQUENCE

/-- A batch as it is first written, with the length and the checksum still open. -/
def draft_batch (base_offset : ℕ) (leader_epoch timestamp_ms : ℤ)
    (producer : Option NumericProducer) (records : List LogRecord) : Bytes :=
  put_i64 base_offset ++ put_i32 0 ++ put_i32 leader_epoch ++ put_i8 MAGIC_V2 ++ put_u32 0 ++
    put_i16 ATTR_LOG_APPEND_TIME ++ put_i32 (records.length - 1) ++ put_i64 timestamp_ms ++
    put_i64 timestamp_ms ++ put_producer producer ++ put_i32 records.length ++
    records.zipIdx.flatMap fun r => put_record r.2 r.1

/-- The caller has at least one record. -/
def encode_batch (codecs : Codecs) (base_offset : ℕ) (leader_epoch timestamp_ms : ℤ)
    (producer : Option NumericProducer) (records : List LogRecord) : Bytes :=
  let buf := draft_batch base_offset leader_epoch timestamp_ms producer records
  let buf := splice buf 8 (put_i32 (buf.length - BATCH_HEADER_PREFIX))
  splice buf 17 (put_u32 (codecs.crc32c (buf.drop 21)).toNat)

/-! ## Headers -/

variable (payload : Bytes)

/-- The unsigned word of `width` bytes at `pos`. -/
def unsigned_at (pos width : ℕ) : ℕ := of_be_bytes (slice payload pos width)

def i8_at (pos : ℕ) : ℤ := to_signed 7 (unsigned_at payload pos 1)

def i16_at (pos : ℕ) : ℤ := to_signed 15 (unsigned_at payload pos 2)

def i32_at (pos : ℕ) : ℤ := to_signed 31 (unsigned_at payload pos 4)

def i64_at (pos : ℕ) : ℤ := to_signed 63 (unsigned_at payload pos 8)

/-- A batch names a producer when neither its id nor its sequence is negative. -/
def producer_of (id epoch base_sequence : ℤ) : Option NumericProducer :=
  if 0 ≤ id ∧ 0 ≤ base_sequence then some ⟨id, epoch, base_sequence⟩ else none

/-- The fields of a batch that passes the checks. -/
def header_at : BatchHeader :=
  let attributes := unsigned_at payload 21 2
  { base_offset := (i64_at payload 0).toNat
    leader_epoch := i32_at payload 12
    record_count := (i32_at payload 57).toNat
    first_timestamp_ms := i64_at payload 27
    max_timestamp_ms := i64_at payload 35
    compression := attributes &&& ATTR_COMPRESSION
    log_append_time := attributes &&& ATTR_LOG_APPEND_TIME != 0
    transactional_or_control := attributes &&& (ATTR_TRANSACTIONAL ||| ATTR_CONTROL) != 0
    producer := producer_of (i64_at payload 43) (i16_at payload 51) (i32_at payload 53)
    len := BATCH_HEADER_PREFIX + (i32_at payload 8).toNat }

def batch_header : Except RecordError BatchHeader :=
  if payload.length < BATCH_HEADER_LEN then .error .truncated
  else if i8_at payload 16 ≠ MAGIC_V2 then .error (.magic (i8_at payload 16))
  else if i32_at payload 8 < 0 then .error .truncated
  else if payload.length < BATCH_HEADER_PREFIX + (i32_at payload 8).toNat then .error .truncated
  else if i32_at payload 57 ≤ 0 then .error .empty
  else .ok (header_at payload)

def verify_crc (codecs : Codecs) (batch : Bytes) : Except RecordError Unit :=
  if batch.length < BATCH_HEADER_LEN then .error .truncated
  else if (codecs.crc32c (batch.drop 21)).toNat ≠ unsigned_at batch 17 4 then .error .crc
  else .ok ()

/-- Writes the offset and the epoch, which the checksum does not cover. -/
def stamp (pos base_offset : ℕ) (leader_epoch : ℤ) : Bytes :=
  splice (splice payload pos (put_i64 base_offset)) (pos + 12) (put_i32 leader_epoch)

def batch_headers : Except RecordError (List BatchHeader) :=
  items (fun rest => (batch_header rest).map fun header => (header, header.len)) payload

/-! ## Decoding -/

def split (length : ℕ) : Reader Fault Bytes := Reader.take length (.error .truncated)

def get_nullable : Reader Fault (Option Bytes) := do
  let length ← get_varint
  if length < 0 then pure none
  else do
    let bytes ← split length.toNat
    pure (some bytes)

def get_header : Reader Fault (String × Option Bytes) := do
  let name ← get_nullable
  match name with
  | none => .fail (.error (.decode "header name is null"))
  | some name =>
    match of_utf8 name with
    | none => .fail (.error (.decode "header name is not UTF-8"))
    | some name => do
      let value ← get_nullable
      pure (name, value)

/-- A `u64` sum. -/
def add_u64 (a b : ℕ) : Reader Fault ℕ := if a + b < 2 ^ 64 then pure (a + b) else .fail .overflow

/-- An `i64` sum. -/
def add_i64 (a b : ℤ) : Reader Fault ℤ :=
  if IsSigned 63 (a + b) then pure (a + b) else .fail .overflow

/-- The time of a record `timestamp_delta` after the first one of its batch. -/
def timestamp_of (batch : BatchHeader) (timestamp_delta : ℤ) : Reader Fault ℤ :=
  if batch.log_append_time then pure batch.max_timestamp_ms
  else add_i64 batch.first_timestamp_ms timestamp_delta

/-- The fields of one record. A negative header count reads no header. -/
def decode_body (batch : BatchHeader) : Reader Fault StreamRecord := do
  let _attributes ← split 1
  let timestamp_delta ← get_varlong
  let offset_delta ← get_varint
  if offset_delta < 0 then .fail (.error (.decode "negative offset delta"))
  else do
    let key ← get_nullable
    let value ← get_nullable
    let header_count ← get_varint
    let headers ← get_header.many header_count.toNat
    let offset ← add_u64 batch.base_offset offset_delta.toNat
    let timestamp_ms ← timestamp_of batch timestamp_delta
    pure ⟨offset, ⟨timestamp_ms, key, value, headers⟩⟩

/-- One record of a section. Bytes between its last field and its length are skipped. -/
def decode_record (batch : BatchHeader) : Reader Fault StreamRecord := do
  let length ← get_varint
  if length < 0 then .fail (.error (.decode "negative record length"))
  else do
    let encoded ← split length.toNat
    (decode_body batch).within encoded

def decode_records (batch : BatchHeader) : Reader Fault (List StreamRecord) :=
  (decode_record batch).many batch.record_count

/-- The records of a section that is not compressed; what follows the last one is skipped. -/
def run_records (batch : BatchHeader) (bytes : Bytes) : Except Fault (List StreamRecord) :=
  match (decode_records batch).run bytes with
  | .error fault => .error fault
  | .ok (records, _) => .ok records

def decode_section (codecs : Codecs) (batch : BatchHeader) (bytes : Bytes) :
    Except Fault (List StreamRecord) :=
  if batch.compression = 0 then run_records batch bytes
  else if batch.compression ≤ 4 then
    match codecs.decompress batch.compression bytes with
    | .error text => .error (.error (.decode text))
    | .ok bytes => run_records batch bytes
  else .error (.error (.decode ("unknown compression " ++ toString batch.compression)))

/-- The first batch of a payload, and how long it is. -/
def decode_batch (codecs : Codecs) (payload : Bytes) : Except Fault (List StreamRecord × ℕ) := do
  let batch ← (batch_header payload).mapError Fault.error
  (verify_crc codecs (payload.take batch.len)).mapError Fault.error
  let records ← decode_section codecs batch ((payload.take batch.len).drop BATCH_HEADER_LEN)
  .ok (records, batch.len)

def decode_batches (codecs : Codecs) (payload : Bytes) : Except Fault (List StreamRecord) :=
  (items (decode_batch codecs) payload).map List.flatten

/-! ## What a batch stands for -/

/-- A batch that the node encodes itself. -/
structure OwnBatch where
  base_offset : ℕ
  leader_epoch : ℤ
  timestamp_ms : ℤ
  producer : Option NumericProducer
  records : List LogRecord
deriving DecidableEq, Repr

namespace OwnBatch

variable (codecs : Codecs) (batch : OwnBatch)

def encode : Bytes :=
  encode_batch codecs batch.base_offset batch.leader_epoch batch.timestamp_ms batch.producer
    batch.records

def header : BatchHeader where
  base_offset := batch.base_offset
  leader_epoch := batch.leader_epoch
  record_count := batch.records.length
  first_timestamp_ms := batch.timestamp_ms
  max_timestamp_ms := batch.timestamp_ms
  compression := 0
  log_append_time := true
  transactional_or_control := false
  producer := batch.producer
  len := (batch.encode codecs).length

/-- The records to be read from it: the given ones, at consecutive offsets, with its time. -/
def stream_records : List StreamRecord :=
  batch.records.zipIdx.map fun r =>
    ⟨batch.base_offset + r.2, { r.1 with timestamp_ms := batch.timestamp_ms }⟩

/-- The arguments are values of their types, there is a record, and the batch length fits. -/
structure Valid : Prop where
  records_ne : batch.records ≠ []
  base_offset : batch.base_offset < 2 ^ 63
  leader_epoch : IsSigned 31 batch.leader_epoch
  timestamp_ms : IsSigned 63 batch.timestamp_ms
  producer : ∀ p ∈ batch.producer,
    (0 ≤ p.id ∧ IsSigned 63 p.id) ∧ IsSigned 15 p.epoch ∧ 0 ≤ p.first_seq ∧ IsSigned 31 p.first_seq
  size : (batch.encode codecs).length < 2 ^ 31

end OwnBatch

end PicoMq.Server
