import PicoMq.Library.Proofs.FoldProofs
import PicoMq.Library.Proofs.WireProofs
import PicoMq.Server.Record

/-!
# Proofs: record batches

What the server writes as a batch, it reads back.
-/

namespace PicoMq.Server

open Except List Metadata Wire

variable {x : ℤ}

/-! ## Words -/

theorem length_put_varint_pos (x : ℤ) : 0 < (put_varint x).length := length_varint_pos _ _

theorem reads_i32 (h : IsSigned 31 x) : get_varint.Reads (put_varint x) x := by
  have hlt := (zigzag (BitVec.ofInt 32 x)).isLt
  -- an `i32` needs five bytes at most, as many as the reader takes
  have hshort : put_varint x = varint 4 (zigzag (BitVec.ofInt 32 x)).toNat :=
    varint_eq_of_lt (by omega) (by omega)
  have hraw : (get_unsigned_varint 5).Reads (put_varint x) (zigzag (BitVec.ofInt 32 x)).toNat := by
    rw [hshort]
    exact reads_varint (by omega) (by omega) (by omega)
  have hread : get_varint.Reads (put_varint x) (unzigzag (BitVec.ofNat 32 _)).toInt := hraw.last
  rwa [toInt_unzigzag h] at hread

theorem reads_i64 (h : IsSigned 63 x) : get_varlong.Reads (put_varlong x) x := by
  have hlt := (zigzag (BitVec.ofInt 64 x)).isLt
  have hraw : (get_unsigned_varint 10).Reads (put_varlong x)
      (zigzag (BitVec.ofInt 64 x)).toNat := reads_varint (by omega) (by omega) (by omega)
  have hread : get_varlong.Reads (put_varlong x) (unzigzag (BitVec.ofNat 64 _)).toInt := hraw.last
  rwa [toInt_unzigzag h] at hread

theorem reads_length {n : ℕ} (h : n < 2 ^ 31) : get_varint.Reads (put_varint n) n :=
  reads_i32 (by unfold IsSigned; omega)

/-! ## Records -/

theorem reads_bytes {bytes : Bytes} (h : bytes.length < 2 ^ 31) :
    get_nullable.Reads (put_varint bytes.length ++ bytes) (some bytes) := by
  refine (reads_length h).bind ?_
  rw [if_neg (by omega), Int.toNat_natCast]
  exact (Reader.Reads.take rfl).last

theorem reads_nullable {value : Option Bytes} (h : (put_nullable value).length < 2 ^ 31) :
    get_nullable.Reads (put_nullable value) value := by
  cases value with
  | none =>
    have hread : get_varint.Reads (put_varint (-1)) (-1) := reads_i32 (by decide)
    exact hread.bind Reader.Reads.pure
  | some bytes =>
    rw [put_nullable, length_append] at h
    exact reads_bytes (by omega)

theorem reads_header {header : String × Option Bytes} (h : (put_header header).length < 2 ^ 31) :
    get_header.Reads (put_header header) header := by
  rw [put_header, length_append, length_append, length_utf8] at h
  have hname : get_nullable.Reads (put_varint header.1.utf8ByteSize ++ utf8 header.1)
      (some (utf8 header.1)) := by
    have hbytes : get_nullable.Reads (put_varint (utf8 header.1).length ++ utf8 header.1) _ :=
      reads_bytes (by rw [length_utf8]; omega)
    rwa [length_utf8] at hbytes
  refine hname.bind ?_
  simp only [of_utf8_utf8]
  exact (reads_nullable (by omega)).last

theorem length_le_length_flatMap {α : Type} (put : α → Bytes) {l : List α} {a : α} (h : a ∈ l) :
    (put a).length ≤ (l.flatMap put).length := by
  induction l with
  | nil => cases h
  | cons b l ih =>
    rw [flatMap_cons, length_append]
    rcases mem_cons.1 h with rfl | h
    · omega
    · have hle := ih h
      omega

theorem length_le_flatMap_of_pos {α : Type} {put : α → Bytes} {l : List α}
    (h : ∀ a, 0 < (put a).length) : l.length ≤ (l.flatMap put).length := by
  induction l with
  | nil => simp
  | cons a l ih =>
    rw [flatMap_cons, length_append, length_cons]
    have hpos := h a
    omega

theorem length_put_header_pos (header : String × Option Bytes) :
    0 < (put_header header).length := by
  have hpos := length_put_varint_pos header.1.utf8ByteSize
  rw [put_header, length_append, length_append]
  omega

/-- The time of a record `timestamp_delta` after the first one of its batch. -/
def record_time (batch : BatchHeader) (timestamp_delta : ℤ) : ℤ :=
  if batch.log_append_time then batch.max_timestamp_ms
  else batch.first_timestamp_ms + timestamp_delta

/-- The record that a body stands for in its batch. -/
def decoded (batch : BatchHeader) (timestamp_delta : ℤ) (offset_delta : ℕ) (record : LogRecord) :
    StreamRecord :=
  ⟨batch.base_offset + offset_delta,
    { record with timestamp_ms := record_time batch timestamp_delta }⟩

section Record

variable {batch : BatchHeader} {attributes : UInt8} {timestamp_delta : ℤ} {offset_delta : ℕ}
variable {record : LogRecord}

theorem add_u64_reads {a b : ℕ} (h : a + b < 2 ^ 64) : (add_u64 a b).Reads [] (a + b) := by
  rw [add_u64, if_pos h]
  exact Reader.Reads.pure

theorem timestamp_of_reads (h : batch.log_append_time = true ∨
      IsSigned 63 (batch.first_timestamp_ms + timestamp_delta)) :
    (timestamp_of batch timestamp_delta).Reads [] (record_time batch timestamp_delta) := by
  rw [timestamp_of, record_time]
  by_cases hbatch : batch.log_append_time = true
  · rw [if_pos hbatch, if_pos hbatch]
    exact Reader.Reads.pure
  · rw [if_neg hbatch, if_neg hbatch, add_i64, if_pos (h.resolve_left hbatch)]
    exact Reader.Reads.pure

section

variable (hlen : (record_body attributes timestamp_delta offset_delta record).length < 2 ^ 31)
  (hdelta : IsSigned 63 timestamp_delta) (hindex : offset_delta < 2 ^ 31)
  (hbase : batch.base_offset < 2 ^ 63)
  (htime : batch.log_append_time = true ∨ IsSigned 63 (batch.first_timestamp_ms + timestamp_delta))
include hlen hdelta hindex hbase htime

theorem reads_body :
    (decode_body batch).Reads (record_body attributes timestamp_delta offset_delta record)
      (decoded batch timestamp_delta offset_delta record) := by
  rw [record_body] at hlen ⊢
  simp only [append_assoc, length_append, length_cons, length_nil] at hlen ⊢
  have hcount : record.headers.length ≤ (record.headers.flatMap put_header).length :=
    length_le_flatMap_of_pos length_put_header_pos
  have hheaders : (get_header.many record.headers.length).Reads
      (record.headers.flatMap put_header) record.headers := by
    refine Reader.Reads.many fun header hmem => reads_header ?_
    have hle := length_le_length_flatMap put_header hmem
    omega
  refine Reader.Reads.bind (Reader.Reads.take rfl) ((reads_i64 hdelta).bind
    ((reads_length hindex).bind ?_))
  rw [if_neg (by omega)]
  refine (reads_nullable (by omega)).bind ((reads_nullable (by omega)).bind
    ((reads_length (by omega)).bind ?_))
  rw [Int.toNat_natCast]
  refine hheaders.bind_nil (Reader.Reads.bind_nil (add_u64_reads ?_) ?_)
  · rw [Int.toNat_natCast]
    omega
  · rw [Int.toNat_natCast]
    exact (timestamp_of_reads htime).last

theorem reads_record :
    (decode_record batch).Reads
      (put_varint (record_body attributes timestamp_delta offset_delta record).length ++
        record_body attributes timestamp_delta offset_delta record)
      (decoded batch timestamp_delta offset_delta record) := by
  refine (reads_length hlen).bind ?_
  rw [if_neg (by omega), Int.toNat_natCast]
  exact (Reader.Reads.take rfl).bind_nil (reads_body hlen hdelta hindex hbase htime).within

end


end Record

/-! ## Headers -/

section Header

variable {payload payload' rest : Bytes} {header : BatchHeader}

theorem header_at_len : (header_at payload).len = BATCH_HEADER_PREFIX + (i32_at payload 8).toNat :=
  rfl

theorem batch_header_eq_ok_iff : batch_header payload = .ok header ↔
    BATCH_HEADER_LEN ≤ payload.length ∧ i8_at payload 16 = MAGIC_V2 ∧ 0 ≤ i32_at payload 8 ∧
      header.len ≤ payload.length ∧ 0 < i32_at payload 57 ∧ header = header_at payload := by
  unfold batch_header
  constructor
  · intro h
    split_ifs at h with hlen hmagic hneg hlong hcount
    obtain rfl := ok.inj h
    rw [header_at_len]
    exact ⟨not_lt.1 hlen, not_not.1 hmagic, not_lt.1 hneg, not_lt.1 hlong, not_le.1 hcount, rfl⟩
  · rintro ⟨hlen, hmagic, hneg, hlong, hcount, rfl⟩
    rw [header_at_len] at hlong
    rw [if_neg (not_lt.2 hlen), if_neg (not_not.2 hmagic), if_neg (not_lt.2 hneg),
      if_neg (not_lt.2 hlong), if_neg (not_le.2 hcount)]

section

variable (h : ∀ pos width, pos + width ≤ BATCH_HEADER_LEN →
  unsigned_at payload' pos width = unsigned_at payload pos width)
include h

theorem header_at_congr : header_at payload' = header_at payload := by
  have hfield : ∀ pos width, pos + width ≤ 61 →
      unsigned_at payload' pos width = unsigned_at payload pos width := h
  simp only [header_at, i64_at, i32_at, i16_at, hfield 0 8 (by omega), hfield 8 4 (by omega),
    hfield 12 4 (by omega), hfield 21 2 (by omega), hfield 27 8 (by omega), hfield 35 8 (by omega),
    hfield 43 8 (by omega), hfield 51 2 (by omega), hfield 53 4 (by omega), hfield 57 4 (by omega)]

theorem batch_header_congr
    (hlen : BATCH_HEADER_LEN ≤ payload'.length) (hlong : header.len ≤ payload'.length)
    (hok : batch_header payload = .ok header) : batch_header payload' = .ok header := by
  obtain ⟨-, hmagic, hneg, -, hcount, rfl⟩ := batch_header_eq_ok_iff.1 hok
  refine batch_header_eq_ok_iff.2 ⟨hlen, ?_, ?_, hlong, ?_, (header_at_congr h).symm⟩
  · rw [i8_at, h 16 1 (by decide)]
    exact hmagic
  · rw [i32_at, h 8 4 (by decide)]
    exact hneg
  · rw [i32_at, h 57 4 (by decide)]
    exact hcount

end

theorem batch_header_append (h : batch_header payload = .ok header) :
    batch_header (payload ++ rest) = .ok header := by
  have hok := batch_header_eq_ok_iff.1 h
  refine batch_header_congr (fun pos width hpos => ?_) ?_ ?_ h
  · rw [unsigned_at, unsigned_at, slice_append_left (le_trans hpos hok.1)]
  · rw [length_append]
    exact le_trans hok.1 (Nat.le_add_right ..)
  · rw [length_append]
    exact le_trans hok.2.2.2.1 (Nat.le_add_right ..)

end Header

/-! ## Batches -/

structure IsBatch (codecs : Codecs) (chunk : Bytes) (header : BatchHeader) : Prop where
  header_ok : batch_header chunk = .ok header
  len_eq : header.len = chunk.length
  crc_ok : verify_crc codecs chunk = .ok ()

section Batch

variable {codecs : Codecs} {chunk rest payload : Bytes} {header : BatchHeader}
variable {records : List StreamRecord}
variable (hrecords : decode_section codecs header (chunk.drop BATCH_HEADER_LEN) = .ok records)

theorem run_records_of_reads {bytes : Bytes} (h : (decode_records header).Reads bytes records) :
    run_records header bytes = .ok records := by
  have hrun := h []
  rw [append_nil] at hrun
  rw [run_records, hrun]

include hrecords in
theorem IsBatch.decode_batch (h : IsBatch codecs chunk header) :
    decode_batch codecs (chunk ++ rest) = .ok (records, chunk.length) := by
  simp only [Server.decode_batch, batch_header_append h.header_ok, Except.mapError, h.len_eq,
    take_left, h.crc_ok, hrecords, bind, Except.bind]

theorem batch_header_len_pos (h : batch_header payload = .ok header) : 0 < header.len := by
  obtain ⟨-, -, -, -, -, rfl⟩ := batch_header_eq_ok_iff.1 h
  rw [header_at_len, BATCH_HEADER_PREFIX]
  omega

theorem decode_batch_pos (bytes : Bytes) (records : List StreamRecord) (n : ℕ)
    (h : decode_batch codecs bytes = .ok (records, n)) : 0 < n := by
  obtain ⟨header, hheader, h⟩ := bind_eq_ok_iff.1 h
  obtain ⟨-, -, h⟩ := bind_eq_ok_iff.1 h
  obtain ⟨records', -, h⟩ := bind_eq_ok_iff.1 h
  cases h
  exact batch_header_len_pos (mapError_eq_ok_iff.1 hheader)

include hrecords in
theorem IsBatch.decode_batches_append (h : IsBatch codecs chunk header) :
    decode_batches codecs (chunk ++ rest) = (decode_batches codecs rest).map (records ++ ·) := by
  rw [decode_batches, items_append decode_batch_pos (h.decode_batch hrecords), decode_batches]
  cases items (Server.decode_batch codecs) rest <;> rfl

include hrecords in
theorem IsBatch.decode_batches (h : IsBatch codecs chunk header) :
    decode_batches codecs chunk = .ok records := by
  have hone : Server.decode_batches codecs (chunk ++ []) =
      (Server.decode_batches codecs []).map (records ++ ·) := h.decode_batches_append hrecords
  rw [append_nil] at hone
  rw [hone]
  exact congrArg ok (append_nil records)

end Batch

/-! ## The server's own batches -/

@[simp] theorem length_put_i8 (x : ℤ) : (put_i8 x).length = 1 := length_be_bytes _ _

@[simp] theorem length_put_i16 (x : ℤ) : (put_i16 x).length = 2 := length_be_bytes _ _

@[simp] theorem length_put_i32 (x : ℤ) : (put_i32 x).length = 4 := length_be_bytes _ _

@[simp] theorem length_put_u32 (n : ℕ) : (put_u32 n).length = 4 := length_be_bytes _ _

@[simp] theorem length_put_i64 (x : ℤ) : (put_i64 x).length = 8 := length_be_bytes _ _

@[simp] theorem length_put_producer (producer : Option NumericProducer) :
    (put_producer producer).length = 14 := by
  cases producer <;> simp [put_producer]

theorem to_signed_of_be_bytes {bits width : ℕ} (hbits : bits + 1 = 8 * width)
    (h : IsSigned bits x) :
    to_signed bits (of_be_bytes (be_bytes width (to_unsigned bits x))) = x := by
  have hlt := to_unsigned_lt bits x
  rw [hbits] at hlt
  rw [of_be_bytes_be_bytes, Nat.mod_eq_of_lt hlt, to_signed_to_unsigned h]

theorem i16_of_put (h : IsSigned 15 x) : to_signed 15 (of_be_bytes (put_i16 x)) = x :=
  to_signed_of_be_bytes (by decide) h

theorem i32_of_put (h : IsSigned 31 x) : to_signed 31 (of_be_bytes (put_i32 x)) = x :=
  to_signed_of_be_bytes (by decide) h

theorem i64_of_put (h : IsSigned 63 x) : to_signed 63 (of_be_bytes (put_i64 x)) = x :=
  to_signed_of_be_bytes (by decide) h

namespace OwnBatch

variable {codecs : Codecs} {batch : OwnBatch}
variable (h : batch.Valid codecs)

def body (batch : OwnBatch) : Bytes := batch.records.zipIdx.flatMap fun r => put_record r.2 r.1

/-- The batch before the length and the checksum are filled in. -/
def draft (batch : OwnBatch) : Bytes :=
  draft_batch batch.base_offset batch.leader_epoch batch.timestamp_ms batch.producer batch.records

theorem length_draft : batch.draft.length = BATCH_HEADER_LEN + batch.body.length := by
  simp only [draft, draft_batch, body, length_append, length_put_i8, length_put_i16,
    length_put_i32, length_put_u32, length_put_i64, length_put_producer, BATCH_HEADER_LEN]

theorem draft_fields (batch : OwnBatch) :
    slice batch.draft 0 8 = put_i64 batch.base_offset ∧
    slice batch.draft 12 4 = put_i32 batch.leader_epoch ∧
    slice batch.draft 16 1 = put_i8 MAGIC_V2 ∧
    slice batch.draft 21 2 = put_i16 ATTR_LOG_APPEND_TIME ∧
    slice batch.draft 27 8 = put_i64 batch.timestamp_ms ∧
    slice batch.draft 35 8 = put_i64 batch.timestamp_ms ∧
    slice batch.draft 57 4 = put_i32 batch.records.length := by
  unfold draft draft_batch
  refine ⟨?_, ?_, ?_, ?_, ?_, ?_, ?_⟩
  all_goals simp (disch := simp) only [append_assoc, slice_append_right, slice_append_self,
    length_put_i64, length_put_i32, length_put_i8, length_put_i16, length_put_u32,
    length_put_producer, Nat.reduceSub, Nat.sub_self]

theorem drop_draft : batch.draft.drop BATCH_HEADER_LEN = batch.body := by
  refine drop_left' ?_
  simp [BATCH_HEADER_LEN]

include h in
theorem draft_producer :
    producer_of (i64_at batch.draft 43) (i16_at batch.draft 51) (i32_at batch.draft 53) =
      batch.producer := by
  have hvalid := h.producer
  simp only [i64_at, i16_at, i32_at, unsigned_at, draft, draft_batch]
  cases hp : batch.producer with
  | none =>
    simp (disch := simp) only [append_assoc, slice_append_right, slice_append_self,
      put_producer, length_put_i64, length_put_i32, length_put_i8, length_put_i16, length_put_u32,
      Nat.reduceSub, Nat.sub_self]
    decide
  | some p =>
    obtain ⟨⟨hid, hid'⟩, hepoch, hseq, hseq'⟩ := hvalid p (by rw [hp]; rfl)
    simp (disch := simp) only [append_assoc, slice_append_right, slice_append_self,
      put_producer, length_put_i64, length_put_i32, length_put_i8, length_put_i16, length_put_u32,
      Nat.reduceSub, Nat.sub_self]
    rw [i64_of_put hid', i16_of_put hepoch, i32_of_put hseq', producer_of, if_pos ⟨hid, hseq⟩]

/-! ### Filling in the length and the checksum -/

/-- The length is filled in; the checksum is not. -/
def measured (batch : OwnBatch) : Bytes :=
  splice batch.draft 8 (put_i32 (batch.draft.length - BATCH_HEADER_PREFIX))

theorem length_measured : batch.measured.length = batch.draft.length := by
  have hdraft : batch.draft.length = 61 + batch.body.length := length_draft
  refine length_splice ?_
  rw [length_put_i32]
  omega

theorem encode_eq : batch.encode codecs =
    splice batch.measured 17 (put_u32 (codecs.crc32c (batch.measured.drop 21)).toNat) := rfl

theorem crc_fits (batch : OwnBatch) (n : ℕ) : 17 + (put_u32 n).length ≤ batch.measured.length := by
  have hdraft : batch.draft.length = 61 + batch.body.length := length_draft
  rw [length_put_u32, length_measured]
  omega

theorem length_encode : (batch.encode codecs).length = BATCH_HEADER_LEN + batch.body.length := by
  rw [encode_eq, length_splice (crc_fits ..), length_measured, length_draft]

theorem len_fits (batch : OwnBatch) :
    8 + (put_i32 (batch.draft.length - BATCH_HEADER_PREFIX)).length ≤ batch.draft.length := by
  have hdraft : batch.draft.length = 61 + batch.body.length := length_draft
  rw [length_put_i32]
  omega

theorem slice_encode {pos width : ℕ}
    (h : pos + width ≤ 8 ∨ 12 ≤ pos ∧ pos + width ≤ 17 ∨ 21 ≤ pos) :
    slice (batch.encode codecs) pos width = slice batch.draft pos width := by
  rw [encode_eq, slice_splice_of_disjoint (crc_fits ..) (by rw [length_put_u32]; omega), measured,
    slice_splice_of_disjoint (len_fits batch) (by rw [length_put_i32]; omega)]

theorem slice_encode_len : slice (batch.encode codecs) 8 4 =
    put_i32 ((batch.encode codecs).length - BATCH_HEADER_PREFIX) := by
  have hself := slice_splice_self (len_fits batch)
  rw [length_put_i32] at hself
  rw [length_encode, ← length_draft, encode_eq,
    slice_splice_of_disjoint (crc_fits ..) (by rw [length_put_u32]; omega), measured, hself]

theorem verify_crc_encode : verify_crc codecs (batch.encode codecs) = .ok () := by
  have hcrc : slice (batch.encode codecs) 17 4 =
      put_u32 (codecs.crc32c (batch.measured.drop 21)).toNat := by
    have hself := slice_splice_self
      (crc_fits batch (codecs.crc32c (batch.measured.drop 21)).toNat)
    rwa [length_put_u32] at hself
  have hdrop : (batch.encode codecs).drop 21 = batch.measured.drop 21 := by
    rw [encode_eq, drop_splice (crc_fits ..) (by rw [length_put_u32])]
  have hlt := (codecs.crc32c (batch.measured.drop 21)).toNat_lt
  rw [verify_crc, if_neg (by rw [length_encode]; omega), if_neg]
  rw [hdrop, unsigned_at, hcrc, put_u32, of_be_bytes_be_bytes, Nat.mod_eq_of_lt hlt]
  exact not_not.2 rfl

/-! ### The whole batch -/

theorem records_length_le : batch.records.length ≤ batch.body.length := by
  have hle : batch.records.zipIdx.length ≤ batch.body.length := by
    refine length_le_flatMap_of_pos fun r => ?_
    have hpos := length_put_varint_pos (record_body 0 0 r.2 r.1).length
    rw [put_record, length_append]
    omega
  rwa [length_zipIdx] at hle

theorem header_len : (batch.header codecs).len = (batch.encode codecs).length := by
  rw [header]

theorem header_compression : (batch.header codecs).compression = 0 := rfl

include h in
theorem Valid.body_lt : 61 + batch.body.length < 2 ^ 31 := by
  have hsize := h.size
  rwa [length_encode] at hsize

include h in
theorem record_count_encode :
    i32_at (batch.encode codecs) 57 = batch.records.length := by
  have hbody := h.body_lt
  have hrecords := batch.records_length_le
  rw [i32_at, unsigned_at, slice_encode (by omega), batch.draft_fields.2.2.2.2.2.2]
  exact i32_of_put (by unfold IsSigned; omega)

include h in
theorem batch_length_encode :
    i32_at (batch.encode codecs) 8 = (batch.encode codecs).length - 12 := by
  have hbody := h.body_lt
  have hlen : (batch.encode codecs).length = 61 + batch.body.length := length_encode
  rw [i32_at, unsigned_at, slice_encode_len]
  exact i32_of_put (by unfold IsSigned BATCH_HEADER_PREFIX; omega)

theorem attributes_encode : unsigned_at (batch.encode codecs) 21 2 = 8 := by
  rw [unsigned_at, slice_encode (by omega), batch.draft_fields.2.2.2.1]
  decide

include h in
theorem header_at_encode :
    header_at (batch.encode codecs) = batch.header codecs := by
  obtain ⟨hbase, hepoch, -, -, hfirst, hmax, -⟩ := batch.draft_fields
  have hproducer := draft_producer h
  have hbase63 : IsSigned 63 (batch.base_offset : ℤ) := by
    have hlt := h.base_offset
    unfold IsSigned
    omega
  have hlen : 12 + ((batch.encode codecs).length - 12 : ℤ).toNat = (batch.encode codecs).length := by
    rw [length_encode, BATCH_HEADER_LEN]
    omega
  rw [header_at, batch_length_encode h, record_count_encode h, attributes_encode,
    BATCH_HEADER_PREFIX, hlen, Int.toNat_natCast]
  simp only [i64_at, i32_at, i16_at, unsigned_at] at hproducer ⊢
  rw [slice_encode (by omega), hbase, slice_encode (by omega), hepoch, slice_encode (by omega),
    hfirst, slice_encode (by omega), hmax, slice_encode (by omega), slice_encode (by omega),
    slice_encode (by omega), i64_of_put hbase63, i32_of_put h.leader_epoch,
    i64_of_put h.timestamp_ms, hproducer, Int.toNat_natCast]
  rfl

include h in
theorem isBatch_encode :
    IsBatch codecs (batch.encode codecs) (batch.header codecs) := by
  refine ⟨batch_header_eq_ok_iff.2 ⟨?_, ?_, ?_, header_len.le, ?_, (header_at_encode h).symm⟩,
    header_len, verify_crc_encode⟩
  · rw [length_encode]
    omega
  · rw [i8_at, unsigned_at, slice_encode (by omega), batch.draft_fields.2.2.1]
    decide
  · rw [batch_length_encode h, length_encode, BATCH_HEADER_LEN]
    omega
  · have hpos := length_pos_iff.2 h.records_ne
    rw [record_count_encode h]
    omega

theorem drop_encode : (batch.encode codecs).drop BATCH_HEADER_LEN = batch.body := by
  have hdraft : batch.draft.length = 61 + batch.body.length := length_draft
  rw [encode_eq, drop_splice (crc_fits ..) (by rw [length_put_u32]; decide), measured,
    drop_splice (by rw [length_put_i32]; omega) (by rw [length_put_i32]; decide), drop_draft]

include h in
theorem reads_records :
    (decode_records (batch.header codecs)).Reads batch.body batch.stream_records := by
  have hbody := h.body_lt
  have hrecords := batch.records_length_le
  have hread : ((decode_record (batch.header codecs)).many batch.records.zipIdx.length).Reads
      batch.body batch.stream_records := by
    refine Reader.Reads.many_map fun r hr => ?_
    have hle := length_le_length_flatMap (fun r : LogRecord × ℕ => put_record r.2 r.1) hr
    have hindex : r.2 < batch.records.length := by
      have hmem := snd_lt_of_mem_zipIdx hr
      omega
    change _ ≤ batch.body.length at hle
    rw [put_record, length_append] at hle
    exact reads_record (by omega) (by decide) (by omega) h.base_offset (.inl rfl)
  rwa [length_zipIdx] at hread

include h in
theorem decode_section_encode :
    decode_section codecs (batch.header codecs)
      ((batch.encode codecs).drop BATCH_HEADER_LEN) = .ok batch.stream_records := by
  rw [drop_encode, decode_section, if_pos header_compression,
    run_records_of_reads (reads_records h)]

theorem decode_batches_flatMap {batches : List OwnBatch} (h : ∀ b ∈ batches, b.Valid codecs) :
    decode_batches codecs (batches.flatMap (encode codecs)) =
      .ok (batches.flatMap stream_records) := by
  induction batches with
  | nil => rfl
  | cons b batches ih =>
    have hb := h b (mem_cons_self ..)
    rw [flatMap_cons, (isBatch_encode hb).decode_batches_append (decode_section_encode hb),
      ih fun b' hb' => h b' (mem_cons_of_mem _ hb')]
    rfl

end OwnBatch

/-- Every batch the server encodes passes the checks, its header says what went into it, and
decoding it returns its records. -/
theorem encode_batch_round_trip (codecs : Codecs) (batches : List OwnBatch)
    (h : ∀ b ∈ batches, b.Valid codecs) :
    (∀ b ∈ batches, batch_header (b.encode codecs) = .ok (b.header codecs) ∧
      verify_crc codecs (b.encode codecs) = .ok () ∧
      decode_batches codecs (b.encode codecs) = .ok b.stream_records) ∧
    decode_batches codecs (batches.flatMap (OwnBatch.encode codecs)) =
      .ok (batches.flatMap OwnBatch.stream_records) := by
  refine ⟨fun b hb => ?_, OwnBatch.decode_batches_flatMap h⟩
  have hbatch := OwnBatch.isBatch_encode (h b hb)
  have hdecode := hbatch.decode_batches (OwnBatch.decode_section_encode (h b hb))
  exact ⟨hbatch.header_ok, hbatch.crc_ok, hdecode⟩

/-- Two batches, with and without a producer, of records with absent, empty and present parts. -/
theorem encode_batch_round_trip_of_two :
    let codecs : Codecs := ⟨fun bytes => .ofNat bytes.length, fun _ _ => .error "no codec"⟩
    let first : OwnBatch := ⟨40, 5, 1700000000000, none,
      [{ value := some [1, 2], headers := [("h", none), ("k", some [])] }, { key := some [] }]⟩
    let second : OwnBatch := ⟨42, 5, -1, some ⟨7, 0, 3⟩, [{ value := some [] }]⟩
    decode_batches codecs (first.encode codecs ++ second.encode codecs) =
      .ok (first.stream_records ++ second.stream_records) := by
  intro codecs first second
  have hfirst : first.Valid codecs :=
    ⟨by decide, by decide, by decide, by decide, by decide, by decide +kernel⟩
  have hsecond : second.Valid codecs :=
    ⟨by decide, by decide, by decide, by decide, by decide, by decide +kernel⟩
  have hboth := (encode_batch_round_trip codecs [first, second] (by simp [hfirst, hsecond])).2
  simpa using hboth

end PicoMq.Server
