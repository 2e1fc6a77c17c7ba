import PicoMq.Library.Proofs.BatchLogProofs
import PicoMq.Server.Produce
import PicoMq.Server.Proofs.RecordProofs

/-!
# Proofs: what is accepted can be read

An accepted payload is cut into batches whose headers and checksums are right.
-/

namespace PicoMq.Server

open Except List Metadata Nat Wire

variable {codecs : Codecs} {payload : Bytes} {headers : List BatchHeader} {chunks : List Bytes}
variable {bytes : Bytes}

/-! ## Accepted payloads -/

theorem isBatch_of_append {chunk rest : Bytes} {header : BatchHeader}
    (hheader : batch_header (chunk ++ rest) = .ok header) (hlen : header.len = chunk.length)
    (hcrc : verify_crc codecs chunk = .ok ()) : IsBatch codecs chunk header := by
  have hlong : BATCH_HEADER_LEN ≤ chunk.length := by
    by_contra hshort
    rw [verify_crc, if_pos (not_le.1 hshort)] at hcrc
    cases hcrc
  refine ⟨batch_header_congr (fun pos width hpos => ?_) hlong hlen.le hheader, hlen, hcrc⟩
  rw [unsigned_at, unsigned_at, slice_append_left (le_trans hpos hlong)]

theorem verify_crcs_flatten
    (hlen : List.Forall₂ (fun header (chunk : Bytes) => header.len = chunk.length) headers chunks)
    (h : verify_crcs codecs headers chunks.flatten = .ok ()) :
    ∀ chunk ∈ chunks, verify_crc codecs chunk = .ok () := by
  induction hlen with
  | nil => simp
  | @cons header chunk headers chunks hhead _ ih =>
    rw [verify_crcs, flatten_cons, take_left' hhead.symm,
      drop_left' hhead.symm] at h
    obtain ⟨⟨⟩, hfirst, hrest⟩ := bind_eq_ok_iff.1 h
    intro c hc
    rcases mem_cons.1 hc with rfl | hc
    · exact hfirst
    · exact ih hrest c hc

theorem header_step {header : BatchHeader} {n : ℕ}
    (h : (batch_header bytes).map (fun header => (header, header.len)) = .ok (header, n)) :
    batch_header bytes = .ok header ∧ n = header.len := by
  cases hb : batch_header bytes with
  | error e => rw [hb] at h; cases h
  | ok found => rw [hb] at h; cases h; exact ⟨rfl, rfl⟩

theorem of_parse (h : parse_batches codecs payload = .ok headers) :
    batch_headers payload = .ok headers ∧ verify_crcs codecs headers payload = .ok () := by
  rw [parse_batches] at h
  by_cases hnil : payload = []
  · rw [if_pos hnil] at h
    cases h
  · rw [if_neg hnil] at h
    obtain ⟨read, hread, h⟩ := bind_eq_ok_iff.1 h
    by_cases hempty : read = []
    · rw [if_pos hempty] at h
      cases h
    · rw [if_neg hempty] at h
      obtain ⟨⟨⟩, hcrcs, h⟩ := bind_eq_ok_iff.1 h
      obtain ⟨-, -, h⟩ := bind_eq_ok_iff.1 h
      cases h
      exact ⟨mapError_eq_ok_iff.1 hread, mapError_eq_ok_iff.1 hcrcs⟩

/-- An accepted payload is a sequence of batches, each with the header that was read. -/
theorem exists_batches_of_parse (h : parse_batches codecs payload = .ok headers) :
    ∃ chunks : List Bytes, payload = chunks.flatten ∧
      List.Forall₂ (fun header chunk => IsBatch codecs chunk header) headers chunks := by
  obtain ⟨hread, hcrcs⟩ := of_parse h
  obtain ⟨chunks, rfl, hchunks⟩ := exists_chunks_of_items
    (fun bytes header n hmap => by
      obtain ⟨hb, rfl⟩ := header_step hmap
      exact ⟨batch_header_len_pos hb, (batch_header_eq_ok_iff.1 hb).2.2.2.1⟩) hread
  have hcrc := verify_crcs_flatten (hchunks.imp fun header chunk ⟨rest, hmap⟩ =>
    (header_step hmap).2.symm) hcrcs
  refine ⟨chunks, rfl, ?_⟩
  clear hread hcrcs h
  induction hchunks with
  | nil => exact .nil
  | cons hhead _ ih =>
    obtain ⟨rest, hmap⟩ := hhead
    obtain ⟨hb, hlen⟩ := header_step hmap
    exact .cons (isBatch_of_append hb hlen.symm (hcrc _ (mem_cons_self ..)))
      (ih fun c hc => hcrc c (mem_cons_of_mem _ hc))

/-! ## Stamping -/

section Stamp

variable {chunk : Bytes} {header : BatchHeader} {base_offset : ℕ} {leader_epoch : ℤ}

section

variable (h : BATCH_HEADER_LEN ≤ chunk.length)
include h

/-- Both fields that are written lie in the header. -/
theorem stamp_fits (base_offset : ℕ) (leader_epoch : ℤ) :
    0 + (put_i64 base_offset).length ≤ chunk.length ∧
      12 + (put_i32 leader_epoch).length ≤ (splice chunk 0 (put_i64 base_offset)).length := by
  have hlen : 61 ≤ chunk.length := h
  have hfirst : 0 + (put_i64 base_offset).length ≤ chunk.length := by
    rw [length_put_i64]
    omega
  refine ⟨hfirst, ?_⟩
  rw [length_splice hfirst, length_put_i32]
  omega

theorem length_stamp : (stamp chunk 0 base_offset leader_epoch).length = chunk.length := by
  obtain ⟨hfirst, hsecond⟩ := stamp_fits h base_offset leader_epoch
  rw [stamp, length_splice hsecond, length_splice hfirst]

theorem stamp_append {pre rest : Bytes} :
    stamp (pre ++ (chunk ++ rest)) pre.length base_offset leader_epoch =
      pre ++ (stamp chunk 0 base_offset leader_epoch ++ rest) := by
  obtain ⟨hfirst, hsecond⟩ := stamp_fits h base_offset leader_epoch
  have hpre : splice (pre ++ (chunk ++ rest)) pre.length (put_i64 base_offset) =
      pre ++ splice (chunk ++ rest) 0 (put_i64 base_offset) := by
    rw [← splice_append_right, add_zero]
  rw [stamp, hpre, splice_append_left hfirst, splice_append_right, splice_append_left hsecond, stamp,
    zero_add]

theorem slice_stamp {pos width : ℕ} (hpos : 8 ≤ pos ∧ pos + width ≤ 12 ∨ 16 ≤ pos) :
    slice (stamp chunk 0 base_offset leader_epoch) pos width = slice chunk pos width := by
  obtain ⟨hfirst, hsecond⟩ := stamp_fits h base_offset leader_epoch
  rw [stamp, slice_splice_of_disjoint hsecond, slice_splice_of_disjoint hfirst]
  · rw [length_put_i64]
    omega
  · rw [length_put_i32]
    omega

theorem drop_stamp {k : ℕ} (hk : 16 ≤ k) :
    (stamp chunk 0 base_offset leader_epoch).drop k = chunk.drop k := by
  obtain ⟨hfirst, hsecond⟩ := stamp_fits h base_offset leader_epoch
  rw [stamp, drop_splice hsecond, drop_splice hfirst]
  · rw [length_put_i64]
    omega
  · rw [length_put_i32]
    omega

theorem slice_stamp_base :
    slice (stamp chunk 0 base_offset leader_epoch) 0 8 = put_i64 base_offset := by
  obtain ⟨hfirst, hsecond⟩ := stamp_fits h base_offset leader_epoch
  have hself := slice_splice_self hfirst
  rw [length_put_i64] at hself
  rw [stamp, slice_splice_of_disjoint hsecond (by omega), hself]

end

theorem IsBatch.stamp (h : IsBatch codecs chunk header) (hbase : base_offset < 2 ^ 63)
    (leader_epoch : ℤ) :
    ∃ epoch, IsBatch codecs (stamp chunk 0 base_offset leader_epoch)
      { header with base_offset := base_offset, leader_epoch := epoch } := by
  obtain ⟨hlong, hmagic, hneg, hle, hcount, hat⟩ := batch_header_eq_ok_iff.1 h.header_ok
  have hfield : ∀ pos width, 8 ≤ pos ∧ pos + width ≤ 12 ∨ 16 ≤ pos →
      unsigned_at (Server.stamp chunk 0 base_offset leader_epoch) pos width =
        unsigned_at chunk pos width := by
    intro pos width hpos
    rw [unsigned_at, unsigned_at, slice_stamp hlong hpos]
  have hoffset : i64_at (Server.stamp chunk 0 base_offset leader_epoch) 0 = base_offset := by
    rw [i64_at, unsigned_at, slice_stamp_base hlong]
    exact i64_of_put (by unfold IsSigned; omega)
  have hheader : header_at (Server.stamp chunk 0 base_offset leader_epoch) =
      { header with
        base_offset := base_offset
        leader_epoch := i32_at (Server.stamp chunk 0 base_offset leader_epoch) 12 } := by
    rw [hat, header_at, hoffset, Int.toNat_natCast]
    simp only [header_at, i64_at, i32_at, i16_at, hfield 8 4 (by omega), hfield 21 2 (by omega),
      hfield 27 8 (by omega), hfield 35 8 (by omega), hfield 43 8 (by omega),
      hfield 51 2 (by omega), hfield 53 4 (by omega), hfield 57 4 (by omega)]
  refine ⟨_, batch_header_eq_ok_iff.2 ⟨?_, ?_, ?_, ?_, ?_, hheader.symm⟩, ?_, ?_⟩
  · rwa [length_stamp hlong]
  · rw [i8_at, hfield 16 1 (by omega)]
    exact hmagic
  · rw [i32_at, hfield 8 4 (by omega)]
    exact hneg
  · rwa [length_stamp hlong]
  · rw [i32_at, hfield 57 4 (by omega)]
    exact hcount
  · rw [length_stamp hlong]
    exact h.len_eq
  · have hcrc := h.crc_ok
    rw [verify_crc] at hcrc ⊢
    rwa [length_stamp hlong, drop_stamp hlong (by omega), hfield 17 4 (by omega)]

end Stamp

/-! ## Record sections -/

section Section

variable {chunk : Bytes} {header : BatchHeader} {records : List StreamRecord} {base_offset : ℕ}

theorem yields_varint : get_varint.Yields (· < 2 ^ 31) :=
  .bind fun _ => .pure BitVec.toInt_lt

/-- The record of the section, in a batch at this offset. -/
def StreamRecord.at_base (base_offset : ℕ) (r : StreamRecord) : StreamRecord :=
  { r with offset := base_offset + r.offset }

section Maps

variable (hbase : header.base_offset < 2 ^ 63)
include hbase

theorem maps_body : (decode_body { header with base_offset := 0, leader_epoch := 0 }).Maps
    (StreamRecord.at_base header.base_offset) (decode_body header) := by
  refine .bind fun _ => .bind fun delta => .bind_of yields_varint fun offset_delta hdelta => ?_
  split_ifs with hneg
  · exact fun _ => rfl
  refine .bind fun key => .bind fun value => .bind fun count => .bind fun headers => ?_
  intro bytes
  rw [add_u64, if_pos (by omega), add_u64, if_pos (by dsimp only; omega)]
  change (timestamp_of header delta >>= _).run bytes =
    Except.map _ ((timestamp_of header delta >>= _).run bytes)
  rw [Reader.run_bind, Reader.run_bind]
  cases (timestamp_of header delta).run bytes with
  | error fault => rfl
  | ok result => simp [pure, Except.map, StreamRecord.at_base]

theorem run_records_eq_map : run_records header bytes =
    (run_records { header with base_offset := 0, leader_epoch := 0 } bytes).map
      (List.map (StreamRecord.at_base header.base_offset)) := by
  have hrecord : (decode_record { header with base_offset := 0, leader_epoch := 0 }).Maps
      (StreamRecord.at_base header.base_offset) (decode_record header) := by
    refine .bind fun length => ?_
    split_ifs with hneg
    · exact fun _ => rfl
    · exact .bind fun encoded => (maps_body hbase).within encoded
  rw [run_records, decode_records, hrecord.many header.record_count bytes, run_records, decode_records]
  cases ((decode_record { header with base_offset := 0, leader_epoch := 0 }).many
    header.record_count).run bytes <;> rfl

end Maps

theorem record_count_pos (h : batch_header chunk = .ok header) : 0 < header.record_count := by
  obtain ⟨-, -, -, -, hcount, rfl⟩ := batch_header_eq_ok_iff.1 h
  have hcount' : (header_at chunk).record_count = (i32_at chunk 57).toNat := by rw [header_at]
  omega

theorem decode_batches_of_isBatch (h : IsBatch codecs chunk header) :
    decode_batches codecs chunk = decode_section codecs header (chunk.drop BATCH_HEADER_LEN) := by
  cases hsection : decode_section codecs header (chunk.drop BATCH_HEADER_LEN) with
  | ok records => exact h.decode_batches hsection
  | error fault =>
    have hlong : 61 ≤ chunk.length := (batch_header_eq_ok_iff.1 h.header_ok).1
    have hstep : decode_batch codecs chunk = .error fault := by
      simp only [Server.decode_batch, h.header_ok, Except.mapError, h.len_eq, take_length, h.crc_ok,
        hsection, bind, Except.bind]
    obtain ⟨rounds, hrounds⟩ : ∃ rounds, chunk.length = rounds + 1 := ⟨chunk.length - 1, by omega⟩
    have hitems : items (Server.decode_batch codecs) chunk = .error fault := by
      rw [items, hrounds]
      exact items_in_of_error (by rintro rfl; cases hrounds) hstep
    rw [Server.decode_batches, hitems]
    rfl

/-- Exactly the well-formed batches decode to their records at the offsets they are stamped with. -/
theorem decodes_stamp_iff {leader_epoch : ℤ} (h : IsBatch codecs chunk header)
    (huncompressed : header.compression = 0) (hbase : base_offset < 2 ^ 63) :
    (decode_batches codecs (stamp chunk 0 base_offset leader_epoch)).map (map StreamRecord.offset) =
        .ok (range' base_offset header.record_count) ↔
      WellFormedSection header (chunk.drop BATCH_HEADER_LEN) := by
  have hlong := (batch_header_eq_ok_iff.1 h.header_ok).1
  obtain ⟨epoch, hbatch⟩ := h.stamp hbase leader_epoch
  rw [decode_batches_of_isBatch hbatch, decode_section, if_pos huncompressed, drop_stamp hlong (by decide),
    run_records_eq_map hbase, WellFormedSection, range'_eq_map_range]
  cases run_records { header with base_offset := 0, leader_epoch := 0 } (chunk.drop BATCH_HEADER_LEN) with
  | error fault => simp only [Except.map, reduceCtorEq]
  | ok records =>
    have hmap : (records.map (StreamRecord.at_base base_offset)).map StreamRecord.offset =
        (records.map StreamRecord.offset).map (base_offset + ·) := by
      rw [map_map, map_map]
      rfl
    change ok _ = ok _ ↔ ok _ = ok _
    rw [ok.injEq, ok.injEq, hmap, (map_injective_iff.2 (add_right_injective base_offset)).eq_iff]

end Section

/-! ## Stamped payloads -/

@[simp] theorem declared_cons (header : BatchHeader) (headers : List BatchHeader) :
    declared (header :: headers) = header.record_count + declared headers := by
  rw [declared, map_cons, sum_cons, declared]

def stamp_chunks (leader_epoch : ℤ) : List BatchHeader → List Bytes → ℕ → List Bytes
  | header :: headers, chunk :: chunks, assigned =>
    stamp chunk 0 assigned leader_epoch ::
      stamp_chunks leader_epoch headers chunks (assigned + header.record_count)
  | _, _, _ => []

theorem stamp_loop_chunks (leader_epoch : ℤ)
    (h : List.Forall₂ (fun header chunk => IsBatch codecs chunk header) headers chunks)
    (pre : Bytes) (assigned : ℕ) :
    (stamp_loop leader_epoch headers (pre ++ chunks.flatten) pre.length assigned).1 =
        pre ++ (stamp_chunks leader_epoch headers chunks assigned).flatten ∧
      List.Forall₂ (fun (s : StampedSpan) chunk =>
          slice (pre ++ (stamp_chunks leader_epoch headers chunks assigned).flatten) s.pos
            (s.to_pos - s.pos) = chunk)
        (stamp_loop leader_epoch headers (pre ++ chunks.flatten) pre.length assigned).2
        (stamp_chunks leader_epoch headers chunks assigned) := by
  induction h generalizing pre assigned with
  | nil => exact ⟨rfl, .nil⟩
  | @cons header chunk headers chunks hbatch htail ih =>
    have hlong := (batch_header_eq_ok_iff.1 hbatch.header_ok).1
    let chunk' := stamp chunk 0 assigned leader_epoch
    have hlen : chunk'.length = header.len := by rw [length_stamp hlong, hbatch.len_eq]
    have hstamp : stamp (pre ++ (chunk :: chunks).flatten) pre.length assigned leader_epoch =
        (pre ++ chunk') ++ chunks.flatten := by
      rw [flatten_cons, stamp_append hlong, append_assoc]
    obtain ⟨hfinal, hspans⟩ := ih (pre ++ chunk') (assigned + header.record_count)
    rw [length_append, hlen] at hfinal hspans
    rw [stamp_loop, hstamp, stamp_chunks]
    refine ⟨?_, .cons ?_ ?_⟩
    · rw [hfinal, flatten_cons, append_assoc]
    · rw [flatten_cons, Nat.add_sub_cancel_left, slice_append_right le_rfl, Nat.sub_self,
        slice_append_self hlen]
    · rw [flatten_cons, ← append_assoc]
      exact hspans

theorem offsets_of_cons {header : BatchHeader} {assigned : ℕ}
    (h : assigned + declared (header :: headers).dropLast < 2 ^ 63) :
    assigned < 2 ^ 63 ∧ (headers ≠ [] →
      assigned + header.record_count + declared headers.dropLast < 2 ^ 63) := by
  refine ⟨by omega, fun hne => ?_⟩
  rwa [dropLast_cons_of_ne_nil hne, declared_cons, ← add_assoc] at h

section Chunks

variable (leader_epoch : ℤ)
  (h : List.Forall₂ (fun header chunk => IsBatch codecs chunk header) headers chunks)
  (huncompressed : ∀ header ∈ headers, header.compression = 0)
include h huncompressed

/-- Each batch of the payload, where it is found again. -/
theorem decodes_parts_iff {pos assigned : ℕ} {part : StampedSpan → Bytes}
    (hbase : headers ≠ [] → assigned + declared headers.dropLast < 2 ^ 63)
    (hparts : List.Forall₂ (fun s chunk => part s = chunk)
      (stamp_loop leader_epoch headers bytes pos assigned).2
      (stamp_chunks leader_epoch headers chunks assigned)) :
    (∀ s ∈ (stamp_loop leader_epoch headers bytes pos assigned).2,
        (decode_batches codecs (part s)).map (map StreamRecord.offset) =
          .ok (range' s.assigned s.count)) ↔
      ∀ s ∈ sections headers chunks.flatten, WellFormedSection s.1 s.2 := by
  induction h generalizing bytes pos assigned with
  | nil => exact ⟨fun _ _ hs => absurd hs not_mem_nil, fun _ _ hs => absurd hs not_mem_nil⟩
  | @cons header chunk headers chunks hbatch _ ih =>
    obtain ⟨hfirst, hrest⟩ := offsets_of_cons (hbase (cons_ne_nil _ _))
    obtain ⟨hpart, hparts⟩ := forall₂_cons.1 hparts
    rw [stamp_loop, sections, flatten_cons, take_left' hbatch.len_eq.symm,
      drop_left' hbatch.len_eq.symm, forall_mem_cons, forall_mem_cons, hpart,
      decodes_stamp_iff hbatch (huncompressed header (mem_cons_self ..)) hfirst,
      ih (fun h hh => huncompressed h (mem_cons_of_mem _ hh)) hrest hparts]

theorem decode_chunks {assigned : ℕ}
    (hbase : headers ≠ [] → assigned + declared headers.dropLast < 2 ^ 63)
    (hwell : ∀ s ∈ sections headers chunks.flatten, WellFormedSection s.1 s.2) :
    (decode_batches codecs (stamp_chunks leader_epoch headers chunks assigned).flatten).map
      (map StreamRecord.offset) = .ok (range' assigned (declared headers)) := by
  induction h generalizing assigned with
  | nil => rfl
  | @cons header chunk headers chunks hbatch _ ih =>
    obtain ⟨hfirst, hrest⟩ := offsets_of_cons (hbase (cons_ne_nil _ _))
    obtain ⟨epoch, hstamped⟩ := hbatch.stamp hfirst leader_epoch
    rw [sections, flatten_cons, take_left' hbatch.len_eq.symm, drop_left' hbatch.len_eq.symm,
      forall_mem_cons, ← decodes_stamp_iff hbatch (huncompressed header (mem_cons_self ..)) hfirst,
      decode_batches_of_isBatch hstamped] at hwell
    obtain ⟨records, hsection, hoffsets⟩ := map_eq_ok_iff.1 hwell.1
    obtain ⟨others, hothers, hrange⟩ := map_eq_ok_iff.1
      (ih (fun h hh => huncompressed h (mem_cons_of_mem _ hh)) hrest hwell.2)
    rw [stamp_chunks, flatten_cons, hstamped.decode_batches_append hsection, hothers, declared_cons,
      ← range'_append_1, ← hoffsets, ← hrange]
    exact congrArg ok map_append

end Chunks

theorem map_count_stamp_loop (leader_epoch : ℤ) (headers : List BatchHeader) (payload : Bytes)
    (pos assigned : ℕ) :
    (stamp_loop leader_epoch headers payload pos assigned).2.map StampedSpan.count =
      headers.map BatchHeader.record_count := by
  induction headers generalizing payload pos assigned with
  | nil => rfl
  | cons header headers ih => rw [stamp_loop, map_cons, ih, map_cons]

/-- An accepted payload decodes at the offsets it is stamped with exactly if its sections are well
formed. -/
theorem decodesAsStamped_iff (hparse : parse_batches codecs payload = .ok headers)
    (huncompressed : ∀ header ∈ headers, header.compression = 0)
    (hbase : headers ≠ [] → base_offset + declared headers.dropLast < 2 ^ 63) (leader_epoch : ℤ) :
    DecodesAsStamped codecs payload headers base_offset leader_epoch ↔
      ∀ s ∈ sections headers payload, WellFormedSection s.1 s.2 := by
  obtain ⟨chunks, rfl, hchunks⟩ := exists_batches_of_parse hparse
  obtain ⟨hstamped, hslices⟩ := stamp_loop_chunks leader_epoch hchunks [] base_offset
  rw [nil_append, length_nil, nil_append] at hstamped hslices
  have hparts := decodes_parts_iff leader_epoch hchunks huncompressed hbase hslices
  rw [DecodesAsStamped, stamp_batches, hstamped, map_map]
  constructor
  · rintro ⟨-, hbatches, -⟩
    exact hparts.1 (forall_mem_map.1 hbatches)
  · intro hwell
    exact ⟨map_count_stamp_loop .., forall_mem_map.2 (hparts.2 hwell),
      decode_chunks leader_epoch hchunks huncompressed hbase hwell⟩

/-! ## Reads -/

section Collect

variable {start end_offset max_bytes max_records : ℕ}

/-- A read so far: consecutive records from `start` on, none past the end, all with the property. -/
structure Gapless (P : StreamRecord → Prop) (start end_offset : ℕ) (c : Collected) : Prop where
  offsets : c.records.map StreamRecord.offset = range' start c.records.length
  next_eq : c.next = start + c.records.length
  next_le : c.next ≤ end_offset
  of_total : 0 < c.total → c.records ≠ []
  all : ∀ r ∈ c.records, P r

variable {P : StreamRecord → Prop} {c : Collected}

theorem Gapless.push (h : Gapless P start end_offset c) {r : StreamRecord} (hr : P r) (total : ℕ)
    (hoffset : r.offset = c.next) (hend : r.offset < end_offset) :
    Gapless P start end_offset ⟨c.records ++ [r], total, r.offset + 1⟩ where
  offsets := by
    rw [map_append, h.offsets, length_append, map_singleton, length_singleton,
      hoffset, h.next_eq, range'_1_concat]
  next_eq := by
    rw [length_append, length_singleton, hoffset, h.next_eq, add_assoc]
  next_le := hend
  of_total := by simp
  all := forall_mem_append.2 ⟨h.all, forall_mem_singleton.2 hr⟩

theorem Gapless.records_ne (h : Gapless P start end_offset c) (hnext : start < c.next) :
    c.records ≠ [] := by
  intro hnil
  have hlen := h.next_eq
  rw [hnil, length_nil] at hlen
  omega

theorem collect_batch_spec {records : List StreamRecord} {k : ℕ}
    (hrecords : records.map StreamRecord.offset = range' k records.length)
    (hP : ∀ r ∈ records, P r) (h : Gapless P start end_offset c) (hnext : c.next = max start k)
    (hroom : start < end_offset) {c' : Collected} {stop : Bool}
    (heq : collect_batch start end_offset max_bytes max_records records c = (c', stop)) :
    Gapless P start end_offset c' ∧
      (stop = false → c'.next = max start (k + records.length)) ∧
      (stop = true → c'.records ≠ []) := by
  induction records generalizing k c with
  | nil =>
    cases heq
    exact ⟨h, fun _ => hnext, by simp⟩
  | cons r records ih =>
    rw [map_cons, length_cons, range'_succ, cons.injEq] at hrecords
    obtain ⟨hr, hrest⟩ := hrecords
    obtain ⟨hPr, hP⟩ := forall_mem_cons.1 hP
    rw [length_cons, add_comm records.length, ← add_assoc]
    rw [collect_batch] at heq
    by_cases hbefore : r.offset < start
    · rw [if_pos hbefore] at heq
      exact ih hrest hP h (by omega) heq
    · rw [if_neg hbefore] at heq
      by_cases hend : end_offset ≤ r.offset
      · rw [if_pos hend] at heq
        cases heq
        exact ⟨h, by simp, fun _ => h.records_ne (by omega)⟩
      · rw [if_neg hend] at heq
        by_cases hfull : max_bytes < c.total + r.record.size_hint ∧ 0 < c.total
        · rw [if_pos hfull] at heq
          cases heq
          exact ⟨h, by simp, fun _ => h.of_total hfull.2⟩
        · rw [if_neg hfull] at heq
          have hpush := h.push hPr (c.total + r.record.size_hint) (by omega : r.offset = c.next)
            (by omega)
          dsimp only at heq
          by_cases hlimit : max_bytes ≤ c.total + r.record.size_hint ∨
              max_records ≤ (c.records ++ [r]).length
          · rw [if_pos hlimit] at heq
            cases heq
            exact ⟨hpush, by simp, by simp⟩
          · rw [if_neg hlimit] at heq
            exact ih hrest hP hpush (by dsimp only; omega) heq

/-- The batch decodes to records at its offsets that have the property. -/
def Decodes (codecs : Codecs) (P : StreamRecord → Prop) (b : Batch Bytes) : Prop :=
  ∃ records, decode_batches codecs b.payload = .ok records ∧
    records.map StreamRecord.offset = range' b.base_offset b.record_count ∧ ∀ r ∈ records, P r

/-- A read over contiguous batches that decode. -/
theorem collect_loop_spec {l : List (Batch Bytes)} {n : ℕ} (hl : Contiguous n l)
    (hdecodes : ∀ b ∈ l, Decodes codecs P b) (h : Gapless P start end_offset c)
    (hnext : c.next = max start n) (hroom : start < end_offset) (max_bytes max_records : ℕ) :
    ∃ c', collect_loop start end_offset max_bytes max_records codecs (l.map of_log_batch) c =
        .ok c' ∧ Gapless P start end_offset c' ∧
      (c'.records = [] → l.foldl (fun _ b => b.last_offset) n ≤ start) := by
  induction l generalizing n c with
  | nil =>
    refine ⟨c, rfl, h, fun hnil => ?_⟩
    have hlen := h.next_eq
    rw [hnil, length_nil] at hlen
    show n ≤ start
    omega
  | cons b l ih =>
    obtain ⟨hbase, hpos, htail⟩ := hl
    have hrest := fun b' hb' => hdecodes b' (mem_cons_of_mem _ hb')
    rw [map_cons, collect_loop, of_log_batch]
    dsimp only
    by_cases hbefore : b.last_offset ≤ start
    · rw [if_pos hbefore]
      have hnext' : c.next = max start b.last_offset := by
        unfold Batch.last_offset at hbefore ⊢
        omega
      exact ih htail hrest h hnext'
    · rw [if_neg hbefore]
      by_cases hend : end_offset ≤ b.base_offset
      · rw [if_pos hend]
        exact ⟨c, rfl, h, fun hnil => absurd hnil (h.records_ne (by omega))⟩
      · rw [if_neg hend]
        obtain ⟨records, hrecords, hoffsets, hP⟩ := hdecodes b (mem_cons_self ..)
        have hlen : records.length = b.record_count := by
          have hmap := congrArg length hoffsets
          rwa [length_map, length_range'] at hmap
        rw [← hlen] at hoffsets
        rw [hrecords]
        cases hcollect : collect_batch start end_offset max_bytes max_records records c with
        | mk c₁ stop =>
          obtain ⟨hc₁, hall, hstop⟩ := collect_batch_spec hoffsets hP h (by omega) hroom hcollect
          simp only [bind, Except.bind, hcollect]
          cases stop with
          | true => exact ⟨c₁, rfl, hc₁, fun hnil => absurd hnil (hstop rfl)⟩
          | false =>
            have hnext' : c₁.next = max start b.last_offset := by
              rw [hall rfl, hlen]
              rfl
            exact ih htail hrest hc₁ hnext'

/-- A read over a run of batches whose first one holds its start. -/
theorem collect_records_spec {b : Batch Bytes} {rest : List (Batch Bytes)}
    (hrun : Contiguous b.base_offset (b :: rest)) (hbase : b.base_offset ≤ start)
    (hlast : start < b.last_offset) (hdecodes : ∀ b' ∈ b :: rest, Decodes codecs P b')
    (hroom : start < end_offset) (max_bytes max_records : ℕ) :
    ∃ r, collect_records start end_offset max_bytes max_records codecs
        ((b :: rest).map of_log_batch) = .ok r ∧
      r.records.map StreamRecord.offset = range' start r.records.length ∧
      r.next_offset = start + r.records.length ∧ r.next_offset ≤ end_offset ∧ r.records ≠ [] ∧
      (∀ r' ∈ r.records, P r') ∧ (r.up_to_date = true ↔ r.next_offset = end_offset) := by
  have hempty : Gapless P start end_offset { next := start } :=
    ⟨rfl, rfl, hroom.le, fun htotal => absurd htotal (lt_irrefl 0), nofun⟩
  have hnext : start = max start b.base_offset := by omega
  obtain ⟨c, hcollect, hc, hsome⟩ :=
    collect_loop_spec hrun hdecodes hempty hnext hroom max_bytes max_records
  refine ⟨⟨c.records, c.next, end_offset ≤ c.next⟩, ?_, hc.offsets, hc.next_eq, hc.next_le,
    fun hnil => ?_, hc.all, ?_⟩
  · rw [collect_records, hcollect]
    rfl
  · -- the first batch reaches past the start
    have hle := le_trans (BatchLog.last_le_foldl hrun (mem_cons_self ..)) (hsome hnil)
    omega
  · have hle := hc.next_le
    rw [decide_eq_true_eq]
    dsimp only
    omega

end Collect

/-! ## Logs of accepted payloads -/

/-- The count of the records saturates. -/
theorem total_count_eq_min (headers : List BatchHeader) :
    total_count headers = min (declared headers) (2 ^ 32 - 1) := by
  suffices hfold : ∀ (hs : List BatchHeader) (acc : ℕ), acc ≤ 2 ^ 32 - 1 →
      hs.foldl (fun acc h => min (acc + h.record_count) (2 ^ 32 - 1)) acc =
        min (acc + declared hs) (2 ^ 32 - 1) by
    have hzero := hfold headers 0 (by omega)
    rwa [zero_add] at hzero
  intro hs
  induction hs with
  | nil => intro acc hacc; exact (min_eq_left hacc).symm
  | cons header hs ih =>
    intro acc hacc
    rw [foldl_cons, ih _ (min_le_right ..), declared_cons]
    omega

theorem total_count_eq (h : declared headers < 2 ^ 32) : total_count headers = declared headers := by
  rw [total_count_eq_min]
  omega

theorem declared_dropLast_lt (hparse : parse_batches codecs payload = .ok headers)
    (hne : headers ≠ []) : declared headers.dropLast < declared headers := by
  obtain ⟨chunks, -, hchunks⟩ := exists_batches_of_parse hparse
  have hpos : ∀ header ∈ headers, 0 < header.record_count :=
    ((forall₂_and_left ..).1 (hchunks.imp fun _ _ h => ⟨record_count_pos h.header_ok, h⟩)).1
  have hlast := hpos _ (getLast_mem hne)
  have hsplit : declared headers = declared headers.dropLast + (headers.getLast hne).record_count := by
    conv_lhs => rw [← dropLast_append_getLast hne]
    rw [declared, declared, map_append, sum_append_nat, map_singleton, sum_singleton]
  omega

def Readable (codecs : Codecs) (log : BatchLog Bytes) : Prop :=
  ∀ b ∈ log.batches, Decodes codecs (fun _ => True) b

variable {log log' : BatchLog Bytes} {stream_epoch : ℕ}

theorem readable_produce (h : produce codecs log payload stream_epoch = .ok log')
    (hhonest : ∀ headers, parse_batches codecs payload = .ok headers → Honest headers payload)
    (hlog : log.next_offset ≤ 2 ^ 63 → Readable codecs log) :
    log'.next_offset ≤ 2 ^ 63 → Readable codecs log' := by
  obtain ⟨headers, hparse, hproduce⟩ := bind_eq_ok_iff.1 h
  obtain ⟨huncompressed, hwell, hcount⟩ := hhonest headers hparse
  cases hproduce
  have htotal := total_count_eq hcount
  intro hnext
  by_cases hpos : 0 < total_count headers
  · rw [BatchLog.next_offset_append hpos, htotal] at hnext
    have hbase : headers ≠ [] → log.next_offset + declared headers.dropLast < 2 ^ 63 := by
      intro hne
      have hlt := declared_dropLast_lt hparse hne
      omega
    obtain ⟨-, -, hdecode⟩ := (decodesAsStamped_iff hparse huncompressed hbase
      (leader_epoch stream_epoch)).2 hwell
    obtain ⟨records, hdecode, hoffsets⟩ := map_eq_ok_iff.1 hdecode
    intro b hb
    rw [BatchLog.append_of_pos hpos, mem_append, mem_singleton] at hb
    rcases hb with hb | rfl
    · exact hlog (by omega) b hb
    · exact ⟨records, hdecode, by rw [hoffsets, htotal], fun _ _ => trivial⟩
  · have hsame : log.append (total_count headers)
        (stamp_batches payload headers log.next_offset (leader_epoch stream_epoch)).1 = log := by
      rw [BatchLog.append, dif_neg hpos]
    rw [hsame] at hnext ⊢
    exact hlog hnext

/-- A read of a readable log returns consecutive records from its start, at least one if there is
one. -/
theorem read_readable {confirm_offset fetched start max_bytes max_records : ℕ}
    (h : Readable codecs log) (hstart : start ≤ confirm_offset)
    (hconfirm : confirm_offset ≤ log.next_offset) (hfetched : 0 < fetched) :
    ∃ r, read codecs log confirm_offset fetched start max_bytes max_records = .ok r ∧
      r.records.map StreamRecord.offset = range' start r.records.length ∧
      r.next_offset = start + r.records.length ∧ r.next_offset ≤ confirm_offset ∧
      (start < confirm_offset → r.records ≠ []) := by
  rw [read, if_neg (not_lt.2 hstart)]
  by_cases hend : start = confirm_offset
  · rw [if_pos hend]
    exact ⟨_, rfl, rfl, by simp [hend], le_refl _, fun hlt => absurd hend hlt.ne⟩
  · rw [if_neg hend]
    have hroom : start < confirm_offset := by omega
    have hbelow : start < log.next_offset := by omega
    obtain ⟨b, rest, hfetch, hbase, hlast, hcontiguous⟩ :=
      BatchLog.exists_cons_of_fetch hroom hbelow
    obtain ⟨k, rfl⟩ : ∃ k, fetched = k + 1 := ⟨fetched - 1, by omega⟩
    have htake := BatchLog.contiguous_of_prefix hcontiguous ( take_prefix (k + 1) _)
    have hdecodes : ∀ b' ∈ take (k + 1) (b :: rest), Decodes codecs (fun _ => True) b' :=
      fun b' hb' => h b' (mem_of_mem_filter (hfetch ▸ mem_of_mem_take hb'))
    obtain ⟨r, hread, hoffsets, hnext, hle, hne, -⟩ := collect_records_spec htake hbase hlast
      hdecodes hroom (limit max_bytes) (limit max_records)
    exact ⟨r, hfetch ▸ hread, hoffsets, hnext, hle, fun _ => hne⟩

/-- CRC-32C, bit by bit. -/
def castagnoli (bytes : Bytes) : UInt32 :=
  let round (crc : UInt32) : UInt32 :=
    if crc &&& 1 = 1 then (crc >>> 1) ^^^ 0x82f63b78 else crc >>> 1
  let crc := bytes.foldl (fun crc b =>
    (range 8).foldl (fun crc _ => round crc) (crc ^^^ b.toUInt32)) 0xffffffff
  crc ^^^ 0xffffffff

def plain_codecs : Codecs := ⟨castagnoli, fun _ _ => .error "no codec"⟩

/-- A batch of a client that names no producer. -/
def client_batch (record_count batch_length first_ms max_ms : UInt8) (crc records : Bytes) : Bytes :=
  [0, 0, 0, 0, 0, 0, 0, 0, 0, 0, 0, batch_length, 0, 0, 0, 0, 2] ++ crc ++
    [0, 0, 0, 0, 0, record_count - 1] ++ [0, 0, 0, 0, 0, 0, 0, first_ms] ++
    [0, 0, 0, 0, 0, 0, 0, max_ms] ++
    [255, 255, 255, 255, 255, 255, 255, 255, 255, 255, 255, 255, 255, 255, 0, 0, 0, record_count] ++
    records

/-- A record without key and value. -/
def plain_record (timestamp_delta offset_delta : UInt8) : Bytes :=
  [12, 0, 2 * timestamp_delta, 2 * offset_delta, 1, 1, 0]

/-- Two records, of the times 10 and 30. -/
def first_batch : Bytes :=
  client_batch 2 63 10 30 [167, 1, 102, 162] (plain_record 0 0 ++ plain_record 20 1)

/-- One record, of the time 20. -/
def second_batch : Bytes := client_batch 1 56 20 20 [91, 194, 139, 47] (plain_record 0 0)

def both_headers : List BatchHeader :=
  [⟨0, 0, 2, 10, 30, 0, false, false, none, 75⟩, ⟨0, 0, 1, 20, 20, 0, false, false, none, 68⟩]

theorem parse_both :
    parse_batches plain_codecs (first_batch ++ second_batch) = .ok both_headers := by
  decide +kernel

end PicoMq.Server
