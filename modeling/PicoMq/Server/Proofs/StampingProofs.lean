import PicoMq.Server.Proofs.ProduceProofs
import PicoMq.Server.Stamping

/-!
# Proofs: stamping

The loop over the headers stamps each batch in its place, with offsets that go on where those of the
batch before it end. The checksum does not cover what changes.
-/

namespace PicoMq.Server

open Metadata Wire

variable {codecs : Codecs} {payload : Bytes} {headers : List BatchHeader} {chunks : List Bytes}

theorem restamped_stamp {chunk : Bytes} (h : BATCH_HEADER_LEN ≤ chunk.length) (base_offset : ℕ)
    (leader_epoch : ℤ) : Restamped chunk (stamp chunk 0 base_offset leader_epoch) where
  length := length_stamp h
  between := slice_stamp h (.inl ⟨le_rfl, le_rfl⟩)
  rest := drop_stamp h le_rfl

theorem restamped_chunks (leader_epoch : ℤ)
    (h : List.Forall₂ (fun header chunk => IsBatch codecs chunk header) headers chunks)
    (assigned : ℕ) :
    List.Forall₂ Restamped chunks (stamp_chunks leader_epoch headers chunks assigned) := by
  induction h generalizing assigned with
  | nil => exact .nil
  | cons hbatch _ ih =>
    exact .cons (restamped_stamp (batch_header_eq_ok_iff.1 hbatch.header_ok).1 _ _) (ih _)

/-- The batches of the log, from the spans and the bytes of each. -/
def of_span (span : StampedSpan) (payload : Bytes) : StreamBatch :=
  ⟨span.assigned, span.assigned + span.count, span.count, payload⟩

theorem adjacent_spans (leader_epoch : ℤ) (headers : List BatchHeader) (bytes : Bytes)
    (pos assigned : ℕ) (part : StampedSpan → Bytes) :
    Adjacent assigned (assigned + declared headers)
      ((stamp_loop leader_epoch headers bytes pos assigned).2.map fun s => of_span s (part s)) := by
  induction headers generalizing bytes pos assigned with
  | nil => rfl
  | cons header headers ih =>
    rw [declared_cons, ← Nat.add_assoc]
    exact ⟨rfl, ih _ _ _⟩

/-- The batches as they are stored are batches at the offsets they were given. -/
theorem stamped_headers (leader_epoch : ℤ)
    (h : List.Forall₂ (fun header chunk => IsBatch codecs chunk header) headers chunks)
    (bytes : Bytes) (pos assigned : ℕ)
    (hlast : headers ≠ [] → assigned + declared headers.dropLast < 2 ^ 63) {part : StampedSpan → Bytes}
    (hparts : List.Forall₂ (fun s chunk => part s = chunk)
      (stamp_loop leader_epoch headers bytes pos assigned).2
      (stamp_chunks leader_epoch headers chunks assigned)) :
    List.Forall₂ (fun header batch => ∃ leader_epoch, IsBatch codecs batch.payload
        { header with base_offset := batch.base_offset, leader_epoch } ∧
          batch.last_offset = batch.base_offset + header.record_count) headers
      ((stamp_loop leader_epoch headers bytes pos assigned).2.map fun s => of_span s (part s)) := by
  induction h generalizing bytes pos assigned with
  | nil => exact .nil
  | @cons header chunk headers chunks hbatch _ ih =>
    obtain ⟨hpart, hparts⟩ := List.forall₂_cons.1 hparts
    obtain ⟨hassigned, hrest⟩ := offsets_of_cons (hlast (List.cons_ne_nil _ _))
    obtain ⟨epoch, hstamped⟩ := hbatch.stamp hassigned leader_epoch
    refine .cons ⟨epoch, ?_, rfl⟩ (ih _ _ _ hrest hparts)
    show IsBatch codecs (part _) _
    rw [hpart]
    exact hstamped

theorem map_payload_spans {spans : List StampedSpan} {part : StampedSpan → Bytes}
    (h : List.Forall₂ (fun s chunk => part s = chunk) spans chunks) :
    (spans.map fun s => of_span s (part s)).map StreamBatch.payload = chunks := by
  induction h with
  | nil => rfl
  | cons hpart _ ih => rw [List.map_cons, List.map_cons, ih, ← hpart]; rfl

/-- The stream advances by what the batches declare, up to the largest count. -/
theorem next_offset_append_total (log : BatchLog Bytes) (headers : List BatchHeader)
    (stamped : Bytes) : (log.append (total_count headers) stamped).next_offset =
      log.next_offset + min (declared headers) (2 ^ 32 - 1) := by
  rw [← total_count_eq_min]
  by_cases hpos : 0 < total_count headers
  · exact BatchLog.next_offset_append hpos
  · rw [BatchLog.append, dif_neg hpos]
    omega

theorem Adjacent.unique {first next next' : ℕ} {batches : List StreamBatch}
    (h : Adjacent first next batches) (h' : Adjacent first next' batches) : next = next' := by
  induction batches generalizing first with
  | nil => exact Eq.trans (Eq.symm h) h'
  | cons batch batches ih => exact ih h.2 h'.2

/-- An offset that a header states fits its field. -/
theorem stated_offset_lt {bytes : Bytes} {header : BatchHeader}
    (h : batch_header bytes = .ok header) : header.base_offset < 2 ^ 63 := by
  obtain ⟨-, -, -, -, -, rfl⟩ := batch_header_eq_ok_iff.1 h
  have hoffset : IsSigned 63 (i64_at bytes 0) := isSigned_to_signed _ _
  have hstated : (header_at bytes).base_offset = (i64_at bytes 0).toNat := by rw [header_at]
  unfold IsSigned at hoffset
  omega

/-- Adjacent batches that state their own offsets begin below the largest one. -/
theorem last_offset_lt {first next : ℕ} {batches : List StreamBatch}
    (hheaders : List.Forall₂ (fun header batch => ∃ leader_epoch, batch_header batch.payload =
      .ok { header with base_offset := batch.base_offset, leader_epoch } ∧
        batch.last_offset = batch.base_offset + header.record_count) headers batches)
    (hadjacent : Adjacent first next batches) (hne : headers ≠ []) :
    first + declared headers.dropLast < 2 ^ 63 := by
  induction hheaders generalizing first with
  | nil => exact absurd rfl hne
  | @cons header batch headers batches hhead _ ih =>
    obtain ⟨epoch, hstored, hlast⟩ := hhead
    obtain ⟨rfl, htail⟩ := hadjacent
    by_cases hrest : headers = []
    · rw [hrest]
      exact stated_offset_lt hstored
    · have hbelow := ih htail hrest
      rw [List.dropLast_cons_of_ne_nil hrest, declared_cons]
      omega

/-- The batches of an accepted payload take adjacent offsets from the old end of the log to the new
one, are what the client sent but for offset and epoch, and their checksums still hold, exactly if
the count and the offsets fit. -/
theorem stamped_offsets_are_adjacent_iff (codecs : Codecs) (log : BatchLog Bytes) (payload : Bytes)
    (stream_epoch : ℕ) (headers : List BatchHeader)
    (hparse : parse_batches codecs payload = .ok headers) :
    let result := stamp_batches payload headers log.next_offset (leader_epoch stream_epoch)
    StampedInto codecs payload headers log.next_offset
        (log.append (total_count headers) result.1).next_offset result.1 result.2 ↔
      CountFits headers log.next_offset := by
  intro result
  obtain ⟨chunks, rfl, hchunks⟩ := exists_batches_of_parse hparse
  have hspans := adjacent_spans (leader_epoch stream_epoch) headers chunks.flatten 0 log.next_offset
    fun s => slice result.1 s.pos (s.to_pos - s.pos)
  constructor
  · intro hinto
    -- the loop leaves off after all the records that are declared, the stream where the count does
    have hend := hinto.adjacent.unique hspans
    rw [next_offset_append_total] at hend
    exact ⟨by omega, last_offset_lt hinto.headers hinto.adjacent⟩
  · intro hfits
    obtain ⟨hstamped, hslices⟩ :=
      stamp_loop_chunks (leader_epoch stream_epoch) hchunks [] log.next_offset
    rw [List.nil_append, List.length_nil, List.nil_append] at hstamped hslices
    have hbatches := stamped_headers _ hchunks _ _ _ hfits.last hslices
    have hpayloads := map_payload_spans hslices
    rw [← hstamped] at hbatches hpayloads
    refine ⟨?_, ?_, ?_, ?_, chunks, rfl, ?_⟩
    · have hcount : declared headers ≤ 2 ^ 32 - 1 := Nat.le_pred_of_lt hfits.count
      rw [next_offset_append_total, min_eq_left hcount]
      exact hspans
    · exact hbatches.imp fun header batch ⟨epoch, hbatch, hlast⟩ => ⟨epoch, hbatch.header_ok, hlast⟩
    · intro batch hbatch
      obtain ⟨n, hn, rfl⟩ := List.getElem_of_mem hbatch
      obtain ⟨epoch, hstored, -⟩ := hbatches.get (hbatches.length_eq ▸ hn) hn
      exact hstored.crc_ok
    · exact (congrArg List.flatten hpayloads).trans hstamped.symm
    · exact hpayloads.symm ▸ restamped_chunks _ hchunks _

/-- Two batches after 40 records: the first takes two offsets, and the second goes on at 42. -/
theorem stamped_offsets_of_three_records :
    let log := BatchLog.empty.append 40 ([] : Bytes)
    let result := stamp_batches (first_batch ++ second_batch) both_headers log.next_offset
      (leader_epoch 3)
    (result.2.map fun batch => (batch.base_offset, batch.last_offset)) = [(40, 42), (42, 43)] ∧
      CountFits both_headers log.next_offset ∧
      StampedInto plain_codecs (first_batch ++ second_batch) both_headers 40 43 result.1 result.2 := by
  intro log result
  have hfits : CountFits both_headers log.next_offset := by
    constructor
    · decide
    · decide
  exact ⟨rfl, hfits, (stamped_offsets_are_adjacent_iff plain_codecs log _ 3 both_headers parse_both).2 hfits⟩

/-- A batch without records that declares as many of them as a header can. -/
def largest_batch : Bytes :=
  [0, 0, 0, 0, 0, 0, 0, 0, 0, 0, 0, 49, 0, 0, 0, 0, 2, 14, 216, 127, 4] ++
    [0, 0, 0, 0, 0, 0, 0, 0, 0, 0, 0, 0, 0, 0, 0, 0, 0, 0, 0, 0, 0, 0, 255, 255, 255, 255, 255, 255,
      255, 255, 255, 255, 255, 255, 255, 255, 127, 255, 255, 255]

/-- Three such batches take 6442450941 offsets, and the stream advances by 4294967295. -/
theorem stamped_offsets_reused :
    let payload := largest_batch ++ largest_batch ++ largest_batch
    let header : BatchHeader := ⟨0, 0, 2147483647, 0, 0, 0, false, false, none, 61⟩
    let result := stamp_batches payload [header, header, header] 0 0
    parse_batches plain_codecs payload = .ok [header, header, header] ∧
      (produce plain_codecs .empty payload 0).map BatchLog.next_offset = .ok 4294967295 ∧
      (result.2.map fun batch => (batch.base_offset, batch.last_offset)) =
        [(0, 2147483647), (2147483647, 4294967294), (4294967294, 6442450941)] ∧
      ¬ StampedInto plain_codecs payload [header, header, header] 0 4294967295 result.1 result.2 := by
  intro payload header result
  have hadjacent : ¬ Adjacent 0 4294967295 result.2 := by decide +kernel
  refine ⟨?_, ?_, ?_, fun hstamped => hadjacent hstamped.adjacent⟩
  · decide +kernel
  · decide +kernel
  · decide +kernel

end PicoMq.Server
