import PicoMq.Server.Produce

/-!
# Stamping

What a produced payload becomes: its batches get the offsets from the end of the log on, and nothing
else of them changes but the leader epoch.
-/

namespace PicoMq.Server

open Metadata Wire

/-- Each batch begins where the one before it ends, from `first` to `next`. -/
def Adjacent : ℕ → ℕ → List StreamBatch → Prop
  | first, next, [] => first = next
  | first, next, batch :: batches =>
    batch.base_offset = first ∧ Adjacent batch.last_offset next batches

instance : (first next : ℕ) → (batches : List StreamBatch) → Decidable (Adjacent first next batches)
  | _, _, [] => inferInstanceAs (Decidable (_ = _))
  | _, next, batch :: batches =>
    have : Decidable (Adjacent batch.last_offset next batches) :=
      instDecidableAdjacent batch.last_offset next batches
    inferInstanceAs (Decidable (_ ∧ _))

/-- The batches are the same but for the base offset and the leader epoch. -/
structure Restamped (received stamped : Bytes) : Prop where
  length : stamped.length = received.length
  between : slice stamped 8 4 = slice received 8 4
  rest : stamped.drop 16 = received.drop 16

/-- The batches that a payload is stamped into, for a log that then ends at `next_offset`. -/
structure StampedInto (codecs : Codecs) (payload : Bytes) (headers : List BatchHeader)
    (base_offset next_offset : ℕ) (stamped : Bytes) (batches : List StreamBatch) : Prop where
  adjacent : Adjacent base_offset next_offset batches
  headers : List.Forall₂ (fun header batch => ∃ leader_epoch, batch_header batch.payload =
    .ok { header with base_offset := batch.base_offset, leader_epoch } ∧
      batch.last_offset = batch.base_offset + header.record_count) headers batches
  crc : ∀ batch ∈ batches, verify_crc codecs batch.payload = .ok ()
  slices : (batches.map StreamBatch.payload).flatten = stamped
  unchanged : ∃ received : List Bytes, received.flatten = payload ∧
    List.Forall₂ Restamped received (batches.map StreamBatch.payload)

/-- The batches declare no more records than a count holds, and the offset that each begins at fits
the field of its header: that of the last one is the largest. -/
structure CountFits (headers : List BatchHeader) (base_offset : ℕ) : Prop where
  count : declared headers < 2 ^ 32
  last : headers ≠ [] → base_offset + declared headers.dropLast < 2 ^ 63

end PicoMq.Server
