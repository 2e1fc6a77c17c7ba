import PicoMq.Server.Timestamps

/-!
# Leader epochs

A Kafka consumer asks where a leader epoch ends, and which epoch an offset was written under. Both
answers scan the epochs that the metadata records of the stream.
-/

namespace PicoMq.Server

open Metadata

variable (state : MetadataState) (stream_id : ℕ)

/-- The epochs of a log as the service hands them out. -/
def epochs : List (ℕ × ℕ) :=
  (state.stream_epochs stream_id).map fun e => ((max e.1 0).toNat, e.2)

def leader_epochs : List (ℤ × ℕ) :=
  (epochs state stream_id).map fun e => (leader_epoch e.1, e.2)

structure LeaderWatermarks extends StreamWatermarks where
  epoch : ℕ
deriving DecidableEq

inductive LeaderError where
  | fencedLeaderEpoch
  | unknownLeaderEpoch
deriving DecidableEq, Repr

def leader_watermarks (watermarks : LeaderWatermarks) (current_leader_epoch : ℤ) :
    Except LeaderError LeaderWatermarks :=
  let epoch := leader_epoch watermarks.epoch
  if current_leader_epoch < 0 ∨ current_leader_epoch = epoch then .ok watermarks
  else if current_leader_epoch < epoch then .error .fencedLeaderEpoch
  else .error .unknownLeaderEpoch

def UNDEFINED : ℤ × ℤ := (-1, -1)

def epoch_end (epochs : List (ℤ × ℕ)) (current : ℤ) (high_watermark : ℕ) (wanted : ℤ) : ℤ × ℤ :=
  if wanted < 0 then UNDEFINED
  else if wanted = current then (wanted, asI64 high_watermark)
  else match epochs.find? fun e => e.1 > wanted with
    | none => UNDEFINED
    | some next =>
      (((epochs.takeWhile fun e => e.1 ≤ wanted).getLast?).elim wanted Prod.fst, asI64 next.2)

/-- The answer of `OffsetForLeaderEpoch` for one partition. -/
def end_offset (watermarks : LeaderWatermarks)
    (current_leader_epoch wanted : ℤ) : Except LeaderError (ℤ × ℤ) := do
  let watermarks ← leader_watermarks watermarks current_leader_epoch
  return epoch_end (leader_epochs state stream_id) (leader_epoch watermarks.epoch)
    watermarks.high_watermark wanted

/-- The epoch that `ListOffsets` reports for an offset. -/
def epoch_at (epochs : List (ℤ × ℕ)) (offset : ℕ) : ℤ :=
  ((epochs.takeWhile fun e => e.2 ≤ offset).getLast?).elim (-1) Prod.fst

/-- A defined end separates the live offsets reported under the epoch or an earlier one from the
others, and later epochs do not end earlier. -/
structure LeaderEpochsAgree (watermarks : LeaderWatermarks) : Prop where
  separates : ∀ current wanted answer,
    end_offset state stream_id watermarks current wanted = .ok answer → answer ≠ UNDEFINED →
      ∀ offset : ℕ, watermarks.log_start_offset ≤ offset → offset < watermarks.high_watermark →
        (epoch_at (leader_epochs state stream_id) offset ≤ wanted ↔ (offset : ℤ) < answer.2)
  monotone : ∀ current wanted answer current' wanted' answer',
    end_offset state stream_id watermarks current wanted = .ok answer → answer ≠ UNDEFINED →
      end_offset state stream_id watermarks current' wanted' = .ok answer' →
        answer' ≠ UNDEFINED → wanted ≤ wanted' → answer.2 ≤ answer'.2

end PicoMq.Server
