import Mathlib.Data.String.Basic
import PicoMq.Library.OrdMap
import PicoMq.Metadata.Engine

/-!
# The replicated command set

Commands, their proposers, and what applying a command answers: a result or an error. Errors carry
the message texts of the source.
-/

namespace PicoMq.Metadata

/-- The registered node that proposes a command, at one of its epochs. -/
structure Proposer where
  node_id : ℤ
  node_epoch : ℤ
deriving DecidableEq, Repr

/-- What can be written to the metadata log. -/
inductive MetadataCommand where
  | registerNode (node_id node_epoch : ℤ) (http_address : String) (slots : ℕ)
      (protocol_addresses : OrdMap String String) (wal : String)
  | setNodeSlots (proposer : Proposer) (node_id : ℤ) (slots : ℕ)
  | heartbeat (proposer : Proposer)
  | fenceNode (proposer : Proposer) (node_id node_epoch : ℤ) (heartbeats : ℕ)
  | placeStream (proposer : Proposer) (stream_id : ℕ) (node_id : Option ℤ)
  | createStream (proposer : Proposer)
  | openStream (proposer : Proposer) (stream_id : ℕ) (epoch : ℤ)
  | trimStream (proposer : Proposer) (stream_id : ℕ) (epoch : ℤ) (new_start_offset : ℕ)
  | closeStream (proposer : Proposer) (stream_id : ℕ) (epoch : ℤ)
  | deleteStream (proposer : Proposer) (stream_id : ℕ) (epoch : ℤ)
  | prepareObject (proposer : Proposer) (count : ℕ) (ttl_ms now_ms : ℤ)
  | commitStreamSetObject (proposer : Proposer) (request : CommitStreamSetObjectRequest)
      (now_ms : ℤ)
  | compactStreamObject (proposer : Proposer) (request : CompactStreamObjectRequest) (now_ms : ℤ)
  | expirePreparedObjects (proposer : Proposer) (now_ms : ℤ)
  | cleanDestroyedObjects (proposer : Proposer) (object_ids : List ℕ)
  | putKv (proposer : Proposer) (key : String) (value : Bytes)
  | putKvIfAbsent (proposer : Proposer) (key : String) (value : Bytes)
  | deleteKv (proposer : Proposer) (key : String)
  | deleteKvIfMatches (proposer : Proposer) (key : String) (expected : Bytes)
  | putKvIfMatches (proposer : Proposer) (key : String) (expected value : Bytes)
  | transferStream (proposer : Proposer) (stream_id : ℕ) (from_node to_node : ℤ)
  | completeTransfer (proposer : Proposer) (stream_id : ℕ) (epoch : ℤ)
  | createStreams (proposer : Proposer) (count : ℕ)
  | allocateProducerIds (proposer : Proposer) (count : ℕ)
deriving DecidableEq

/-- The node proposing a command; `none` only for a registration. -/
def MetadataCommand.proposer : MetadataCommand → Option Proposer
  | .registerNode .. => none
  | .setNodeSlots p .. => some p
  | .heartbeat p => some p
  | .fenceNode p .. => some p
  | .placeStream p .. => some p
  | .createStream p => some p
  | .openStream p .. => some p
  | .trimStream p .. => some p
  | .closeStream p .. => some p
  | .deleteStream p .. => some p
  | .prepareObject p .. => some p
  | .commitStreamSetObject p .. => some p
  | .compactStreamObject p .. => some p
  | .expirePreparedObjects p .. => some p
  | .cleanDestroyedObjects p .. => some p
  | .putKv p .. => some p
  | .putKvIfAbsent p .. => some p
  | .deleteKv p .. => some p
  | .deleteKvIfMatches p .. => some p
  | .putKvIfMatches p .. => some p
  | .transferStream p .. => some p
  | .completeTransfer p .. => some p
  | .createStreams p .. => some p
  | .allocateProducerIds p .. => some p

inductive MetadataResult where
  | unit
  | id (id : ℕ)
  | count (count : ℕ)
  | stream (metadata : StreamMetadata)
  | value (value : Option Bytes)
deriving DecidableEq

/-- Why a command was refused, or why its outcome is unknown. -/
inductive MetadataError where
  | streamNotExist (stream_id : ℕ)
  | streamNotClosed (stream_id : ℕ)
  | streamFenced (stream_id : ℕ) (epoch : ℤ) (message : String)
  | expiredEpoch (stream_id : ℕ) (epoch : ℤ) (message : String)
  | nodeEpochMismatch (node_id : ℤ) (message : String)
  | redundant (message : String)
  | noLiveNode (message : String)
  | unavailable (message : String)
  | unexpected (message : String)
deriving DecidableEq

end PicoMq.Metadata
