import PicoMq.Metadata.Objects

/-!
# Reserved object ids

`PrepareObject` hands out object ids and leases them until a deadline.
-/

namespace PicoMq.Metadata

def Leased (s : MetadataState) (id : ℕ) : Prop :=
  s.prepared.contains_key id = true

instance (s : MetadataState) (id : ℕ) : Decidable (Leased s id) :=
  inferInstanceAs (Decidable (_ = _))

/-- One of the first `i` commands is a reservation whose block has `id` in it. -/
def HandedOut (noop : ℕ) (log : List MetadataCommand) (i id : ℕ) : Prop :=
  ∃ k < i, ∃ p count ttl_ms now_ms first,
    log[k]? = some (.prepareObject p count ttl_ms now_ms) ∧
    (apply noop (history noop log k)
      (.prepareObject p count ttl_ms now_ms)).2 = .ok (.id first) ∧
    first ≤ id ∧ id < first + count

def Commits (noop : ℕ) (id : ℕ) : MetadataCommand → Prop
  | .commitStreamSetObject _ request _ =>
    (request.object_id ≠ noop ∧ id = request.object_id) ∨
      ∃ object ∈ request.stream_objects, id = object.object_id
  | .compactStreamObject _ request _ =>
    request.object_id ≠ noop ∧ id = request.object_id
  | _ => False

/-- A reserved id stays leased, is live, or was given to the cleaner; an object is committed only
under a lease. -/
structure ReservedIdsAccounted (noop : ℕ) (log : List MetadataCommand) : Prop where
  accounted : ∀ i id, HandedOut noop log i id →
    Leased (history noop log i) id ∨ Live (history noop log i) id ∨
      ∃ k ≤ i, Marked (history noop log k) id
  expired_marked : ∀ i p now_ms id deadline,
    Accepted noop log i (.expirePreparedObjects p now_ms) →
    (history noop log i).prepared.get id = some deadline → deadline ≤ now_ms →
      ¬Live (history noop log i) id → Marked (history noop log (i + 1)) id
  committed_leased : ∀ i c id, Accepted noop log i c → Commits noop id c →
    Leased (history noop log i) id

/-- No lease runs out, every object is committed once under an id that was handed out, and the id
that stands for no object is not handed out. -/
structure UploadsKeepLeases (noop : ℕ) (log : List MetadataCommand) : Prop where
  no_expiry : ∀ i p now_ms, Accepted noop log i (.expirePreparedObjects p now_ms) →
    ∀ id deadline, (history noop log i).prepared.get id = some deadline →
      now_ms < deadline
  reserved : ∀ i c id, Accepted noop log i c → Commits noop id c →
    HandedOut noop log i id
  once : ∀ i j c c' id, i < j → Accepted noop log i c → Commits noop id c →
    Accepted noop log j c' → ¬Commits noop id c'
  noop : ∀ i, ¬HandedOut noop log i noop

end PicoMq.Metadata
