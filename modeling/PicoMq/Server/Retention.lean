import PicoMq.Common
import PicoMq.Metadata.Spans

/-!
# Retention

Old spans are dropped from the front: those past the time limit, then as many as leave at least the
size limit.
-/

namespace PicoMq.Server

open Metadata

abbrev Retention := Common.Retention ℕ

namespace Retention

def keeps_all (retention : Retention) (stored_bytes : ℕ) : Bool :=
  retention.ms.isNone && retention.bytes.any fun limit => stored_bytes < limit

/-- `now_ms.saturating_sub(i64::try_from(ms).unwrap_or(i64::MAX))`. -/
def cutoff (now_ms : ℤ) (ms : ℕ) : ℤ := max (now_ms - min ms (2 ^ 63 - 1)) (-2 ^ 63)

def total_bytes (spans : List ObjectSpan) : ℕ := (spans.map ObjectSpan.bytes).sum

/-- The loop of the size limit: `total` is what `kept` holds. -/
def drop_to_limit (limit : ℕ) : List ObjectSpan → ℕ → List ObjectSpan
  | [], _ => []
  | oldest :: rest, total =>
    if total - oldest.bytes < limit then oldest :: rest
    else drop_to_limit limit rest (total - oldest.bytes)

def kept (retention : Retention) (spans : List ObjectSpan) (now_ms : ℤ) : List ObjectSpan :=
  let recent := match retention.ms with
    | none => spans
    | some ms => spans.dropWhile fun span => span.last_write_ms < cutoff now_ms ms
  match retention.bytes with
  | none => recent
  | some limit => drop_to_limit limit recent (total_bytes recent)

def start_offset (retention : Retention) (spans : List ObjectSpan) (now_ms : ℤ) : Option ℕ :=
  match spans.length - (retention.kept spans now_ms).length with
  | 0 => none
  | last + 1 => spans[last]?.map (·.end_offset)

end Retention

/-- The spans from `start` on, all of them if there is no such offset. -/
def spans_from (spans : List ObjectSpan) (start : Option ℕ) : List ObjectSpan :=
  spans.filter fun span => start.all fun start => start ≤ span.start_offset

/-- Retention does not drop too much of stream `sid` after the first `n` commands of the log. -/
structure RetentionKeeps (noop : ℕ) (log : List MetadataCommand) (n sid : ℕ)
    (now_ms : ℤ) : Prop where
  /-- An offset that the stream still has and that was committed within the limit stays. -/
  recent : ∀ ms start, Retention.start_offset { ms := some ms }
    ((history noop log n).object_spans sid) now_ms = some start →
    ∀ row offset t, (history noop log n).streams.get sid = some row →
      row.start_offset ≤ offset → Covered (history noop log n) sid offset →
      FirstCommitted noop log n sid offset t → now_ms - min ms (2 ^ 63 - 1) ≤ t →
      start ≤ offset
  /-- Under a size limit, what stays reaches the limit, and would not with one span fewer. -/
  enough : ∀ limit start, Retention.start_offset { bytes := some limit }
    ((history noop log n).object_spans sid) now_ms = start →
    (start.isSome → limit ≤ Retention.total_bytes
      (spans_from ((history noop log n).object_spans sid) start)) ∧
    ∀ oldest rest, spans_from ((history noop log n).object_spans sid) start =
      oldest :: rest → Retention.total_bytes rest < limit
  /-- A stream whose row says that it is within the size limit loses nothing. -/
  all : ∀ retention : Retention, ∀ row,
    (history noop log n).streams.get sid = some row →
    retention.keeps_all row.stored_bytes = true →
    retention.start_offset ((history noop log n).object_spans sid) now_ms = none

end PicoMq.Server
