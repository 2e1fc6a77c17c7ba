import Mathlib.Data.List.TakeWhile
import PicoMq.Metadata.Proofs.SpanProofs
import PicoMq.Server.Retention

/-!
# Proofs: retention

Spans in order are cut in two: what is dropped ends where the last dropped span ends, and what stays
starts there or after. The two limits say where the cut is.
-/

namespace PicoMq.Server

open List Metadata

namespace Retention

variable {spans dropped kept : List ObjectSpan} {now_ms : ℤ}

/-! ## Where the cut is -/

theorem total_bytes_cons (span : ObjectSpan) (spans : List ObjectSpan) :
    total_bytes (span :: spans) = span.bytes + total_bytes spans := by
  rw [total_bytes, map_cons, sum_cons, total_bytes]

theorem drop_to_limit_spec (limit : ℕ) (spans : List ObjectSpan) :
    ∃ dropped, spans = dropped ++ drop_to_limit limit spans (total_bytes spans) ∧
      (dropped ≠ [] → limit ≤ total_bytes (drop_to_limit limit spans (total_bytes spans))) ∧
      ∀ oldest rest, drop_to_limit limit spans (total_bytes spans) = oldest :: rest →
        total_bytes rest < limit := by
  induction spans with
  | nil => exact ⟨[], rfl, fun h => absurd rfl h, fun oldest rest h => by cases h⟩
  | cons oldest rest ih =>
    have hrest : total_bytes (oldest :: rest) - oldest.bytes = total_bytes rest := by
      rw [total_bytes_cons, Nat.add_sub_cancel_left]
    rw [drop_to_limit, hrest]
    by_cases hlimit : total_bytes rest < limit
    · rw [if_pos hlimit]
      refine ⟨[], rfl, fun h => absurd rfl h, fun oldest' rest' h => ?_⟩
      cases h
      exact hlimit
    · rw [if_neg hlimit]
      obtain ⟨dropped, heq, hkept, hmore⟩ := ih
      refine ⟨oldest :: dropped, ?_, fun _ => ?_, hmore⟩
      · rw [cons_append, ← heq]
      · by_cases hnone : dropped = []
        · rw [hnone, nil_append] at heq
          rw [← heq]
          exact not_lt.1 hlimit
        · exact hkept hnone

theorem start_offset_eq {retention : Retention} (hspans : spans = dropped ++ kept)
    (hkept : retention.kept spans now_ms = kept) :
    retention.start_offset spans now_ms = dropped.getLast?.map (·.end_offset) := by
  have hlength : spans.length - kept.length = dropped.length := by
    rw [hspans, length_append, Nat.add_sub_cancel]
  rw [start_offset, hkept, hlength]
  cases hdropped : dropped.length with
  | zero =>
    rw [length_eq_zero_iff.1 hdropped]
    rfl
  | succ last =>
    dsimp only
    rw [hspans, getElem?_append_left (by omega), getLast?_eq_getElem?, hdropped,
      Nat.add_sub_cancel]

/-! ## Spans in order -/

theorem le_start_of_kept (hordered : (dropped ++ kept).Pairwise fun a b =>
    a.end_offset ≤ b.start_offset) {last span : ObjectSpan} (hlast : dropped.getLast? = some last)
    (hspan : span ∈ kept) : last.end_offset ≤ span.start_offset :=
  (pairwise_append.1 hordered).2.2 last (mem_of_getLast? hlast) span hspan

theorem end_le_of_dropped (hordered : dropped.Pairwise fun a b => a.end_offset ≤ b.start_offset)
    (hne : ∀ span ∈ dropped, span.start_offset < span.end_offset) {last span : ObjectSpan}
    (hlast : dropped.getLast? = some last) (hspan : span ∈ dropped) :
    span.end_offset ≤ last.end_offset := by
  obtain ⟨init, rfl⟩ := getLast?_eq_some_iff.1 hlast
  rcases mem_append.1 hspan with hinit | hself
  · have hle := (pairwise_append.1 hordered).2.2 span hinit last (mem_singleton_self last)
    exact hle.trans (hne last (mem_of_getLast? hlast)).le
  · rw [mem_singleton.1 hself]

theorem spans_from_none (spans : List ObjectSpan) : spans_from spans none = spans :=
  filter_eq_self.2 fun _ _ => rfl

theorem spans_from_eq (hordered : (dropped ++ kept).Pairwise fun a b =>
    a.end_offset ≤ b.start_offset)
    (hne : ∀ span ∈ dropped, span.start_offset < span.end_offset) :
    spans_from (dropped ++ kept) (dropped.getLast?.map (·.end_offset)) = kept := by
  cases hlast : dropped.getLast? with
  | none =>
    rw [getLast?_eq_none_iff.1 hlast]
    exact spans_from_none kept
  | some last =>
    rw [spans_from, filter_append]
    have hnone : dropped.filter (fun span => (some last.end_offset).all fun start =>
        start ≤ span.start_offset) = [] := by
      refine filter_eq_nil_iff.2 fun span hspan hle => ?_
      have hend := end_le_of_dropped (pairwise_append.1 hordered).1 hne hlast hspan
      have hlt := hne span hspan
      have hle : last.end_offset ≤ span.start_offset := of_decide_eq_true hle
      omega
    have hall : kept.filter (fun span => (some last.end_offset).all fun start =>
        start ≤ span.start_offset) = kept := by
      refine filter_eq_self.2 fun span hspan => ?_
      exact decide_eq_true (le_start_of_kept hordered hlast hspan)
    rw [Option.map_some, hnone, hall, nil_append]

/-! ## The limits -/

/-- Under a time limit, a span that was written within it and holds an offset keeps that offset. -/
theorem le_of_recent {ms start : ℕ}
    (h : Retention.start_offset { ms := some ms } spans now_ms = some start)
    (hordered : spans.Pairwise fun a b => a.end_offset ≤ b.start_offset) {span : ObjectSpan}
    (hspan : span ∈ spans) (hrecent : cutoff now_ms ms ≤ span.last_write_ms) {offset : ℕ}
    (hholds : span.Holds offset) : start ≤ offset := by
  let old : ObjectSpan → Bool := fun span => span.last_write_ms < cutoff now_ms ms
  have hspans : spans = spans.takeWhile old ++ spans.dropWhile old :=
    takeWhile_append_dropWhile.symm
  have hstart := start_offset_eq hspans
    (show Retention.kept { ms := some ms } spans now_ms = spans.dropWhile old from rfl)
  rw [h] at hstart
  obtain ⟨last, hlast, rfl⟩ := Option.map_eq_some_iff.1 hstart.symm
  rw [hspans] at hspan hordered
  rcases mem_append.1 hspan with hdropped | hkept
  · have hold : old span = true := mem_takeWhile_imp hdropped
    exact absurd hrecent (not_le.2 (of_decide_eq_true hold))
  · exact (le_start_of_kept hordered hlast hkept).trans hholds.1

theorem cutoff_le {ms : ℕ} {t : ℤ} (ht : now_ms - min ms (2 ^ 63 - 1) ≤ t) (hrange : -2 ^ 63 ≤ t) :
    cutoff now_ms ms ≤ t :=
  max_le ht hrange

theorem size_spec (hordered : spans.Pairwise fun a b => a.end_offset ≤ b.start_offset)
    (hne : ∀ span ∈ spans, span.start_offset < span.end_offset) {limit : ℕ} {start : Option ℕ}
    (h : Retention.start_offset { bytes := some limit } spans now_ms = start) :
    (start.isSome → limit ≤ total_bytes (spans_from spans start)) ∧
      ∀ oldest rest, spans_from spans start = oldest :: rest → total_bytes rest < limit := by
  obtain ⟨dropped, hspans, henough, hmore⟩ := drop_to_limit_spec limit spans
  have hstart := start_offset_eq hspans
    (show Retention.kept { bytes := some limit } spans now_ms =
      drop_to_limit limit spans (total_bytes spans) from rfl)
  have hkept : spans_from spans start = drop_to_limit limit spans (total_bytes spans) := by
    rw [← h, hstart]
    rw [hspans] at hordered
    conv_lhs => rw [hspans]
    exact spans_from_eq hordered fun span hspan => hne span (hspans ▸ mem_append_left _ hspan)
  rw [hkept]
  refine ⟨fun hsome => henough fun hnil => ?_, hmore⟩
  rw [← h, hstart, hnil] at hsome
  cases hsome

theorem start_offset_of_keeps_all {retention : Retention} {stored_bytes : ℕ}
    (h : retention.keeps_all stored_bytes = true) (hstored : total_bytes spans ≤ stored_bytes) :
    retention.start_offset spans now_ms = none := by
  obtain ⟨ms, bytes⟩ := retention
  obtain ⟨hms, hbytes⟩ := Bool.and_eq_true_iff.1 h
  obtain rfl : ms = none := Option.isNone_iff_eq_none.1 hms
  cases bytes with
  | none => cases hbytes
  | some limit =>
    have hlimit : stored_bytes < limit := of_decide_eq_true hbytes
    have hkept : Retention.kept { bytes := some limit } spans now_ms = spans := by
      show drop_to_limit limit spans (total_bytes spans) = spans
      cases spans with
      | nil => rfl
      | cons oldest rest =>
        rw [drop_to_limit, if_pos]
        omega
    have hnothing : spans = [] ++ spans := rfl
    exact start_offset_eq hnothing hkept

end Retention

/-! ## Runs -/

/-- If compactions only move offsets between live objects that hold an offset each and do not
overlap, retention drops nothing that its limits keep. -/
theorem retention_keeps (noop : ℕ) (log : List MetadataCommand)
    (htimes : ∀ c ∈ log, c.TimeInRange)
    (hcompacts : EachAccepted noop log (CompactsSources noop))
    (hdisjoint : Run.Always (step noop) {} log RangesDisjoint)
    (hlists : EachAccepted noop log fun _ => ListsOffsets noop)
    (n sid : ℕ) (now_ms : ℤ) : RetentionKeeps noop log n sid now_ms := by
  have hs : (history noop log n).Wf := history_wf log n
  have hnonempty := history_nonemptyRows hlists n
  have hordered := object_spans_ordered hs hnonempty (hdisjoint n) sid
  have hinTime := history_inTime hcompacts hlists n
  refine ⟨?_, ?_, ?_⟩
  · intro ms start hstart row offset t hrow hlow hcovered hfirst hrecent
    obtain ⟨w, hw⟩ := hcovered.written hs
    obtain ⟨span, hlive, hholds, rfl⟩ := (exists_live_span_iff hs).2 hw
    have hspan : span ∈ (history noop log n).object_spans sid :=
      (mem_object_spans hrow).2 ⟨hlive, hlow.trans_lt hholds.2⟩
    have htime : -2 ^ 63 ≤ t := by
      obtain ⟨i, -, ⟨p, request, ⟨hget, -⟩, -⟩, -⟩ := hfirst
      exact (htimes _ (List.mem_of_getElem? hget)).1
    have hle := hinTime.in_time sid offset t _ hfirst.appendedBefore hw
    exact Retention.le_of_recent hstart hordered hspan
      ((Retention.cutoff_le hrecent htime).trans hle) hholds
  · intro limit start hstart
    cases hrow : (history noop log n).streams.get sid with
    | none =>
      refine Retention.size_spec hordered (fun span hspan => ?_) hstart
      rw [MetadataState.object_spans, hrow] at hspan
      cases hspan
    | some row =>
      refine Retention.size_spec hordered (fun span hspan => ?_) hstart
      exact hnonempty.live_span hs ((mem_object_spans hrow).1 hspan).1
  · intro retention row hrow hkeeps
    exact Retention.start_offset_of_keeps_all hkeeps (object_spans_bytes_le hs hrow)

instance (s : MetadataState) (id sid offset : ℕ) : Decidable (SetLists s id sid offset) :=
  decidable_of_iff (∃ e ∈ s.sso_ranges.entries, e.1.stream_id = sid ∧ e.1.object_id = id ∧
      e.1.start_offset ≤ offset ∧ offset < e.2.1)
    ⟨fun ⟨⟨⟨_, start, _⟩, slice⟩, he, hsid, hid, hstart, hend⟩ =>
      ⟨start, slice, OrdMap.mem_entries.1 (hsid ▸ hid ▸ he), hstart, hend⟩,
    fun ⟨start, slice, hget, hstart, hend⟩ =>
      ⟨(⟨sid, start, id⟩, slice), OrdMap.mem_entries.2 hget, rfl, rfl, hstart, hend⟩⟩

instance (noop : ℕ) (s : MetadataState) (request : CommitStreamSetObjectRequest) :
    Decidable (CompactsSets noop s request) :=
  inferInstanceAs (Decidable (_ ∧ (_ → _)))

/-- A node with an open stream. -/
def opened_stream : List MetadataCommand :=
  [.registerNode 1 0 "a" 1 .empty "wal", .createStream ⟨1, 0⟩, .openStream ⟨1, 0⟩ 0 1]

/-- A commit of `bytes` bytes of the stream as one stream-set object. -/
def commit_slice (id start_offset end_offset bytes : ℕ) (sources : List ℕ) (now_ms : ℤ) :
    MetadataCommand :=
  .commitStreamSetObject ⟨1, 0⟩
    ⟨id, bytes, 0, [⟨0, 1, start_offset, end_offset, bytes⟩], [], sources⟩ now_ms

/-- Two commits that are compacted, and a third one at an earlier time. -/
def compacted_slices : List MetadataCommand :=
  opened_stream ++ [commit_slice 0 0 8 80 [] 100, commit_slice 1 8 16 80 [] 200,
    commit_slice 2 0 16 160 [0, 1] 300, commit_slice 3 16 24 80 [] 50]

theorem retention_keeps_compacted_slices :
    RetentionKeeps 1000 compacted_slices 7 0 320 ∧
      (history 1000 compacted_slices 7).object_spans 0 = [⟨0, 16, 160, 200⟩, ⟨16, 24, 80, 50⟩] := by
  refine ⟨retention_keeps 1000 compacted_slices ?_ ?_ ?_ ?_ 7 0 320, by decide +kernel⟩
  · intro c hc
    simp only [compacted_slices, opened_stream, commit_slice, List.cons_append, List.nil_append,
      List.mem_cons, List.not_mem_nil, or_false] at hc
    rcases hc with rfl | rfl | rfl | rfl | rfl | rfl | rfl <;> simp [MetadataCommand.TimeInRange]
  · unfold EachAccepted compacted_slices opened_stream commit_slice
    simp only [List.cons_append, List.nil_append, Run.eachStep_cons, Run.eachStep_nil, and_true]
    refine ⟨fun _ => trivial, fun _ => trivial, fun _ => trivial, fun _ => ?_, fun _ => ?_,
      fun _ => ?_, fun _ => ?_⟩ <;> unfold CompactsSources <;> decide +kernel
  · exact Run.always_of_le_length (by decide +kernel)
  · unfold EachAccepted compacted_slices opened_stream commit_slice
    simp only [List.cons_append, List.nil_append, Run.eachStep_cons, Run.eachStep_nil, and_true]
    refine ⟨fun _ => trivial, fun _ => trivial, fun _ => trivial, fun _ => ?_, fun _ => ?_,
      fun _ => ?_, fun _ => ?_⟩ <;> simp [ListsOffsets, CommitStreamSetObjectRequest.ranges,
        CommitStreamSetObjectRequest.slices, ObjectStreamRange.range]

/-- A stream object without offsets is committed before the slice that starts where it does. -/
def empty_object : List MetadataCommand :=
  opened_stream ++ [commit_slice 0 0 5 100 [] 1,
    .commitStreamSetObject ⟨1, 0⟩ ⟨1000, 0, 0, [], [⟨1, 50, 0, 5, 5, 0⟩], []⟩ 2,
    commit_slice 2 5 10 100 [] 3, commit_slice 3 10 15 100 [] 4]

/-- An empty object is counted among what stays, so fewer bytes stay than the limit; and a time
limit past the range of the clock drops an offset within it. -/
theorem empty_object_counted_as_kept :
    EachAccepted 1000 empty_object (CompactsSources 1000) ∧
    Run.Always (step 1000) {} empty_object RangesDisjoint ∧
    Retention.start_offset { bytes := some 150 }
      ((history 1000 empty_object 7).object_spans 0) 5 = some 10 ∧
    Retention.total_bytes (spans_from ((history 1000 empty_object 7).object_spans 0) (some 10)) =
      100 ∧
    (history 1000 (opened_stream ++ [commit_slice 0 0 8 80 [] (-2 ^ 63)]) 4).object_spans 0 =
      [⟨0, 8, 80, -2 ^ 63⟩] ∧
    Retention.start_offset { ms := some (2 ^ 63) } [⟨0, 8, 80, -2 ^ 63⟩] 0 = some 8 := by
  refine ⟨?_, Run.always_of_le_length (by decide +kernel), by decide +kernel, by decide +kernel,
    by decide +kernel, by decide +kernel⟩
  unfold EachAccepted empty_object opened_stream commit_slice
  simp only [List.cons_append, List.nil_append, Run.eachStep_cons, Run.eachStep_nil, and_true]
  refine ⟨fun _ => trivial, fun _ => trivial, fun _ => trivial, fun _ => ?_, fun _ => ?_,
    fun _ => ?_, fun _ => ?_⟩ <;> unfold CompactsSources <;> decide +kernel

end PicoMq.Server
