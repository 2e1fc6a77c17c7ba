import Mathlib.Algebra.Order.BigOperators.Group.List
import PicoMq.Metadata.Proofs.CoverageProofs
import PicoMq.Metadata.Spans

/-!
# Proofs: the latest write of a span

A plain commit lists only offsets past the end of the stream; a compaction gives its outputs the
latest time of its sources.
-/

namespace PicoMq.Metadata

open List MetadataState OrdMap

variable {s s' : MetadataState} {r : MetadataResult} {n now_ms : ℤ} {noop : ℕ}
variable {offset sid : ℕ} {w : ℤ} {log : List MetadataCommand} {c : MetadataCommand}
variable {span : ObjectSpan}

/-! ## The live objects that hold an offset -/

/-- A live object whose latest write is at `w` holds the offset. -/
def WrittenAt (s : MetadataState) (sid offset : ℕ) (w : ℤ) : Prop :=
  (∃ id row, s.stream_set_objects.get id = some row ∧ row.last_write_ms = w ∧
    SetLists s id sid offset) ∨
  ∃ start id row, s.stream_objects.get ⟨sid, start, id⟩ = some row ∧ row.last_write_ms = w ∧
    start ≤ offset ∧ offset < row.range.end_offset

theorem WrittenAt.of_objects (h : WrittenAt s' sid offset w)
    (hsets : s'.stream_set_objects = s.stream_set_objects) (hranges : s'.sso_ranges = s.sso_ranges)
    (hobjects : ∀ key row, s'.stream_objects.get key = some row →
      s.stream_objects.get key = some row) : WrittenAt s sid offset w := by
  rcases h with ⟨id, row, hrow, hw, hlists⟩ | ⟨start, id, row, hrow, hw, hin⟩
  · rw [hsets] at hrow
    refine .inl ⟨id, row, hrow, hw, ?_⟩
    unfold SetLists at hlists ⊢
    rwa [hranges] at hlists
  · exact .inr ⟨start, id, row, hobjects _ _ hrow, hw, hin⟩

theorem SetLists.slice (hs : s.Wf) {id : ℕ} (h : SetLists s id sid offset) :
    ∃ row, s.stream_set_objects.get id = some row ∧
      ∃ slice ∈ row.slices, slice.1.Contains sid offset := by
  obtain ⟨start, v, hget, hstart, hend⟩ := h
  rw [hs.objects.ranges] at hget
  obtain ⟨row, hrow, hat⟩ := Option.bind_eq_some_iff.1 hget
  refine ⟨row, hrow, ?_⟩
  obtain ⟨slice, hfind, rfl⟩ := Option.map_eq_some_iff.1 hat
  have hkey : slice_key id slice = ⟨sid, start, id⟩ := by simpa using find?_some hfind
  have hmem := mem_reverse.1 (mem_of_find?_eq_some hfind)
  simp only [slice_key, StreamOffsetKey.mk.injEq, and_true] at hkey
  exact ⟨slice, hmem, hkey.1, hkey.2.le.trans hstart, hend⟩

theorem Covered.written (hs : s.Wf) (h : Covered s sid offset) : ∃ w, WrittenAt s sid offset w := by
  obtain ⟨id, hset | ⟨start, row, hrow, hin⟩⟩ := h
  · obtain ⟨row, hrow, -⟩ := hset.slice hs
    exact ⟨_, .inl ⟨id, row, hrow, rfl, hset⟩⟩
  · exact ⟨_, .inr ⟨start, id, row, hrow, rfl, hin⟩⟩

theorem WrittenAt.used (hs : s.Wf) (h : WrittenAt s sid offset w) : sid < s.next_stream_id := by
  rcases h with ⟨id, -, -, -, hlists⟩ | ⟨start, id, row, hrow, -⟩
  · obtain ⟨row, hrow, slice, hslice, rfl, -⟩ := hlists.slice hs
    exact hs.fresh_slices id row hrow slice hslice
  · exact hs.fresh_objects _ row hrow

theorem le_latest {writes : List ℤ} (h : w ∈ writes) (now_ms : ℤ) :
    w ≤ writes.max?.getD now_ms := by
  cases hmax : writes.max? with
  | none =>
    rw [max?_eq_none_iff.1 hmax] at h
    cases h
  | some latest => exact (max?_eq_some_iff.1 hmax).2 w h

section Commit

variable {request : CommitStreamSetObjectRequest} {data_time_ms last_write_ms : ℤ}

theorem CommitObjects.written (hs : s.Wf) (hs' : s'.Wf)
    (h : CommitObjects noop s s' n request data_time_ms now_ms last_write_ms)
    (hw : WrittenAt s' sid offset w) :
    WrittenAt s sid offset w ∨
      w = last_write_ms ∧ ∃ range ∈ request.ranges noop, range.Contains sid offset := by
  rcases hw with ⟨id, row, hrow, rfl, hlists⟩ | ⟨start, id, row, hrow, rfl, hstart, hend⟩
  · have hget := h.sets id
    rw [hrow] at hget
    split_ifs at hget with hnew hsource
    · cases hget
      obtain ⟨row', hrow', slice, hslice, hcontains⟩ := hlists.slice hs'
      cases hrow.symm.trans hrow'
      rw [stream_set_object_row_slices] at hslice
      obtain ⟨range, hrange, rfl⟩ := mem_map.1 hslice
      refine .inr ⟨rfl, range.range, mem_append_left _ (mem_map_of_mem ?_), hcontains⟩
      rwa [CommitStreamSetObjectRequest.slices, if_pos hnew.1]
    · refine .inl (.inl ⟨id, row, hget.symm, rfl, ?_⟩)
      obtain ⟨start, v, hv, hin⟩ := hlists
      refine ⟨start, v, ?_, hin⟩
      rw [hs'.objects.ranges] at hv
      rwa [hs.objects.ranges, ← hget, ← hrow]
  · rcases h.listed_cases hrow with ⟨object, hmem, hkey, rfl⟩ | hold
    · refine .inr ⟨rfl, object.range, mem_append_right _ (mem_map_of_mem hmem), ?_⟩
      simp only [StreamObject.key, StreamOffsetKey.mk.injEq] at hkey
      exact ⟨hkey.1, hkey.2.1.le.trans hstart, hend⟩
    · exact .inl (.inr ⟨start, id, row, hold, rfl, hstart, hend⟩)

theorem commit_last_write_nil (now_ms : ℤ) : commit_last_write [] now_ms = now_ms := rfl

theorem le_commit_last_write {ids : List ℕ} {sources : List StreamSetObjectRow}
    (hsources : ids.mapM (compacted_source s) = .ok sources) {id : ℕ} (hid : id ∈ ids)
    {row : StreamSetObjectRow} (hrow : s.stream_set_objects.get id = some row) (now_ms : ℤ) :
    row.last_write_ms ≤ commit_last_write sources now_ms := by
  have hmem : row ∈ sources :=
    mem_of_mapM_ok hsources hid (compacted_source_eq_ok_iff.2 hrow)
  exact le_latest (mem_map_of_mem hmem) now_ms

end Commit

theorem CompactObjects.written {request : CompactStreamObjectRequest} {last_write_ms : ℤ}
    (h : CompactObjects noop s s' request now_ms last_write_ms)
    (hw : WrittenAt s' sid offset w) :
    WrittenAt s sid offset w ∨
      w = last_write_ms ∧ request.object_id ≠ noop ∧
        request.output.range.Contains sid offset := by
  rcases hw with ⟨id, row, hrow, rfl, hlists⟩ | ⟨start, id, row, hrow, rfl, hstart, hend⟩
  · rw [h.sets] at hrow
    refine .inl (.inl ⟨id, row, hrow, rfl, ?_⟩)
    unfold SetLists at hlists ⊢
    rwa [h.ranges] at hlists
  · have hget := h.objects ⟨sid, start, id⟩
    rw [hrow] at hget
    split_ifs at hget with hsource hnew
    · cases hget
      have hkey := hnew.2
      simp only [StreamObject.key, StreamOffsetKey.mk.injEq] at hkey
      exact .inr ⟨rfl, hnew.1, hkey.1.symm, hkey.2.1.ge.trans hstart, hend⟩
    · exact .inl (.inr ⟨start, id, row, hget.symm, rfl, hstart, hend⟩)

theorem le_compacted_last_write (hs : s.Wf) {ids : List ℕ} {key : StreamOffsetKey}
    {row : StreamObjectRow} (hrow : s.stream_objects.get key = some row)
    (hid : key.object_id ∈ ids) (now_ms : ℤ) :
    row.last_write_ms ≤ compacted_last_write s ids now_ms := by
  have hkey : s.stream_object_ids.get key.object_id = some key :=
    (hs.objects.ids key.object_id key).2 ⟨rfl, row, hrow⟩
  refine le_latest (mem_map_of_mem (mem_filterMap.2 ⟨key, ?_, hrow⟩)) now_ms
  exact mem_filterMap.2 ⟨key.object_id, hid, hkey⟩

/-! ## Commit times -/

/-- What `C` says was committed lies below the end of its stream, no live object reaches past it,
and none holds an offset committed later than its latest write. -/
structure InTime (C : ℕ → ℕ → ℤ → Prop) (s : MetadataState) : Prop where
  committed : ∀ sid offset t, C sid offset t → sid < s.next_stream_id ∧
    ∀ row, s.streams.get sid = some row → offset < row.end_offset
  within : ∀ sid offset w, WrittenAt s sid offset w →
    ∀ row, s.streams.get sid = some row → offset < row.end_offset
  in_time : ∀ sid offset t w, C sid offset t → WrittenAt s sid offset w → t ≤ w

variable {C C' : ℕ → ℕ → ℤ → Prop}

/-- The step moves no end and lists an offset only where a live object, not written later, held it.
-/
theorem InTime.of_older (h : InTime C s) (hs : s.Wf) (hnext : s.next_stream_id ≤ s'.next_stream_id)
    (hrows : ∀ sid row', s'.streams.get sid = some row' → s.next_stream_id ≤ sid ∨
      ∃ row, s.streams.get sid = some row ∧ row'.end_offset = row.end_offset)
    (hwritten : ∀ sid offset w, WrittenAt s' sid offset w → ∃ w' ≤ w, WrittenAt s sid offset w') :
    InTime C s' := by
  have hbelow : ∀ sid offset, sid < s.next_stream_id →
      (∀ row, s.streams.get sid = some row → offset < row.end_offset) →
      ∀ row', s'.streams.get sid = some row' → offset < row'.end_offset := by
    intro sid offset hused hold row' hrow'
    rcases hrows sid row' hrow' with hfresh | ⟨row, hrow, hend⟩
    · exact absurd hused (not_lt.2 hfresh)
    · rw [hend]
      exact hold row hrow
  constructor
  · intro sid offset t hC
    obtain ⟨hused, hold⟩ := h.committed sid offset t hC
    exact ⟨hused.trans_le hnext, hbelow sid offset hused hold⟩
  · intro sid offset w hw
    obtain ⟨w', -, hw'⟩ := hwritten sid offset w hw
    exact hbelow sid offset (hw'.used hs) (h.within sid offset w' hw')
  · intro sid offset t w hC hw
    obtain ⟨w', hle, hw'⟩ := hwritten sid offset w hw
    exact (h.in_time sid offset t w' hC hw').trans hle

theorem InTime.mono (h : InTime C s) (hC : ∀ sid offset t, C' sid offset t → C sid offset t) :
    InTime C' s :=
  ⟨fun sid offset t hC' => h.committed sid offset t (hC _ _ _ hC'), h.within,
    fun sid offset t w hC' => h.in_time sid offset t w (hC _ _ _ hC')⟩

theorem isSome_appended_of_mem (ends : ℕ → Option ℕ) {ranges : List StreamOffsetRange}
    {range : StreamOffsetRange} (hrange : range ∈ ranges) :
    (appended ends ranges range.stream_id).isSome := by
  have hfind : (ranges.reverse.find? fun r => r.stream_id = range.stream_id).isSome :=
    find?_isSome.2 ⟨range, mem_reverse.2 hrange, decide_eq_true rfl⟩
  rw [appended_apply, Option.isSome_or, last_end, Option.isSome_map, hfind, Bool.true_or]

theorem exists_of_end_of {e : ℕ} (h : end_of s sid = some e) :
    ∃ row, s.streams.get sid = some row ∧ row.end_offset = e :=
  Option.map_eq_some_iff.1 h

theorem row_of_ends_eq (h : end_of s' = end_of s) {row' : StreamRow}
    (hrow' : s'.streams.get sid = some row') :
    ∃ row, s.streams.get sid = some row ∧ row'.end_offset = row.end_offset := by
  have hend : end_of s sid = some row'.end_offset := by
    rw [← h, end_of, hrow']
    rfl
  obtain ⟨row, hrow, heq⟩ := exists_of_end_of hend
  exact ⟨row, hrow, heq.symm⟩

section Commit

variable {request : CommitStreamSetObjectRequest}

theorem InTime.plain_commit (h : InTime C s) (hs : s.Wf) (hs' : s'.Wf)
    (hok : commit_stream_set_object noop s n request now_ms = .ok (s', r))
    (hplain : request.compacted_object_ids = [])
    (hne : ∀ range ∈ request.ranges noop, range.start_offset < range.end_offset)
    (hC : ∀ sid offset t, C' sid offset t → C sid offset t ∨
      t = now_ms ∧ ∃ range ∈ request.ranges noop, range.Contains sid offset) :
    InTime C' s' := by
  obtain ⟨sources, hsources, heffect⟩ := commit_objects_of_sources hs hok
  have hnext : s'.next_stream_id = s.next_stream_id := by
    rw [commit_stream_set_object_cluster hok]
  obtain rfl : sources = [] := by
    rw [hplain] at hsources
    cases hsources
    rfl
  rw [commit_last_write_nil] at heffect
  have htake := commit_takesIn hs hok
  rw [hplain] at htake
  have hfits : Appends (end_of s) (request.ranges noop) := htake.fits_self
  have hends : end_of s' = appended (end_of s) (request.ranges noop) := htake.end_of_eq
  have hrows := (commit_stream_set_object_endOnly hs hok).offsets
  -- an end never moves back, and the new offsets lie between the two ends
  have hend : ∀ sid row', s'.streams.get sid = some row' → ∃ row, s.streams.get sid = some row ∧
      row.end_offset ≤ row'.end_offset ∧
      ∀ offset, (∃ range ∈ request.ranges noop, range.Contains sid offset) →
        row.end_offset ≤ offset ∧ offset < row'.end_offset := by
    intro sid row' hrow'
    obtain ⟨row, hrow, -⟩ := hrows sid row' hrow'
    have he : end_of s sid = some row.end_offset := by rw [end_of, hrow]; rfl
    have he' : appended (end_of s) (request.ranges noop) sid = some row'.end_offset := by
      rw [← hends, end_of, hrow']
      rfl
    obtain ⟨hle, hiff⟩ := appended_spec hfits (fun range hrange => (hne range hrange).le) he he'
    exact ⟨row, hrow, hle, fun offset => (hiff offset).2⟩
  have hrow_of : ∀ {sid offset : ℕ}, (∃ range ∈ request.ranges noop,
      range.Contains sid offset) → ∃ row, s'.streams.get sid = some row := by
    rintro sid offset ⟨range, hrange, rfl, -⟩
    have hsome : (end_of s' range.stream_id).isSome := by
      rw [hends]
      exact isSome_appended_of_mem _ hrange
    obtain ⟨e, he⟩ := Option.isSome_iff_exists.1 hsome
    obtain ⟨row, hrow, -⟩ := exists_of_end_of he
    exact ⟨row, hrow⟩
  constructor
  · intro sid offset t hC'
    rcases hC sid offset t hC' with hold | ⟨-, hnew⟩
    · obtain ⟨hused, hbelow⟩ := h.committed sid offset t hold
      refine ⟨hused.trans_eq hnext.symm, fun row' hrow' => ?_⟩
      obtain ⟨row, hrow, hle, -⟩ := hend sid row' hrow'
      exact (hbelow row hrow).trans_le hle
    · obtain ⟨row, hrow⟩ := hrow_of hnew
      refine ⟨hs'.fresh_streams sid row hrow, fun row' hrow' => ?_⟩
      obtain ⟨_, -, -, hbetween⟩ := hend sid row' hrow'
      exact (hbetween offset hnew).2
  · intro sid offset w hw row' hrow'
    obtain ⟨row, hrow, hle, hbetween⟩ := hend sid row' hrow'
    rcases heffect.written hs hs' hw with hold | ⟨-, hnew⟩
    · exact (h.within sid offset w hold row hrow).trans_le hle
    · exact (hbetween offset hnew).2
  · intro sid offset t w hC' hw
    rcases hC sid offset t hC' with hold | ⟨rfl, hnew⟩ <;>
      rcases heffect.written hs hs' hw with hw | ⟨rfl, hlisted⟩
    · exact h.in_time sid offset t w hold hw
    · obtain ⟨row', hrow'⟩ := hrow_of hlisted
      obtain ⟨row, hrow, -, hbetween⟩ := hend sid row' hrow'
      have hlt := (h.committed sid offset t hold).2 row hrow
      exact absurd (hbetween offset hlisted).1 (not_le.2 hlt)
    · obtain ⟨row', hrow'⟩ := hrow_of hnew
      obtain ⟨row, hrow, -, hbetween⟩ := hend sid row' hrow'
      have hlt := h.within sid offset w hw row hrow
      exact absurd (hbetween offset hnew).1 (not_le.2 hlt)
    · exact le_refl _

theorem InTime.compacting_commit (h : InTime C s) (hs : s.Wf) (hs' : s'.Wf)
    (hok : commit_stream_set_object noop s n request now_ms = .ok (s', r))
    (hcompact : request.compacted_object_ids ≠ [])
    (hsources : ∀ range ∈ request.ranges noop, ∀ offset < range.end_offset,
      range.start_offset ≤ offset →
        ∃ id ∈ request.compacted_object_ids, SetLists s id range.stream_id offset) :
    InTime C s' := by
  obtain ⟨sources, hmap, heffect⟩ := commit_objects_of_sources hs hok
  have hends : end_of s' = end_of s := by
    have htake := commit_takesIn hs hok
    rw [show (!request.compacted_object_ids.isEmpty) = true by simpa using hcompact] at htake
    exact htake.end_of_eq
  refine h.of_older hs (le_of_eq (by rw [commit_stream_set_object_cluster hok]))
    (fun sid row' hrow' => .inr (row_of_ends_eq hends hrow')) fun sid offset w hw => ?_
  rcases heffect.written hs hs' hw with hold | ⟨rfl, range, hrange, rfl, hstart, hend⟩
  · exact ⟨w, le_refl w, hold⟩
  · obtain ⟨id, hid, hlists⟩ := hsources range hrange offset hend hstart
    obtain ⟨row, hrow, -⟩ := hlists.slice hs
    exact ⟨row.last_write_ms, le_commit_last_write hmap hid hrow now_ms,
      .inl ⟨id, row, hrow, rfl, hlists⟩⟩

end Commit

theorem InTime.compaction (h : InTime C s) (hs : s.Wf) {request : CompactStreamObjectRequest}
    (hok : compact_stream_object noop s request now_ms = .ok (s', r))
    (hsources : request.object_id ≠ noop → ∀ offset < request.end_offset,
      request.start_offset ≤ offset →
        ∃ id ∈ request.source_object_ids, ObjectLists s id request.stream_id offset) :
    InTime C s' := by
  have heffect := compact_objects_of_sources hs hok
  refine h.of_older hs (le_of_eq (by rw [compact_stream_object_cluster hok]))
    (fun sid row' hrow' => .inr (row_of_ends_eq heffect.ends hrow')) fun sid offset w hw => ?_
  rcases heffect.written hw with hold | ⟨rfl, hne, rfl, hstart, hend⟩
  · exact ⟨w, le_refl w, hold⟩
  · obtain ⟨id, hid, start, row, hrow, hin⟩ := hsources hne offset hend hstart
    exact ⟨row.last_write_ms, le_compacted_last_write hs hrow hid now_ms,
      .inr ⟨start, id, row, hrow, rfl, hin⟩⟩

/-! ## Runs -/

/-- Some of the first `n` commands appends the offset at time `t`. -/
def AppendedBefore (noop : ℕ) (log : List MetadataCommand) (n sid offset : ℕ) (t : ℤ) :
    Prop :=
  ∃ i < n, AppendedAt noop log i sid offset t

theorem FirstCommitted.appendedBefore {n : ℕ} {t : ℤ}
    (h : FirstCommitted noop log n sid offset t) :
    AppendedBefore noop log n sid offset t := by
  obtain ⟨i, hi, happended, -⟩ := h
  exact ⟨i, hi, happended⟩

theorem AppendedBefore.succ {n : ℕ} {t : ℤ}
    (h : AppendedBefore noop log (n + 1) sid offset t) :
    AppendedBefore noop log n sid offset t ∨
      AppendedAt noop log n sid offset t := by
  obtain ⟨i, hi, happended⟩ := h
  rcases Nat.lt_succ_iff_lt_or_eq.1 hi with hi | rfl
  · exact .inl ⟨i, hi, happended⟩
  · exact .inr happended

theorem InTime.other_step (h : InTime C s) (hs : s.Wf)
    (hstep : ObjectStep noop s (step noop s c) c)
    (hc : ¬c.IsObjectCommand) : InTime C (step noop s c) := by
  refine h.of_older hs (step_next_stream_id_le _ s c) (fun sid row' hrow' => ?_)
    fun sid offset w hw => ⟨w, le_refl w, ?_⟩
  · have hrow := step_rowStep noop hs c sid
    rw [StreamTables.control_eq_some hrow'] at hrow
    cases hcontrol : s.toStreamTables.control sid with
    | none =>
      rw [hcontrol] at hrow
      generalize row'.control = control' at hrow
      cases hrow with
      | created _ hfresh => exact .inl hfresh
    | some control =>
      obtain ⟨row, hget, rfl⟩ := StreamTables.exists_of_control hcontrol
      rw [hcontrol] at hrow
      rcases hrow.endsKept (by rintro p request now_ms rfl; exact hc trivial) with
        ⟨hnone, -⟩ | ⟨old, hold, -, hend, -⟩
      · cases hnone
      · cases hold
        exact .inr ⟨row, hget, hend⟩
  · cases hstep with
    | same _ hobjects =>
      exact hw.of_objects (by rw [hobjects]) (by rw [hobjects]) fun key row hrow => by
        rwa [hobjects] at hrow
    | destroyed _ keys hsets hranges hobjects =>
      refine hw.of_objects hsets hranges fun key row hrow => ?_
      rw [hobjects] at hrow
      split_ifs at hrow
      exact hrow
    | committed => exact absurd trivial hc
    | compacted => exact absurd trivial hc

section

variable (hcompacts : EachAccepted noop log (CompactsSources noop))
include hcompacts

section

variable (hlists : EachAccepted noop log fun _ => ListsOffsets noop)
include hlists

theorem inTime_succ {i : ℕ} (hc : log[i]? = some c)
    (h : InTime (AppendedBefore noop log i) (history noop log i)) :
    InTime (AppendedBefore noop log (i + 1)) (history noop log (i + 1)) := by
  have hs : (history noop log i).Wf := history_wf log i
  have hs' : (history noop log (i + 1)).Wf := history_wf log (i + 1)
  have hnext : history noop log (i + 1) =
      step noop (history noop log i) c := Run.after_succ hc
  have hnew : ∀ sid offset t, AppendedBefore noop log (i + 1) sid offset t →
      AppendedBefore noop log i sid offset t ∨ ∃ p request,
        (∃ r, (apply noop (history noop log i) c).2 = .ok r) ∧
        c = .commitStreamSetObject p request t ∧ request.compacted_object_ids = [] ∧
        ∃ range ∈ request.ranges noop, range.Contains sid offset := by
    intro sid offset t happended
    refine happended.succ.imp_right ?_
    rintro ⟨p, request, ⟨hget, hacc⟩, hplain, hcontains⟩
    cases hc.symm.trans hget
    exact ⟨p, request, hacc, rfl, hplain, hcontains⟩
  by_cases hacc : ∃ r, (apply noop (history noop log i) c).2 = .ok r
  · have hcompacts := hcompacts i c hc hacc
    have hlists := hlists i c hc hacc
    obtain ⟨r, hr⟩ := hacc
    have hd := (apply_ok hr).2
    have hstep := (dispatch_effect hd).objectStep hs
    rw [hnext] at hs' ⊢
    have hother : ¬c.IsObjectCommand → InTime (AppendedBefore noop log (i + 1))
        (step noop (history noop log i) c) := by
      intro hno
      refine (h.other_step hs hstep hno).mono fun sid offset t happended => ?_
      rcases hnew sid offset t happended with hold | ⟨p, request, -, rfl, -⟩
      · exact hold
      · exact absurd trivial hno
    cases c with
    | commitStreamSetObject p request now_ms =>
      by_cases hplain : request.compacted_object_ids = []
      · refine h.plain_commit hs hs' hd hplain hlists fun sid offset t happended => ?_
        rcases hnew sid offset t happended with hold | ⟨p, request, -, heq, -, hcontains⟩
        · exact .inl hold
        · cases heq
          exact .inr ⟨rfl, hcontains⟩
      · refine (h.compacting_commit hs hs' hd hplain (hcompacts.2 hplain)).mono
          fun sid offset t happended => ?_
        rcases hnew sid offset t happended with hold | ⟨p, request, -, heq, hnone, -⟩
        · exact hold
        · cases heq
          exact absurd hnone hplain
    | compactStreamObject p request now_ms =>
      refine (h.compaction hs hd hcompacts.2).mono fun sid offset t happended => ?_
      rcases hnew sid offset t happended with hold | ⟨p, request, -, heq, -⟩
      · exact hold
      · cases heq
    | _ => exact hother id
  · rw [hnext, step_of_refused hacc]
    refine h.mono fun sid offset t happended => ?_
    rcases hnew sid offset t happended with hold | ⟨p, request, hacc', -⟩
    · exact hold
    · exact absurd hacc' hacc

/-- If compactions only move offsets, no live object holds an offset committed after its latest
write. -/
theorem history_inTime (i : ℕ) :
    InTime (AppendedBefore noop log i) (history noop log i) := by
  induction i with
  | zero =>
    refine ⟨?_, ?_, ?_⟩
    · rintro sid offset t ⟨i, hi, -⟩
      cases hi
    · intro sid offset w _ row hrow
      cases hrow
    · rintro sid offset t w ⟨i, hi, -⟩
      cases hi
  | succ i ih =>
    cases hc : log[i]? with
    | some c => exact inTime_succ hcompacts hlists hc ih
    | none =>
      rw [show history noop log (i + 1) = history noop log i from
        Run.after_succ_of_none hc]
      refine ih.mono fun sid offset t happended => ?_
      rcases happended.succ with hold | ⟨p, request, ⟨hget, -⟩, -⟩
      · exact hold
      · rw [hc] at hget
        cases hget

end

end

/-! ## Live spans -/

/-- Every range of a live object holds an offset. -/
structure NonemptyRows (s : MetadataState) : Prop where
  slices : ∀ id row, s.stream_set_objects.get id = some row →
    ∀ slice ∈ row.slices, slice.1.start_offset < slice.1.end_offset
  objects : ∀ key row, s.stream_objects.get key = some row →
    row.range.start_offset < row.range.end_offset

theorem NonemptyRows.step (h : NonemptyRows s) (hs : s.Wf)
    (hlists : (∃ r, (apply noop s c).2 = .ok r) → ListsOffsets noop c) :
    NonemptyRows (step noop s c) := by
  by_cases hacc : ∃ r, (apply noop s c).2 = .ok r
  · have hlists := hlists hacc
    obtain ⟨r, hr⟩ := hacc
    cases (dispatch_effect (apply_ok hr).2).objectStep hs with
    | same _ hobjects =>
      refine ⟨fun id row hrow => h.slices id row ?_, fun key row hrow => h.objects key row ?_⟩
      · rw [← hobjects]
        exact hrow
      · rw [← hobjects]
        exact hrow
    | destroyed _ keys hsets _ hobjects =>
      refine ⟨fun id row hrow => h.slices id row ?_, fun key row hrow => h.objects key row ?_⟩
      · rw [← hsets]
        exact hrow
      · have hget := hobjects key
        split_ifs at hget
        · cases hrow.symm.trans hget
        · exact hget.symm.trans hrow
    | committed p request now_ms hok =>
      obtain ⟨data_time_ms, last_write_ms, heffect⟩ := commit_objects hs hok
      refine ⟨fun id row hrow slice hslice => ?_, fun key row hrow => ?_⟩
      · have hget := (heffect.sets id).symm.trans hrow
        split_ifs at hget with hnew hsource
        · cases hget
          rw [stream_set_object_row_slices] at hslice
          obtain ⟨range, hrange, rfl⟩ := mem_map.1 hslice
          refine hlists range.range (mem_append_left _ (mem_map_of_mem ?_))
          rwa [CommitStreamSetObjectRequest.slices, if_pos hnew.1]
        · exact h.slices id row hget slice hslice
      · rcases heffect.listed_cases hrow with ⟨object, hmem, -, rfl⟩ | hold
        · exact hlists object.range (mem_append_right _ (mem_map_of_mem hmem))
        · exact h.objects key row hold
    | compacted p request now_ms hok =>
      have heffect := compact_objects_of_sources hs hok
      refine ⟨fun id row hrow => h.slices id row ?_, fun key row hrow => ?_⟩
      · rw [← heffect.sets]
        exact hrow
      · have hget := (heffect.objects key).symm.trans hrow
        split_ifs at hget with hsource hnew
        · cases hget
          exact hlists hnew.1
        · exact h.objects key row hget
  · rw [step_of_refused hacc]
    exact h

theorem history_nonemptyRows
    (hlists : EachAccepted noop log fun _ => ListsOffsets noop) (i : ℕ) :
    NonemptyRows (history noop log i) :=
  Run.after_of_le (P := NonemptyRows) (Nat.zero_le i) ⟨by simp, by simp⟩
    fun k c _ _ hc h => h.step (history_wf log k) (hlists k c hc)

theorem mem_slice_spans :
    span ∈ s.slice_spans sid ↔ ∃ start id v, s.sso_ranges.get ⟨sid, start, id⟩ = some v ∧
      span = ⟨start, v.1, v.2, (s.stream_set_objects.get id).elim 0 (·.last_write_ms)⟩ := by
  unfold slice_spans
  rw [mem_map]
  constructor
  · rintro ⟨⟨⟨_, start, id⟩, v⟩, he, rfl⟩
    obtain ⟨hget, hsid⟩ := mem_scan.1 he
    obtain rfl := of_decide_eq_true hsid
    exact ⟨start, id, v, hget, rfl⟩
  · rintro ⟨start, id, v, hget, rfl⟩
    exact ⟨(⟨sid, start, id⟩, v), mem_scan.2 ⟨hget, decide_eq_true rfl⟩, rfl⟩

theorem mem_live_spans (hs : s.Wf) :
    span ∈ s.live_spans sid ↔ span ∈ s.slice_spans sid ∨
      ∃ start id row, s.stream_objects.get ⟨sid, start, id⟩ = some row ∧
        span = stream_object_span row ∧ row.range.start_offset = start := by
  unfold live_spans stream_objects_of
  rw [mem_append, mem_map]
  refine or_congr_right ⟨?_, ?_⟩
  · rintro ⟨⟨⟨_, start, id⟩, row⟩, he, rfl⟩
    obtain ⟨hget, hsid⟩ := mem_scan.1 he
    obtain rfl := of_decide_eq_true hsid
    exact ⟨start, id, row, hget, rfl, congrArg (·.start_offset) (hs.objects.keyed _ row hget)⟩
  · rintro ⟨start, id, row, hget, rfl, -⟩
    exact ⟨(⟨sid, start, id⟩, row), mem_scan.2 ⟨hget, decide_eq_true rfl⟩, rfl⟩

theorem exists_live_span_iff (hs : s.Wf) :
    (∃ span ∈ s.live_spans sid, span.Holds offset ∧ span.last_write_ms = w) ↔
      WrittenAt s sid offset w := by
  constructor
  · rintro ⟨span, hspan, hholds, rfl⟩
    rcases (mem_live_spans hs).1 hspan with hslice | ⟨start, id, row, hget, rfl, rfl⟩
    · obtain ⟨start, id, v, hget, rfl⟩ := mem_slice_spans.1 hslice
      have hlists : SetLists s id sid offset := ⟨start, v, hget, hholds⟩
      obtain ⟨row, hrow, -⟩ := hlists.slice hs
      refine .inl ⟨id, row, hrow, ?_, hlists⟩
      rw [hrow]
      rfl
    · exact .inr ⟨_, id, row, hget, rfl, hholds⟩
  · rintro (⟨id, row, hrow, rfl, start, v, hget, hin⟩ | ⟨start, id, row, hget, rfl, hin⟩)
    · refine ⟨_, (mem_live_spans hs).2 (.inl (mem_slice_spans.2 ⟨start, id, v, hget, rfl⟩)), hin, ?_⟩
      rw [hrow]
      rfl
    · have hstart : row.range.start_offset = start :=
        congrArg (·.start_offset) (hs.objects.keyed _ row hget)
      refine ⟨_, (mem_live_spans hs).2 (.inr ⟨start, id, row, hget, rfl, hstart⟩), ?_, rfl⟩
      exact ⟨hstart.le.trans hin.1, hin.2⟩

theorem NonemptyRows.live_span (h : NonemptyRows s) (hs : s.Wf)
    (hspan : span ∈ s.live_spans sid) : span.start_offset < span.end_offset := by
  rcases (mem_live_spans hs).1 hspan with hslice | ⟨start, id, row, hget, rfl, -⟩
  · obtain ⟨start, id, v, hget, rfl⟩ := mem_slice_spans.1 hslice
    rw [hs.objects.ranges] at hget
    obtain ⟨row, hrow, hat⟩ := Option.bind_eq_some_iff.1 hget
    obtain ⟨slice, hfind, rfl⟩ := Option.map_eq_some_iff.1 hat
    have hkey : slice_key id slice = ⟨sid, start, id⟩ := by simpa using find?_some hfind
    have hstart : slice.1.start_offset = start := congrArg (·.start_offset) hkey
    rw [← hstart]
    exact h.slices id row hrow slice (mem_reverse.1 (mem_of_find?_eq_some hfind))
  · exact h.objects _ row hget

theorem mem_object_spans {row : StreamRow} (hrow : s.streams.get sid = some row) :
    span ∈ s.object_spans sid ↔ span ∈ s.live_spans sid ∧ row.start_offset < span.end_offset := by
  unfold object_spans
  rw [hrow]
  dsimp only
  rw [mem_insertionSort, mem_filter, decide_eq_true_iff]

/-- Nonempty disjoint ranges in the order of their starts are in order as a whole. -/
theorem object_spans_ordered (hs : s.Wf) (hnonempty : NonemptyRows s) (hdisjoint : RangesDisjoint s)
    (sid : ℕ) : (s.object_spans sid).Pairwise fun a b => a.end_offset ≤ b.start_offset := by
  unfold object_spans
  cases hrow : s.streams.get sid with
  | none => exact List.Pairwise.nil
  | some row =>
    dsimp only
    generalize hfilter : ((s.live_spans sid).filter fun span =>
      row.start_offset < span.end_offset) = spans
    have hperm := perm_insertionSort
      (fun a b : ObjectSpan => a.start_offset ≤ b.start_offset) spans
    have hsorted := pairwise_insertionSort
      (fun a b : ObjectSpan => a.start_offset ≤ b.start_offset) spans
    have hapart : spans.Pairwise ObjectSpan.Disjoint := by
      have hlive : (s.live_spans sid).Pairwise ObjectSpan.Disjoint :=
        hdisjoint sid (mem_keys.2 ⟨row, hrow⟩)
      rw [← hfilter]
      exact hlive.sublist filter_sublist
    have hne : ∀ span ∈ spans, span.start_offset < span.end_offset := by
      intro span hspan
      rw [← hfilter] at hspan
      exact hnonempty.live_span hs (mem_filter.1 hspan).1
    have hsymm : ∀ {a b : ObjectSpan}, a.Disjoint b → b.Disjoint a := by
      intro a b hab
      unfold ObjectSpan.Disjoint at hab ⊢
      rwa [min_comm, max_comm]
    have hboth := ((hperm.pairwise_iff hsymm).2 hapart).and hsorted
    refine hboth.imp_of_mem fun {a b} _ hb hab => ?_
    obtain ⟨hdisj, hle⟩ := hab
    have hlt := hne b (hperm.mem_iff.1 hb)
    unfold ObjectSpan.Disjoint at hdisj
    omega

/-! ## Bytes -/

theorem slice_spans_bytes (s : MetadataState) (sid : ℕ) :
    ((s.slice_spans sid).map ObjectSpan.bytes).sum =
      s.sso_ranges.sumBy fun key v => if key.stream_id = sid then v.2 else 0 := by
  unfold slice_spans
  rw [map_map, sum_scan]
  exact sumBy_congr fun key v _ => by simp

theorem slice_spans_bytes_le (hs : s.Wf) (sid : ℕ) :
    ((s.slice_spans sid).map ObjectSpan.bytes).sum ≤
      s.stream_set_objects.sumBy fun _ row => slice_bytes row.slices sid := by
  rw [slice_spans_bytes, (derived_of_wf hs).sso_ranges, derived_ranges]
  refine (sumBy_ofList_le _ _).trans (le_of_eq ?_)
  rw [map_flatMap, OrdMap.sumBy, flatMap_def, sum_flatten, map_map]
  congr 1
  refine map_congr_left fun e _ => ?_
  rw [Function.comp_apply, map_map, slice_bytes]
  rfl

theorem object_spans_bytes_le (hs : s.Wf) {row : StreamRow}
    (hrow : s.streams.get sid = some row) :
    ((s.object_spans sid).map ObjectSpan.bytes).sum ≤ row.stored_bytes := by
  have hlive : ((s.live_spans sid).map ObjectSpan.bytes).sum ≤ row.stored_bytes := by
    rw [hs.stream_bytes sid row hrow, live_spans, map_append, sum_append]
    refine Nat.add_le_add (slice_spans_bytes_le hs sid) (le_of_eq ?_)
    rw [map_map, stream_objects_of, sum_scan]
    exact sumBy_congr fun key v _ => by simp [stream_object_span]
  unfold object_spans
  rw [hrow]
  dsimp only
  rw [((perm_insertionSort _ _).map ObjectSpan.bytes).sum_eq]
  exact ((filter_sublist.map _).sum_le_sum fun _ _ => Nat.zero_le _).trans hlive

end PicoMq.Metadata
