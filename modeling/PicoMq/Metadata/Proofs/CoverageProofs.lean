import Mathlib.Data.List.Pairwise
import PicoMq.Metadata.Proofs.ObjectProofs

/-!
# Proofs: every offset of a stream is in a live object

A plain commit lists the offsets it appends, a compaction lists again what it drops, and a trim
drops only what lies below the new start.
-/

namespace PicoMq.Metadata

open List MetadataState Option StreamTables

variable {s s' : MetadataState} {r : MetadataResult} {n now_ms : ℤ} {noop : ℕ}
variable {offset sid : ℕ} {c : MetadataCommand} {row row' : StreamRow}

/-! ## Rows -/

theorem EndOnly.offsets (h : EndOnly s s') (sid : ℕ) (row' : StreamRow)
    (hrow' : s'.streams.get sid = some row') :
    ∃ row, s.streams.get sid = some row ∧ row'.start_offset = row.start_offset := by
  have hcontrol := control_eq_some hrow'
  rcases h sid with hsame | ⟨control, end_offset, hold, hend⟩
  · rw [hsame] at hcontrol
    obtain ⟨row, hrow, heq⟩ := exists_of_control hcontrol
    exact ⟨row, hrow, congrArg (·.start_offset) heq.symm⟩
  · rw [hend] at hcontrol
    obtain ⟨row, hrow, rfl⟩ := exists_of_control hold
    exact ⟨row, hrow, congrArg (·.start_offset) (some.inj hcontrol).symm⟩

/-- A row is new and empty, or comes from one with the same end and a start no higher. -/
def EndsKept (o : Option StreamRow) (row' : StreamRow) : Prop :=
  (o = none ∧ row'.start_offset = row'.end_offset) ∨
  ∃ row, o = some row ∧ row.start_offset ≤ row'.start_offset ∧
    row'.end_offset = row.end_offset ∧
    (row.start_offset ≤ row.end_offset → row'.start_offset ≤ row'.end_offset)

theorem RowStep.endsKept {o : Option StreamRow}
    (h : RowStep s sid c o (some row'))
    (hc : ∀ p request now_ms, c ≠ .commitStreamSetObject p request now_ms) : EndsKept o row' := by
  cases h with
  | created => exact .inl ⟨rfl, rfl⟩
  | trimmed p offset row hstart hend => exact .inr ⟨row, rfl, hstart, rfl, fun _ => hend⟩
  | advanced p request now_ms => exact absurd rfl (hc p request now_ms)
  | same | placed | opened | closed | transferred => exact .inr ⟨_, rfl, le_rfl, rfl, id⟩

theorem readable_of_rowStep (h : Readable s)
    (hrows : ∀ sid, RowStep s sid c (s.toStreamTables.control sid)
      (s'.toStreamTables.control sid))
    (hc : ∀ p request now_ms, c ≠ .commitStreamSetObject p request now_ms)
    (hkeeps : ∀ sid row row' offset, s.streams.get sid = some row →
      s'.streams.get sid = some row' → row.start_offset ≤ offset → row'.start_offset ≤ offset →
      Covered s sid offset → Covered s' sid offset) : Readable s' ∧ Grows s s' := by
  have hends : ∀ sid row', s'.streams.get sid = some row' →
      EndsKept (s.toStreamTables.control sid) row' := fun sid row' hrow' => by
    have hstep := hrows sid
    rw [control_eq_some hrow'] at hstep
    have hkept := hstep.endsKept hc
    exact hkept
  constructor
  · intro sid row' hrow'
    rcases hends sid row' hrow' with ⟨-, hempty⟩ | ⟨control, hcontrol, hstart, hend, hle⟩
    · exact ⟨hempty.le, fun offset h1 h2 => by omega⟩
    · obtain ⟨row, hrow, rfl⟩ := exists_of_control hcontrol
      obtain ⟨hordered, hcover⟩ := h sid row hrow
      refine ⟨hle hordered, fun offset h1 h2 => ?_⟩
      have hlow : row.start_offset ≤ offset := hstart.trans h1
      exact hkeeps sid row row' offset hrow hrow' hlow h1 (hcover offset hlow (hend ▸ h2))
  · intro sid row row' hrow hrow'
    have hkept := hends sid row' hrow'
    rw [control_eq_some hrow] at hkept
    rcases hkept with ⟨hnone, -⟩ | ⟨control, hcontrol, hstart, hend, -⟩
    · cases hnone
    · cases hcontrol
      exact ⟨hstart, hend.ge⟩

/-! ## Commits -/

section Commit

variable {request : CommitStreamSetObjectRequest} {data_time_ms last_write_ms : ℤ}

/-- Nonempty disjoint pieces of one object and stream that start at the same offset are one. -/
theorem eq_of_piecesDisjoint {α : Type} {f : α → ℕ × StreamOffsetRange} {l : List α}
    (hdisjoint : (l.map f).Pairwise PiecesDisjoint)
    (hne : ∀ a ∈ l, (f a).2.start_offset < (f a).2.end_offset) {a b : α} (ha : a ∈ l) (hb : b ∈ l)
    (hid : (f a).1 = (f b).1) (hstream : (f a).2.stream_id = (f b).2.stream_id)
    (hstart : (f a).2.start_offset = (f b).2.start_offset) : a = b := by
  have : Std.Symm fun a b => PiecesDisjoint (f a) (f b) :=
    ⟨fun a b h hid hstream => (h hid.symm hstream.symm).symm⟩
  by_contra hab
  have hor := (pairwise_map.1 hdisjoint).forall ha hb hab hid hstream
  have h1 := hne a ha
  have h2 := hne b hb
  omega

theorem CommitGuarantee.slice_unique (h : CommitGuarantee noop s request)
    {a b : ObjectStreamRange} (ha : a ∈ request.slices noop)
    (hb : b ∈ request.slices noop) (hstream : a.stream_id = b.stream_id)
    (hstart : a.start_offset = b.start_offset) : a = b :=
  eq_of_piecesDisjoint (pairwise_append.1 h.disjoint).1
    (fun c hc => h.nonempty c.range (mem_append_left _ (mem_map_of_mem hc)))
    ha hb rfl hstream hstart

theorem CommitGuarantee.object_unique (h : CommitGuarantee noop s request)
    {a b : StreamObject} (ha : a ∈ request.stream_objects) (hb : b ∈ request.stream_objects)
    (hkey : a.key = b.key) : a = b := by
  simp only [StreamObject.key, StreamOffsetKey.mk.injEq] at hkey
  exact eq_of_piecesDisjoint (pairwise_append.1 h.disjoint).2.1
    (fun c hc => h.nonempty c.range (mem_append_right _ (mem_map_of_mem hc)))
    ha hb hkey.2.2 hkey.1 hkey.2.1

theorem commit_lists (hs' : s'.Wf) (hguarantee : CommitGuarantee noop s request)
    (heffect : CommitObjects noop s s' n request data_time_ms now_ms last_write_ms)
    {range : StreamOffsetRange} (hrange : range ∈ request.ranges noop)
    (hcontains : range.Contains sid offset) : Covered s' sid offset := by
  obtain ⟨rfl, hstart, hend⟩ := hcontains
  rcases mem_append.1 hrange with hslice | hobject
  · obtain ⟨slice, hmem, rfl⟩ := mem_map.1 hslice
    have hne : request.object_id ≠ noop := fun heq => by
      rw [CommitStreamSetObjectRequest.slices, if_neg (not_not.2 heq)] at hmem
      cases hmem
    have hslices : request.slices noop = request.stream_ranges := if_pos hne
    have hset := heffect.sets request.object_id
    rw [if_pos ⟨hne, rfl⟩] at hset
    refine ⟨request.object_id, .inl ⟨slice.start_offset, (slice.end_offset, slice.size), ?_, hstart,
      hend⟩⟩
    have hfind : request.stream_ranges.reverse.find? (fun b =>
        (⟨b.stream_id, b.start_offset, request.object_id⟩ : StreamOffsetKey) =
          ⟨slice.stream_id, slice.start_offset, request.object_id⟩) = some slice :=
      find?_reverse_eq_some (hslices ▸ hmem) fun b hb hkey => by
        simp only [StreamOffsetKey.mk.injEq] at hkey
        exact hguarantee.slice_unique (hslices ▸ hb) hmem hkey.1 hkey.2.1
    rw [hs'.objects.ranges, hset, bind_some, StreamSetObjectRow.slice_at,
      stream_set_object_row_slices, ← map_reverse, find?_map]
    exact congrArg (Option.map _) (congrArg (Option.map _) hfind)
  · obtain ⟨object, hmem, rfl⟩ := mem_map.1 hobject
    refine ⟨object.object_id, .inr ⟨object.start_offset,
      stream_object_row object data_time_ms now_ms last_write_ms, ?_, hstart, hend⟩⟩
    have hfind := find?_reverse_eq_some hmem fun b hb hkey =>
      hguarantee.object_unique hb hmem hkey
    have hget := heffect.objects object.key
    rw [hfind] at hget
    exact hget

/-- An offset in a live object stays in one, or was in a source that the commit dropped. -/
theorem commit_keeps (hs : s.Wf) (hs' : s'.Wf)
    (hguarantee : CommitGuarantee noop s request)
    (hcan : Committable noop s request)
    (heffect : CommitObjects noop s s' n request data_time_ms now_ms last_write_ms)
    (h : Covered s sid offset) :
    Covered s' sid offset ∨
      ∃ id ∈ request.compacted_object_ids, SetLists s id sid offset := by
  obtain ⟨id, hset | ⟨start, row, hrow, hstart, hend⟩⟩ := h
  · by_cases hmem : id ∈ request.compacted_object_ids
    · exact .inr ⟨id, hmem, hset⟩
    · obtain ⟨start, slice, hslice, hstart, hend⟩ := hset
      refine .inl ⟨id, .inl ⟨start, slice, ?_, hstart, hend⟩⟩
      have hget := heffect.sets id
      rw [hs.objects.ranges] at hslice
      obtain ⟨row, hrow, hat⟩ := bind_eq_some_iff.1 hslice
      rw [if_neg, if_neg hmem, hrow] at hget
      · rw [hs'.objects.ranges, hget]
        exact hat
      · rintro ⟨hne, rfl⟩
        rw [hcan.output_free hne] at hrow
        cases hrow
  · refine .inl ⟨id, .inr ⟨start, row, ?_, hstart, hend⟩⟩
    rw [heffect.objects]
    cases hfind : request.stream_objects.reverse.find? fun o => o.key = ⟨sid, start, id⟩ with
    | none => exact hrow
    | some o =>
      have hkey : o.key = ⟨sid, start, id⟩ := by simpa using find?_some hfind
      have hmem := mem_reverse.1 (mem_of_find?_eq_some hfind)
      exact absurd ((live_iff hs).2 (.inr ⟨_, row, hrow, congrArg (·.object_id) hkey.symm⟩))
        (hguarantee.fresh o hmem)

theorem commit_ends (hs : s.Wf) (hguarantee : CommitGuarantee noop s request)
    (hok : commit_stream_set_object noop s n request now_ms = .ok (s', r))
    (hrow : s.streams.get sid = some row) (hrow' : s'.streams.get sid = some row') :
    row.end_offset ≤ row'.end_offset ∧ ∀ offset, row.end_offset ≤ offset →
      offset < row'.end_offset → ∃ range ∈ request.ranges noop,
        range.Contains sid offset := by
  have htake := commit_takesIn hs hok
  have hend : end_of s sid = some row.end_offset := by rw [end_of, hrow]; rfl
  have hend' : end_of s' sid = some row'.end_offset := by rw [end_of, hrow']; rfl
  have hfits := htake.fits_self
  rw [htake.end_of_eq] at hend'
  unfold ends_after at hend'
  unfold Fits at hfits
  split_ifs at hend' hfits with hcompact
  · have hsame : row.end_offset = row'.end_offset := some.inj (hend.symm.trans hend')
    exact ⟨hsame.le, fun offset h1 h2 => by omega⟩
  · obtain ⟨hle, hiff⟩ := appended_spec hfits
      (fun range hrange => (hguarantee.nonempty range hrange).le) hend hend'
    exact ⟨hle, fun offset h1 h2 => (hiff offset).1 ⟨h1, h2⟩⟩

theorem commit_readable (hs : s.Wf) (h : Readable s)
    (hguarantee : CommitGuarantee noop s request)
    (hok : commit_stream_set_object noop s n request now_ms = .ok (s', r)) :
    Readable s' ∧ Grows s s' := by
  obtain ⟨data_time_ms, last_write_ms, heffect⟩ := commit_objects hs hok
  have hs' := commit_stream_set_object_wf hs hok
  have hcan := (commit_ok_iff hs).1 ⟨s', r, hok⟩
  have hrows := (commit_stream_set_object_endOnly hs hok).offsets
  constructor
  · intro sid row' hrow'
    obtain ⟨row, hrow, hstart⟩ := hrows sid row' hrow'
    obtain ⟨hle, hcover⟩ := h sid row hrow
    obtain ⟨hend, hnew⟩ := commit_ends hs hguarantee hok hrow hrow'
    refine ⟨by omega, fun offset h1 h2 => ?_⟩
    by_cases hold : offset < row.end_offset
    · rcases commit_keeps hs hs' hguarantee hcan heffect (hcover offset (by omega) hold) with
        hkept | ⟨id, hid, hlists⟩
      · exact hkept
      · obtain ⟨range, hrange, hcontains⟩ :=
          hguarantee.covers id hid sid row offset hrow (by omega) hlists
        exact commit_lists hs' hguarantee heffect hrange hcontains
    · obtain ⟨range, hrange, hcontains⟩ := hnew offset (not_lt.1 hold) h2
      exact commit_lists hs' hguarantee heffect hrange hcontains
  · intro sid row row' hrow hrow'
    obtain ⟨old, hold, hstart⟩ := hrows sid row' hrow'
    cases hrow.symm.trans hold
    exact ⟨hstart.ge, (commit_ends hs hguarantee hok hrow hrow').1⟩

end Commit

/-! ## Stream compactions -/

theorem compact_keeps (hs : s.Wf) {request : CompactStreamObjectRequest}
    (hguarantee : CompactGuarantee noop s request)
    (hother : ¬(request.object_id ≠ noop ∧
      request.object_id ∈ request.source_object_ids))
    (hok : compact_stream_object noop s request now_ms = .ok (s', r))
    (hrow : s.streams.get sid = some row) (hstart : row.start_offset ≤ offset)
    (h : Covered s sid offset) : Covered s' sid offset := by
  obtain ⟨last_write_ms, heffect⟩ := compact_objects hs hok
  have hcan := compact_ok_iff.1 ⟨s', r, hok⟩
  obtain ⟨id, hset | hlists⟩ := h
  · refine ⟨id, .inl ?_⟩
    unfold SetLists
    rwa [heffect.ranges]
  obtain ⟨start, object, hobject, hle, hlt⟩ := hlists
  have hget := heffect.objects ⟨sid, start, id⟩
  by_cases hsource : sid = request.stream_id ∧ id ∈ request.source_object_ids
  · obtain ⟨rfl, hid⟩ := hsource
    obtain ⟨hne, -, hin⟩ := hguarantee id hid row offset hrow hstart ⟨start, object, hobject, hle, hlt⟩
    have hout := heffect.objects request.output.key
    rw [if_neg fun h => hother ⟨hne, h.2⟩, if_pos ⟨hne, rfl⟩] at hout
    exact ⟨request.object_id, .inr ⟨request.start_offset, _, hout, hin⟩⟩
  · rw [if_neg hsource, if_neg, hobject] at hget
    · exact ⟨id, .inr ⟨start, object, hget, hle, hlt⟩⟩
    · rintro ⟨hne, hkey⟩
      exact hcan.output hne ((live_iff hs).2 (.inr ⟨_, object, hobject, congrArg (·.object_id) hkey⟩))

/-! ## One step -/

theorem ObjectStep.keeps (hs : s.Wf)
    (hstep : ObjectStep noop s s' c) (hc : ¬c.IsObjectCommand) (hrow' : s'.streams.get sid = some row')
    (hstart : row'.start_offset ≤ offset) (h : Covered s sid offset) : Covered s' sid offset := by
  cases hstep with
  | same _ hobjects => unfold Covered SetLists ObjectLists; rwa [hobjects]
  | destroyed _ keys hsets hranges hobjects hmarked hlive =>
    obtain ⟨id, hset | ⟨start, object, hobject, hle, hlt⟩⟩ := h
    · refine ⟨id, .inl ?_⟩
      unfold SetLists
      rwa [hranges]
    · refine ⟨id, .inr ⟨start, object, ?_, hle, hlt⟩⟩
      rw [hobjects, if_neg, hobject]
      rintro ⟨key, hkey, hid⟩
      obtain ⟨dropped, hdropped, hend⟩ := hlive key hkey
      have h1 := (hs.objects.ids id ⟨sid, start, id⟩).2 ⟨rfl, object, hobject⟩
      have h2 := (hs.objects.ids id key).2 ⟨hid.symm, dropped, hdropped⟩
      obtain rfl : _ = key := some.inj (h1.symm.trans h2)
      cases hobject.symm.trans hdropped
      have := hend row' hrow'
      omega
  | committed => exact absurd trivial hc
  | compacted => exact absurd trivial hc

/-- Under the guarantees, a step keeps every offset covered and takes none back. -/
theorem step_readable (hs : s.Wf) (h : Readable s)
    (hguarantee : (∃ r, (apply noop s c).2 = .ok r) → Guaranteed noop s c)
    (hother : (∃ r, (apply noop s c).2 = .ok r) → ¬ConsumesOutput noop c) :
    Readable (step noop s c) ∧ Grows s (step noop s c) := by
  by_cases hacc : ∃ r, (apply noop s c).2 = .ok r
  · have hguarantee := hguarantee hacc
    have hother := hother hacc
    obtain ⟨r, hr⟩ := hacc
    have hd := (apply_ok hr).2
    have hrows := step_rowStep noop hs c
    have hstep := (dispatch_effect hd).objectStep hs
    have hrest : ¬c.IsObjectCommand →
        Readable (step noop s c) ∧ Grows s (step noop s c) := fun hc =>
      readable_of_rowStep h hrows (by rintro p request now_ms rfl; exact hc trivial)
        fun _ _ _ _ _ hrow' _ hstart => hstep.keeps hs hc hrow' hstart
    cases c with
    | commitStreamSetObject p request now_ms => exact commit_readable hs h hguarantee hd
    | compactStreamObject p request now_ms =>
      exact readable_of_rowStep h hrows (by simp) fun _ _ _ _ hrow _ hstart _ =>
        compact_keeps hs hguarantee hother hd hrow hstart
    | _ => exact hrest id
  · rw [step_of_refused hacc]
    refine ⟨h, fun sid row row' hrow hrow' => ?_⟩
    cases hrow.symm.trans hrow'
    exact ⟨le_rfl, le_rfl⟩

/-! ## Runs -/

section Runs

variable {log : List MetadataCommand}

theorem history_readable (hengine : EngineRun noop log)
    (hother : ∀ i c, Accepted noop log i c → ¬ConsumesOutput noop c) (i : ℕ) :
    Readable (history noop log i) :=
  Run.after_of_le (P := Readable) (Nat.zero_le i) (fun sid row hrow => by simp at hrow)
    fun k c _ _ hc h => (step_readable (history_wf log k) h (hengine k c hc)
      fun hacc => hother k c ⟨hc, hacc⟩).1

/-- A stream id in use, whose row, if it is still there, has not been taken back behind `row`. -/
structure Grown (sid : ℕ) (row : StreamRow) (s : MetadataState) : Prop where
  used : sid < s.next_stream_id
  offsets : ∀ row', s.streams.get sid = some row' →
    row.start_offset ≤ row'.start_offset ∧ row.end_offset ≤ row'.end_offset

theorem grown_step (hs : s.Wf)
    (hgrows : Grows s (step noop s c)) (h : Grown sid row s) :
    Grown sid row (step noop s c) := by
  refine ⟨h.used.trans_le (step_next_stream_id_le _ s c), fun row' hrow' => ?_⟩
  have hstep := step_rowStep noop hs c sid
  cases hcontrol : s.toStreamTables.control sid with
  | none =>
    rw [hcontrol, control_eq_some hrow'] at hstep
    generalize row'.control = control' at hstep
    cases hstep with
    | created _ hfresh => exact absurd h.used (not_lt.2 hfresh)
  | some control =>
    obtain ⟨mid, hmid, -⟩ := exists_of_control hcontrol
    have h1 := h.offsets mid hmid
    have h2 := hgrows sid mid row' hmid hrow'
    omega

theorem history_grows (hengine : EngineRun noop log)
    (hother : ∀ i c, Accepted noop log i c → ¬ConsumesOutput noop c) {i j : ℕ} (hij : i ≤ j) :
    Grows (history noop log i) (history noop log j) := by
  intro sid row row' hrow
  have hgrown : Grown sid row (history noop log j) :=
    Run.after_of_le (P := Grown sid row) hij
      ⟨(history_wf log i).fresh_streams sid row hrow, fun row' hrow' => by
        cases hrow.symm.trans hrow'; exact ⟨le_rfl, le_rfl⟩⟩
      fun k c _ _ hc => grown_step (history_wf log k) (step_readable (history_wf log k)
        (history_readable hengine hother k) (hengine k c hc)
        fun hacc => hother k c ⟨hc, hacc⟩).2
  exact hgrown.offsets row'

end Runs

/-- If the engine keeps its guarantees and no stream compaction names its own output as a source,
the offsets of every stream stay in order and in live objects. -/
theorem offsets_stay_covered (noop : ℕ) (log : List MetadataCommand)
    (hengine : EngineRun noop log)
    (hother : ∀ i c, Accepted noop log i c → ¬ConsumesOutput noop c) :
    Run.Always (step noop) {} log Readable ∧
      ∀ i j, i ≤ j → Grows (history noop log i) (history noop log j) :=
  ⟨history_readable hengine hother, fun _ _ hij => history_grows hengine hother hij⟩

/-- A stream with one stream object for its offsets 0 to 7. -/
def one_object : List MetadataCommand :=
  [.registerNode 1 0 "a" 1 .empty "wal", .createStream ⟨1, 0⟩, .openStream ⟨1, 0⟩ 0 1,
    .commitStreamSetObject ⟨1, 0⟩ ⟨1000, 0, 0, [], [⟨0, 8, 0, 0, 8, 0⟩], []⟩ 1]

/-- The object is then compacted into object 2 from `sources`. -/
def compacted_log (sources : List ℕ) : List MetadataCommand :=
  one_object ++ [.compactStreamObject ⟨1, 0⟩ ⟨2, 8, 0, 1, 0, 8, sources, [], 0⟩ 1]

theorem compacted_log_engineRun (sources : List ℕ) : EngineRun 1000 (compacted_log sources) := by
  have hentries : (history 1000 one_object 4).stream_objects.entries =
      [(⟨0, 0, 0⟩, stream_object_row ⟨0, 8, 0, 0, 8, 0⟩ 1 1 1)] := by decide
  unfold EngineRun compacted_log one_object
  simp only [cons_append, nil_append, Run.eachStep_cons, Run.eachStep_nil, and_true]
  refine ⟨fun _ => trivial, fun _ => trivial, fun _ => trivial, fun _ => ?_, fun _ => ?_⟩
  · exact ⟨by decide, by simp [CommitStreamSetObjectRequest.pieces,
      CommitStreamSetObjectRequest.slices], by decide, by simp⟩
  · rintro id - row offset - - ⟨start, object, hobject, -, hlt⟩
    have hmem : ((⟨0, start, id⟩ : StreamOffsetKey), object) ∈
        (history 1000 one_object 4).stream_objects.entries := OrdMap.mem_entries.2 hobject
    rw [hentries, mem_singleton] at hmem
    cases hmem
    exact ⟨by simp, rfl, Nat.zero_le _, hlt⟩

/-- With object 0 as the source, the offsets move from one object to the other. -/
theorem offsets_stay_covered_in_compacted_log :
    EngineRun 1000 (compacted_log [0]) ∧
    Run.Always (step 1000) {} (compacted_log [0]) Readable ∧
    ∀ i j, i ≤ j → Grows (history 1000 (compacted_log [0]) i)
      (history 1000 (compacted_log [0]) j) := by
  refine ⟨compacted_log_engineRun [0], offsets_stay_covered 1000 (compacted_log [0])
    (compacted_log_engineRun [0]) fun i c hacc => ?_⟩
  have hc := List.mem_of_getElem? hacc.1
  simp only [compacted_log, one_object, List.cons_append, List.nil_append, List.mem_cons,
    List.not_mem_nil, or_false] at hc
  rcases hc with rfl | rfl | rfl | rfl | rfl <;> simp [ConsumesOutput]

/-- With its own output among the sources, the compaction leaves the stream without objects. -/
theorem consumed_output_not_readable :
    EngineRun 1000 (compacted_log [0, 2]) ∧
    (history 1000 (compacted_log [0, 2]) 5).streams.get 0 =
      some ⟨0, 1, 0, 8, .opened, 1, 0⟩ ∧
    (history 1000 (compacted_log [0, 2]) 5).stream_objects = .empty ∧
    ¬Run.Always (step 1000) {} (compacted_log [0, 2]) Readable := by
  have hrow : (history 1000 (compacted_log [0, 2]) 5).streams.get 0 =
      some ⟨0, 1, 0, 8, .opened, 1, 0⟩ := by decide
  have hobjects : (history 1000 (compacted_log [0, 2]) 5).stream_objects = .empty := by decide
  have hsets : (history 1000 (compacted_log [0, 2]) 5).sso_ranges = .empty := by decide
  refine ⟨compacted_log_engineRun [0, 2], hrow, hobjects, fun h => ?_⟩
  obtain ⟨id, ⟨start, slice, hslice, -⟩ | ⟨start, row, hobject, -⟩⟩ :=
    (h 5 0 _ hrow).2 0 (by decide) (by decide)
  · have hnone : (history 1000 (compacted_log [0, 2]) 5).sso_ranges.get ⟨0, start, id⟩ = none := by
      rw [hsets, OrdMap.get_empty]
    exact absurd (hnone.symm.trans hslice) (by simp)
  · have hnone : (history 1000 (compacted_log [0, 2]) 5).stream_objects.get ⟨0, start, id⟩ =
        none := by
      rw [hobjects, OrdMap.get_empty]
    exact absurd (hnone.symm.trans hobject) (by simp)

end PicoMq.Metadata
