import PicoMq.Metadata.Proofs.OpenProofs
import PicoMq.Metadata.Request

/-!
# Proofs: offsets of a commit

The loops over slices and over stream objects check the ranges one after the other; together they
accept exactly the requests whose ranges fit.
-/

namespace PicoMq.Metadata

open Function List MetadataState Option

variable {s s' : MetadataState} {r : MetadataResult} {n : ℤ} {compact : Bool}
variable {ranges : List StreamOffsetRange} {noop : ℕ}
variable {range : StreamOffsetRange} {t : MetadataState} {request : CommitStreamSetObjectRequest}
variable {data_time_ms last_write_ms now_ms : ℤ}

/-! ## Ranges -/

theorem end_of_eq (s : MetadataState) (sid : ℕ) :
    end_of s sid = (s.toStreamTables.control sid).map (·.end_offset) := by
  rw [end_of, StreamTables.control, Option.map_map]; rfl

theorem within_iff : Within s range ↔
    ∃ row, s.toStreamTables.control range.stream_id = some row ∧
      range.end_offset ≤ row.end_offset ∧ row.start_offset ≤ range.start_offset := by
  constructor
  · rintro ⟨row, hrow, h⟩; exact ⟨_, StreamTables.control_eq_some hrow, h⟩
  · rintro ⟨row, hrow, h⟩
    obtain ⟨r, hr, rfl⟩ := StreamTables.exists_of_control hrow
    exact ⟨r, hr, h⟩

section

variable (h : ∀ sid, s'.toStreamTables.control sid = s.toStreamTables.control sid)
include h

theorem end_of_congr : end_of s' = end_of s := by
  funext sid
  rw [end_of_eq, end_of_eq, h]

theorem fits_congr : Fits compact s' ranges ↔ Fits compact s ranges := by
  unfold Fits
  simp only [within_iff, h, end_of_congr h]

theorem ends_after_congr : ends_after compact s' ranges = ends_after compact s ranges := by
  unfold ends_after
  rw [end_of_congr h]

end

@[simp] theorem fits_nil : Fits compact s [] := by
  unfold Fits; split_ifs <;> simp [Appends]

@[simp] theorem ends_after_nil : ends_after compact s [] = end_of s := by
  unfold ends_after appended; simp

theorem appended_cons (ends : ℕ → Option ℕ) (range : StreamOffsetRange)
    (ranges : List StreamOffsetRange) :
    appended ends (range :: ranges) =
      appended (update ends range.stream_id (some range.end_offset)) ranges :=
  rfl

/-- Ranges that follow each other make up what lies between the old and the new end. -/
theorem appended_spec {ends : ℕ → Option ℕ} {ranges : List StreamOffsetRange} {e e' : ℕ}
    (h : Appends ends ranges) (hle : ∀ range ∈ ranges, range.start_offset ≤ range.end_offset)
    (he : ends sid = some e) (he' : appended ends ranges sid = some e') :
    e ≤ e' ∧ ∀ offset, e ≤ offset ∧ offset < e' ↔ ∃ range ∈ ranges,
      range.stream_id = sid ∧ range.start_offset ≤ offset ∧ offset < range.end_offset := by
  induction ranges generalizing ends e with
  | nil =>
    obtain rfl : e = e' := some.inj (he.symm.trans he')
    exact ⟨le_rfl, fun offset => by simp⟩
  | cons range ranges ih =>
    obtain ⟨hstart, hrest⟩ := h
    obtain ⟨hrange, hranges⟩ := forall_mem_cons.1 hle
    rw [appended_cons] at he'
    simp only [mem_cons, exists_eq_or_imp]
    by_cases hsid : range.stream_id = sid
    · subst hsid
      obtain rfl : e = range.start_offset := some.inj (he.symm.trans hstart)
      obtain ⟨hend, hiff⟩ := ih hrest hranges (update_self ..) he'
      refine ⟨hrange.trans hend, fun offset => ?_⟩
      rw [← hiff offset]
      omega
    · obtain ⟨hend, hiff⟩ := ih hrest hranges ((update_of_ne (Ne.symm hsid) ..).trans he) he'
      refine ⟨hend, fun offset => ?_⟩
      rw [← hiff offset]
      simp [hsid]

theorem appended_apply (ends : ℕ → Option ℕ) (ranges : List StreamOffsetRange) (sid : ℕ) :
    appended ends ranges sid = (last_end ranges sid).or (ends sid) := by
  induction ranges generalizing ends with
  | nil => rfl
  | cons range ranges ih =>
    rw [appended_cons, ih]
    unfold last_end
    rw [reverse_cons, find?_append]
    cases ranges.reverse.find? fun range => range.stream_id = sid with
    | some range' => rfl
    | none =>
      by_cases hsid : range.stream_id = sid
      · simp [hsid]
      · simp [hsid, update_of_ne (Ne.symm hsid)]

theorem appends_append (ends : ℕ → Option ℕ) (ranges ranges' : List StreamOffsetRange) :
    Appends ends (ranges ++ ranges') ↔
      Appends ends ranges ∧ Appends (appended ends ranges) ranges' := by
  induction ranges generalizing ends with
  | nil => simp [Appends, appended]
  | cons range ranges ih =>
    rw [cons_append, Appends, Appends, ih, and_assoc, appended_cons]

theorem appends_iff_first_start {ends ends' : ℕ → Option ℕ} (h : Appends ends ranges) :
    Appends ends' ranges ↔
      ∀ sid start, first_start ranges sid = some start → ends' sid = some start := by
  induction ranges generalizing ends ends' with
  | nil => simp [Appends, first_start]
  | cons range ranges ih =>
    obtain ⟨-, hrest⟩ := h
    have hfirst : ∀ sid, first_start (range :: ranges) sid =
        if range.stream_id = sid then some range.start_offset else first_start ranges sid := by
      intro sid
      unfold first_start
      rw [find?_cons]
      by_cases hsid : range.stream_id = sid <;> simp [hsid]
    rw [Appends, ih hrest]
    constructor
    · rintro ⟨hstart, hlater⟩ sid start hs
      rw [hfirst] at hs
      split_ifs at hs with hsid
      · cases hs; exact hsid ▸ hstart
      · have := hlater sid start hs
        rwa [update_of_ne (Ne.symm hsid)] at this
    · intro hall
      refine ⟨hall _ _ (by rw [hfirst, if_pos rfl]), fun sid start hs => ?_⟩
      by_cases hsid : range.stream_id = sid
      · subst hsid
        have := (ih hrest).1 hrest _ start hs
        rwa [update_self] at this ⊢
      · rw [update_of_ne (Ne.symm hsid)]
        exact hall sid start (by rw [hfirst, if_neg hsid]; exact hs)

theorem fits_of_append {ranges' : List StreamOffsetRange}
    (h : Fits compact s (ranges ++ ranges')) : Fits compact s ranges := by
  unfold Fits at h ⊢
  split_ifs at h ⊢
  · exact fun range hrange => h range (mem_append_left _ hrange)
  · exact ((appends_append ..).1 h).1

/-! ## The offset check -/

theorem end_of_put_end (hs : s.Wf) {sid : ℕ} {row : StreamRow}
    (hrow : s.streams.get sid = some row) (end_offset : ℕ) :
    end_of (s.put_stream { row with end_offset }) =
      update (end_of s) sid (some end_offset) := by
  obtain rfl := hs.streams.keyed sid row hrow
  funext sid
  rw [end_of_eq, put_stream_frame (s := s) _ |>.2.1, StreamTables.control_put_stream]
  by_cases hsid : sid = row.stream_id
  · rw [if_pos hsid, hsid, update_self]; rfl
  · rw [if_neg hsid, update_of_ne hsid, end_of_eq]

/-- The range fitted `s`, and further ranges fit `t` exactly when they fitted `s` after it. -/
structure TakesIn (compact : Bool) (s t : MetadataState) (ranges : List StreamOffsetRange) :
    Prop where
  fits : ∀ more, Fits compact s (ranges ++ more) ↔ Fits compact t more
  ends : ∀ more, ends_after compact s (ranges ++ more) = ends_after compact t more

theorem TakesIn.fits_self (h : TakesIn compact s t ranges) : Fits compact s ranges := by
  simpa using (h.fits []).2 fits_nil

theorem TakesIn.end_of_eq (h : TakesIn compact s t ranges) :
    end_of t = ends_after compact s ranges := by
  simpa using (h.ends []).symm

theorem TakesIn.of_control (compact : Bool)
    (h : ∀ sid, t.toStreamTables.control sid = s.toStreamTables.control sid) :
    TakesIn compact s t [] :=
  ⟨fun _ => (fits_congr h).symm, fun _ => (ends_after_congr h).symm⟩

theorem TakesIn.trans {u : MetadataState} {ranges' : List StreamOffsetRange}
    (h : TakesIn compact s t ranges) (h' : TakesIn compact t u ranges') :
    TakesIn compact s u (ranges ++ ranges') :=
  ⟨fun more => by rw [append_assoc, h.fits, h'.fits],
    fun more => by rw [append_assoc, h.ends, h'.ends]⟩

theorem advance_takesIn (hs : s.Wf)
    (h : advance_end_offset s range.stream_id range.start_offset range.end_offset compact =
      .ok s') : TakesIn compact s s' [range] := by
  obtain ⟨row, hrow, ⟨rfl, hend, hstart, rfl⟩ | ⟨rfl, hend, rfl⟩⟩ :=
    advance_end_offset_eq_ok_iff.1 h
  · have hin : Within s' range := ⟨row, hrow, hend, hstart⟩
    exact ⟨fun more => by simp [Fits, hin], fun more => by simp [ends_after]⟩
  · have hends := end_of_put_end hs hrow range.end_offset
    have hstart : end_of s range.stream_id = some range.start_offset := by
      rw [end_of, hrow, ← hend]; rfl
    exact ⟨fun more => by simp [Fits, Appends, hends, hstart],
      fun more => by simp [ends_after, appended_cons, hends]⟩

theorem advance_of_fits (h : Fits compact s [range]) :
    ∃ t, advance_end_offset s range.stream_id range.start_offset range.end_offset compact =
      .ok t := by
  simp only [advance_end_offset_eq_ok_iff]
  cases compact with
  | true =>
    obtain ⟨row, hrow, hend, hstart⟩ : Within s range := by simpa [Fits] using h
    exact ⟨s, row, hrow, .inl ⟨rfl, hend, hstart, rfl⟩⟩
  | false =>
    have hend : end_of s range.stream_id = some range.start_offset := by
      simpa [Fits, Appends] using h
    obtain ⟨row, hrow, hend⟩ := map_eq_some_iff.1 hend
    exact ⟨_, row, hrow, .inr ⟨rfl, hend, rfl⟩⟩

theorem foldlM_takesIn {α : Type} {f : MetadataState → α → Except MetadataError MetadataState}
    {g : α → StreamOffsetRange}
    (hf : ∀ s a s', s.Wf → f s a = .ok s' → s'.Wf ∧ TakesIn compact s s' [g a]) {l : List α}
    (hs : s.Wf) (h : l.foldlM f s = .ok s') : s'.Wf ∧ TakesIn compact s s' (l.map g) := by
  induction l generalizing s with
  | nil => cases h; exact ⟨hs, .of_control _ fun _ => rfl⟩
  | cons a l ih =>
    obtain ⟨t, ha, hl⟩ := foldlM_cons_ok.1 h
    obtain ⟨ht, htake⟩ := hf s a t hs ha
    obtain ⟨hs', htake'⟩ := ih ht hl
    exact ⟨hs', htake.trans htake'⟩

section

variable (hs : s.Wf)
include hs

theorem advance_ranges_takesIn {ranges : List ObjectStreamRange}
    (h : ranges.foldlM (fun s range =>
      advance_end_offset s range.stream_id range.start_offset range.end_offset compact) s =
        .ok s') :
    s'.Wf ∧ TakesIn compact s s' (ranges.map ObjectStreamRange.range) :=
  foldlM_takesIn (fun _ _ _ hs h =>
    ⟨(advance_end_offset_writes (C := Any) (R := Any) h).wf hs, advance_takesIn hs h⟩) hs h

theorem advance_ranges_of_fits {ranges : List ObjectStreamRange}
    (h : Fits compact s (ranges.map ObjectStreamRange.range)) :
    ∃ t, ranges.foldlM (fun s range =>
      advance_end_offset s range.stream_id range.start_offset range.end_offset compact) s =
        .ok t := by
  induction ranges generalizing s with
  | nil => exact ⟨s, rfl⟩
  | cons range ranges ih =>
    have hfirst : Fits compact s ([range.range] ++ ranges.map ObjectStreamRange.range) := h
    obtain ⟨t, ht⟩ := advance_of_fits (fits_of_append hfirst)
    have htake := advance_takesIn hs ht
    obtain ⟨u, hu⟩ := ih ((advance_end_offset_writes (C := Any) (R := Any) ht).wf hs)
      ((htake.fits _).1 h)
    exact ⟨u, foldlM_cons_ok.2 ⟨t, ht, hu⟩⟩

/-! ## Whole commits -/

theorem commit_set_object_takesIn
    (h : commit_set_object s n request compact data_time_ms now_ms last_write_ms = .ok s') :
    TakesIn compact s s' (request.stream_ranges.map ObjectStreamRange.range) := by
  obtain ⟨-, -, t, ht, rfl⟩ := commit_set_object_eq_ok_iff.1 h
  have hloop := (advance_ranges_takesIn (hs.remove_prepared _) ht).2
  have hfirst : TakesIn compact s (s.remove_prepared request.object_id) [] :=
    .of_control _ fun _ => rfl
  have hlast := TakesIn.of_control compact
    (control_put_stream_set_object (s := t)
      (stream_set_object_row n request data_time_ms now_ms last_write_ms))
  simpa using (hfirst.trans hloop).trans hlast

theorem commit_stream_object_takesIn {object : StreamObject}
    (h : commit_stream_object compact data_time_ms now_ms last_write_ms s object = .ok s') :
    TakesIn compact s s' [object.range] := by
  obtain ⟨-, -, t, ht, rfl⟩ := commit_stream_object_eq_ok_iff.1 h
  have hrange : TakesIn compact (s.remove_prepared object.object_id) t [object.range] :=
    advance_takesIn (hs.remove_prepared _) ht
  have hfirst : TakesIn compact s (s.remove_prepared object.object_id) [] :=
    .of_control _ fun _ => rfl
  have hlast := TakesIn.of_control compact
    (control_put_stream_object (s := t) (stream_object_row object data_time_ms now_ms last_write_ms))
  simpa [insert_stream_object] using (hfirst.trans hrange).trans hlast

theorem set_stage_takesIn
    (hset : request.object_id ≠ noop →
      commit_set_object s n request compact data_time_ms now_ms last_write_ms = .ok t)
    (hnoop : request.object_id = noop → t = s) :
    t.Wf ∧ TakesIn compact s t ((request.slices noop).map ObjectStreamRange.range) := by
  unfold CommitStreamSetObjectRequest.slices
  split_ifs with hne
  · exact ⟨(commit_set_object_writes (C := Any) (R := Any) trivial trivial (hset hne)).wf hs,
      commit_set_object_takesIn hs (hset hne)⟩
  · rw [hnoop (not_not.1 hne)]
    exact ⟨hs, .of_control _ fun _ => rfl⟩

section

variable (h : commit_stream_set_object noop s n request now_ms = .ok (s', r))
include h

/-- An accepted commit takes in its ranges, slices first and stream objects after them. -/
theorem commit_takesIn :
    TakesIn (!request.compacted_object_ids.isEmpty) s s' (request.ranges noop) := by
  obtain ⟨-, sources, t, -, hset, hnoop, hobjects, -⟩ := commit_stream_set_object_eq_ok_iff.1 h
  have hfirst := TakesIn.of_control (!request.compacted_object_ids.isEmpty)
    (control_destroy_stream_set_objects request.compacted_object_ids s)
  obtain ⟨ht, hslices⟩ := set_stage_takesIn
    (destroy_stream_set_objects_wf hs request.compacted_object_ids) hset hnoop
  have hlast := foldlM_takesIn (g := StreamObject.range) (fun _ _ _ hs h =>
    ⟨commit_stream_object_wf hs h, commit_stream_object_takesIn hs h⟩) ht hobjects
  exact hfirst.trans (hslices.trans hlast.2)

/-! ## Who may commit -/

/-- An accepted plain commit takes each stream to the end of its last range there. -/
theorem end_of_plain_commit
    (hplain : request.compacted_object_ids = []) (sid : ℕ) :
    end_of s' sid = (last_end (request.ranges noop) sid).or (end_of s sid) := by
  rw [(commit_takesIn hs h).end_of_eq, hplain, ends_after, if_neg (by simp), appended_apply]

end

/-- A stream that an accepted plain commit advances is one that it names. -/
theorem named_of_advanced {row row' : StreamRow}
    (h : commit_stream_set_object noop s n request now_ms = .ok (s', r))
    (hplain : request.compacted_object_ids = []) (hrow : s.streams.get sid = some row)
    (hrow' : s'.streams.get sid = some row') (hlt : row.end_offset < row'.end_offset) :
    ∃ range ∈ request.ranges noop, range.stream_id = sid := by
  have hend := end_of_plain_commit hs h hplain sid
  rw [end_of, end_of, hrow, hrow'] at hend
  cases hfind : (request.ranges noop).reverse.find? fun range => range.stream_id = sid with
  | none =>
    rw [last_end, hfind] at hend
    have hsame : row'.end_offset = row.end_offset := some.inj hend
    omega
  | some range =>
    exact ⟨range, mem_reverse.1 (mem_of_find?_eq_some hfind), by simpa using find?_some hfind⟩

end

/-- A node that holds a stream is its owner, at the epoch of the stream. -/
theorem HoldsStream.owner {log : List MetadataCommand} {i : ℕ} {epoch : ℤ}
    (h : HoldsStream noop log i n sid epoch) {row : StreamRow}
    (hrow : (history noop log i).streams.get sid = some row) :
    row.epoch = epoch ∧ row.node_id = n := by
  obtain ⟨j, hji, p, rfl, hopened, hkept⟩ := h
  have hopen : OpenAt (history noop log i) sid epoch p.node_id := by
    by_contra hlost
    obtain ⟨k, q, hjk, hki, hclosed, -⟩ := closed_of_lost hji hopened hlost
    exact hkept k q hjk hki hclosed
  obtain ⟨⟨row', hrow', hepoch, -, howner⟩, -⟩ := hopen
  rw [StreamTables.control_eq_some hrow] at hrow'
  cases hrow'
  exact ⟨hepoch, howner⟩

/-- Over every run, a commit of streams that its proposer opened and nobody closed since follows the
ownership rule, if its ranges carry the epochs of those opens. -/
theorem commits_of_holders_follow_rule (noop : ℕ) (log : List MetadataCommand) (i : ℕ)
    (p : Proposer) (request : CommitStreamSetObjectRequest) (now_ms : ℤ)
    (hacc : Accepted noop log i (.commitStreamSetObject p request now_ms))
    (hheld : CommitsHeld noop log i p request) :
    CommitRule (history noop log i) (history noop log (i + 1)) p request := by
  obtain ⟨howned, hepochs⟩ := hheld
  obtain ⟨-, r, hd⟩ := hacc.dispatch
  constructor
  · intro hplain sid row row' hrow hrow' hlt
    obtain ⟨range, hrange, rfl⟩ :=
      named_of_advanced (history_wf log i) hd hplain hrow hrow' hlt
    obtain ⟨epoch, hholds⟩ := howned hplain range hrange
    exact .inl (hholds.owner hrow).2
  · intro range hrange row hrow
    obtain ⟨node_id, epoch, hle, hholds⟩ := hepochs range hrange
    rw [(hholds.owner hrow).1]
    exact hle

/-- The stream of node 1 is closed and opened by node 2, which commits eight offsets. -/
def commit_after_open : List MetadataCommand :=
  [.registerNode 1 0 "a" 1 .empty "wal", .registerNode 2 0 "b" 1 .empty "wal",
    .createStream ⟨1, 0⟩, .openStream ⟨1, 0⟩ 0 1, .closeStream ⟨1, 0⟩ 0 1, .openStream ⟨2, 0⟩ 0 2,
    .commitStreamSetObject ⟨2, 0⟩ ⟨0, 8, 0, [⟨0, 2, 0, 8, 8⟩], [], []⟩ 1]

theorem commit_after_open_follows_rule :
    ((history 1000 commit_after_open 7).streams.get 0).map StreamRow.end_offset = some 8 ∧
      CommitRule (history 1000 commit_after_open 6) (history 1000 commit_after_open 7) ⟨2, 0⟩
        ⟨0, 8, 0, [⟨0, 2, 0, 8, 8⟩], [], []⟩ := by
  have hholds : HoldsStream 1000 commit_after_open 6 2 0 2 :=
    ⟨5, by decide, ⟨2, 0⟩, rfl, ⟨rfl, _, rfl⟩, fun k q hk hk' => by omega⟩
  have hheld : CommitsHeld 1000 commit_after_open 6 ⟨2, 0⟩
      ⟨0, 8, 0, [⟨0, 2, 0, 8, 8⟩], [], []⟩ := by
    refine ⟨fun _ range hrange => ?_, fun range hrange => ?_⟩
    · rw [mem_singleton.1 hrange]
      exact ⟨2, hholds⟩
    · rw [mem_singleton.1 hrange]
      exact ⟨2, 2, le_rfl, hholds⟩
  exact ⟨by decide, commits_of_holders_follow_rule 1000 commit_after_open 6 _ _ 1
    ⟨rfl, .unit, by decide⟩ hheld⟩

/-- Node 2, which never held the stream of node 1, commits its first eight offsets at epoch 0. -/
def foreign_commit : List MetadataCommand :=
  [.registerNode 1 0 "a" 1 .empty "wal", .registerNode 2 0 "b" 1 .empty "wal",
    .createStream ⟨1, 0⟩, .openStream ⟨1, 0⟩ 0 1,
    .commitStreamSetObject ⟨2, 0⟩ ⟨0, 8, 0, [⟨0, 0, 0, 8, 8⟩], [], []⟩ 1]

/-- The commit is accepted and advances the stream of node 1, which is live and at epoch 1. -/
theorem foreign_commit_breaks_rule :
    Accepted 1000 foreign_commit 4
      (.commitStreamSetObject ⟨2, 0⟩ ⟨0, 8, 0, [⟨0, 0, 0, 8, 8⟩], [], []⟩ 1) ∧
    (history 1000 foreign_commit 4).streams.get 0 = some ⟨0, 1, 0, 0, .opened, 1, 0⟩ ∧
    node_live (history 1000 foreign_commit 4) 1 = true ∧
    (history 1000 foreign_commit 5).streams.get 0 = some ⟨0, 1, 0, 8, .opened, 1, 8⟩ ∧
    ¬CommitRule (history 1000 foreign_commit 4) (history 1000 foreign_commit 5) ⟨2, 0⟩
      ⟨0, 8, 0, [⟨0, 0, 0, 8, 8⟩], [], []⟩ := by
  have hrow : (history 1000 foreign_commit 4).streams.get 0 =
      some ⟨0, 1, 0, 0, .opened, 1, 0⟩ := by decide
  have hlive : node_live (history 1000 foreign_commit 4) 1 = true := by decide
  have hrow' : (history 1000 foreign_commit 5).streams.get 0 =
      some ⟨0, 1, 0, 8, .opened, 1, 8⟩ := by decide
  refine ⟨⟨rfl, .unit, by decide⟩, hrow, hlive, hrow', fun hrule => ?_⟩
  rcases hrule.1 rfl 0 _ _ hrow hrow' (by decide) with hnode | hdead
  · exact absurd hnode (by decide)
  · rw [hlive] at hdead; cases hdead

end PicoMq.Metadata
