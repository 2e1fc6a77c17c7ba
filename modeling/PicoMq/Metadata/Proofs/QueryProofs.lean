import PicoMq.Library.Proofs.SortedProofs
import PicoMq.Metadata.Proofs.SpanProofs
import PicoMq.Metadata.Query

/-!
# Proofs: the objects of a window of offsets

Both scans are in the order of the ranges, and the loop is the merge of the two.
-/

namespace PicoMq.Metadata

open List MetadataState

variable {noop : ℕ} {s : MetadataState} {sid a b : ℕ} {r : LiveRange}
variable {r r' : LiveRange}

/-! ## The scans -/

theorem StreamOffsetKey.lt_iff {key key' : StreamOffsetKey} (h : key.stream_id = key'.stream_id) :
    key < key' ↔ key.start_offset < key'.start_offset ∨
      key.start_offset = key'.start_offset ∧ key.object_id < key'.object_id := by
  show key.toTuple < key'.toTuple ↔ _
  simp [StreamOffsetKey.toTuple, Prod.Lex.toLex_lt_toLex, h]

theorem overlaps_iff {range_start range_end : ℕ} :
    overlaps a b range_start range_end = true ↔ a < range_end ∧ range_start < b := by
  simp [overlaps]

theorem scan_pairwise {V : Type} (m : OrdMap StreamOffsetKey V) (sid : ℕ) :
    (m.scan fun key => key.stream_id = sid).Pairwise fun e e' =>
      e.1.start_offset < e'.1.start_offset ∨
        e.1.start_offset = e'.1.start_offset ∧ e.1.object_id < e'.1.object_id := by
  have hsorted : (m.scan fun key => key.stream_id = sid).Pairwise fun e e' => e.1 < e'.1 :=
    m.sorted.sublist filter_sublist
  refine hsorted.imp_of_mem fun {e e'} he he' hlt => ?_
  have hsid := of_decide_eq_true (mem_filter.1 he).2
  have hsid' := of_decide_eq_true (mem_filter.1 he').2
  exact (StreamOffsetKey.lt_iff (hsid.trans hsid'.symm)).1 hlt

theorem takeWhile_scan {V : Type} (m : OrdMap StreamOffsetKey V) (sid b : ℕ) :
    ((m.scan fun key => key.stream_id = sid).takeWhile fun e => e.1.start_offset < b) =
      (m.scan fun key => key.stream_id = sid).filter fun e => e.1.start_offset < b := by
  refine takeWhile_eq_filter_of_pairwise ((scan_pairwise m sid).imp ?_)
  intro e e' hlt he'
  have hb := of_decide_eq_true he'
  exact decide_eq_true (by omega)

theorem mem_scan_slices {e : StreamOffsetKey × (ℕ × ℕ)} :
    e ∈ s.scan_slices sid a b ↔ s.sso_ranges.get e.1 = some e.2 ∧ e.1.stream_id = sid ∧
      overlaps a b e.1.start_offset e.2.1 = true := by
  obtain ⟨key, v⟩ := e
  rw [scan_slices, takeWhile_scan, mem_filter, mem_filter, OrdMap.mem_scan,
    decide_eq_true_eq, decide_eq_true_eq, overlaps_iff]
  constructor
  · rintro ⟨⟨⟨hget, hsid⟩, -⟩, hover⟩
    exact ⟨hget, hsid, hover⟩
  · rintro ⟨hget, hsid, hover⟩
    exact ⟨⟨⟨hget, hsid⟩, hover.2⟩, hover⟩

theorem mem_scan_objects (hs : s.Wf) {e : StreamOffsetKey × StreamObjectRow} :
    e ∈ s.scan_objects sid a b ↔ s.stream_objects.get e.1 = some e.2 ∧ e.1.stream_id = sid ∧
      overlaps a b e.1.start_offset e.2.range.end_offset = true := by
  obtain ⟨key, row⟩ := e
  rw [scan_objects, stream_objects_of, takeWhile_scan, mem_filter, mem_filter,
    OrdMap.mem_scan, decide_eq_true_eq, decide_eq_true_eq]
  constructor
  · rintro ⟨⟨⟨hget, hsid⟩, -⟩, hover⟩
    have hkey := hs.objects.keyed key row hget
    have hstart : row.range.start_offset = key.start_offset := congrArg (·.start_offset) hkey
    dsimp only at hover
    rw [hstart] at hover
    exact ⟨hget, hsid, hover⟩
  · rintro ⟨hget, hsid, hover⟩
    have hkey := hs.objects.keyed key row hget
    have hstart : row.range.start_offset = key.start_offset := congrArg (·.start_offset) hkey
    dsimp only
    rw [hstart]
    exact ⟨⟨⟨hget, hsid⟩, (overlaps_iff.1 hover).2⟩, hover⟩

/-! ## The ranges of the scans -/

/-- The range of an entry of `sso_ranges`, given the row of its object. -/
def slice_range (s : MetadataState) (e : StreamOffsetKey × (ℕ × ℕ)) : Option LiveRange :=
  (s.stream_set_objects.get e.1.object_id).map fun row =>
    ⟨e.1.start_offset, e.2.1, .streamSet, row.object⟩

def object_range (e : StreamOffsetKey × StreamObjectRow) : LiveRange :=
  ⟨e.1.start_offset, e.2.range.end_offset, .stream, e.2.object⟩

theorem order_slice_le (h : r.object_type = .streamSet) (h' : r'.object_type = .stream) :
    r.order ≤ r'.order ↔ ¬r'.start_offset < r.start_offset := by
  simp only [LiveRange.order, h, h', Prod.Lex.toLex_le_toLex]
  omega

theorem order_lt_iff (h : r.object_type = r'.object_type) :
    r.order < r'.order ↔ r.start_offset < r'.start_offset ∨
      r.start_offset = r'.start_offset ∧ r.object.object_id < r'.object.object_id := by
  simp [LiveRange.order, h, Prod.Lex.toLex_lt_toLex]

theorem merge_scans_eq (limit : ℕ) (slices : List (StreamOffsetKey × (ℕ × ℕ)))
    (objects : List (StreamOffsetKey × StreamObjectRow))
    (hlisted : ∀ e ∈ slices, ∃ row, s.stream_set_objects.get e.1.object_id = some row) :
    s.merge_scans limit (slices.map fun e => (e.1.start_offset, e.1.object_id)) objects =
      some ((((slices.filterMap (slice_range s)).merge (objects.map object_range)
        fun r r' => decide (r.order ≤ r'.order)).take limit).map (·.object)) := by
  -- The loop advances one of the scans per round, so the induction is on the rounds left.
  induction limit generalizing slices objects with
  | zero => simp [merge_scans]
  | succ limit ih =>
    cases slices with
    | nil =>
      cases objects with
      | nil => simp [merge_scans]
      | cons e objects =>
        have hrest := ih [] objects hlisted
        simp only [map_nil, filterMap_nil, nil_merge] at hrest
        simp [merge_scans, hrest, object_range]
    | cons e slices =>
      obtain ⟨row, hrow⟩ := hlisted e mem_cons_self
      have hlisted' : ∀ e ∈ slices, ∃ row, s.stream_set_objects.get e.1.object_id = some row :=
        fun e' he' => hlisted e' (mem_cons_of_mem _ he')
      have hrange : slice_range s e =
          some ⟨e.1.start_offset, e.2.1, .streamSet, row.object⟩ := by
        rw [slice_range, hrow]
        rfl
      cases objects with
      | nil =>
        have hrest := ih slices [] hlisted'
        simp only [map_nil, merge_right] at hrest
        simp [merge_scans, hrest, hrow, hrange]
      | cons e' objects =>
        have hle : LiveRange.order ⟨e.1.start_offset, e.2.1, .streamSet, row.object⟩ ≤
            (object_range e').order ↔ ¬e'.1.start_offset < e.1.start_offset :=
          order_slice_le rfl rfl
        rw [filterMap_cons_some hrange, map_cons, map_cons, cons_merge_cons,
          merge_scans]
        by_cases hlt : e'.1.start_offset < e.1.start_offset
        · have hrest := ih (e :: slices) objects hlisted
          rw [map_cons, filterMap_cons_some hrange] at hrest
          rw [if_pos hlt, hrest, if_neg fun h => hle.1 (of_decide_eq_true h) hlt]
          rfl
        · have hrest := ih slices (e' :: objects) hlisted'
          rw [map_cons] at hrest
          rw [if_neg hlt, hrow, if_pos (decide_eq_true (hle.2 hlt))]
          simp [hrest]

/-! ## Order -/

theorem slice_range_eq_some {e : StreamOffsetKey × (ℕ × ℕ)} :
    slice_range s e = some r ↔ ∃ row, s.stream_set_objects.get e.1.object_id = some row ∧
      r = ⟨e.1.start_offset, e.2.1, .streamSet, row.object⟩ := by
  rw [slice_range, Option.map_eq_some_iff]
  simp only [eq_comm]

theorem pairwise_slices (hs : s.Wf) : ((s.scan_slices sid a b).filterMap (slice_range s)).Pairwise
    fun r r' => r.order < r'.order := by
  rw [pairwise_filterMap]
  have hscan : (s.scan_slices sid a b).Pairwise _ :=
    (scan_pairwise s.sso_ranges sid).sublist
      (filter_sublist.trans (takeWhile_sublist _))
  refine hscan.imp fun {e e'} hlt r hr r' hr' => ?_
  obtain ⟨row, hrow, rfl⟩ := slice_range_eq_some.1 hr
  obtain ⟨row', hrow', rfl⟩ := slice_range_eq_some.1 hr'
  have hid := hs.objects.set_keyed _ row hrow
  have hid' := hs.objects.set_keyed _ row' hrow'
  rw [order_lt_iff (by rfl)]
  dsimp only
  rw [hid, hid']
  exact hlt

theorem pairwise_objects (hs : s.Wf) : ((s.scan_objects sid a b).map object_range).Pairwise
    fun r r' => r.order < r'.order := by
  rw [pairwise_map]
  have hscan : (s.scan_objects sid a b).Pairwise _ :=
    (scan_pairwise s.stream_objects sid).sublist
      (filter_sublist.trans (takeWhile_sublist _))
  refine hscan.imp_of_mem fun {e e'} he he' hlt => ?_
  have hid : e.2.object.object_id = e.1.object_id :=
    congrArg (·.object_id) (hs.objects.keyed _ _ ((mem_scan_objects hs).1 he).1)
  have hid' : e'.2.object.object_id = e'.1.object_id :=
    congrArg (·.object_id) (hs.objects.keyed _ _ ((mem_scan_objects hs).1 he').1)
  rw [order_lt_iff (by rfl), object_range, object_range]
  dsimp only
  rw [hid, hid']
  exact hlt

def window_ranges (s : MetadataState) (sid a b : ℕ) : List LiveRange :=
  ((s.scan_slices sid a b).filterMap (slice_range s)).merge
    ((s.scan_objects sid a b).map object_range) fun r r' => decide (r.order ≤ r'.order)

theorem window_ranges_pairwise (hs : s.Wf) :
    (window_ranges s sid a b).Pairwise fun r r' => r.order < r'.order := by
  refine pairwise_merge_lt (pairwise_slices hs) (pairwise_objects hs) ?_
  intro r hr r' hr' heq
  obtain ⟨e, -, he⟩ := mem_filterMap.1 hr
  obtain ⟨row, -, rfl⟩ := slice_range_eq_some.1 he
  obtain ⟨e', -, rfl⟩ := mem_map.1 hr'
  simp [LiveRange.order, object_range] at heq

/-! ## Rows and their index -/

/-- Every range of a live stream-set object has a size. -/
def Sized (s : MetadataState) : Prop :=
  ∀ id row, s.stream_set_objects.get id = some row →
    row.object.offset_ranges.length = row.range_sizes.length

theorem Sized.step (h : Sized s) (hs : s.Wf) (c : MetadataCommand) :
    Sized (step noop s c) := by
  rcases step_effect s c with hsame | ⟨-, -, heff⟩
  · rw [hsame]
    exact h
  cases heff.objectStep hs with
  | same _ hobjects => rwa [Sized, hobjects]
  | destroyed _ keys hsets => rwa [Sized, hsets]
  | committed p request now_ms hok =>
    intro id row hrow
    obtain ⟨data_time_ms, last_write_ms, hobjects⟩ := commit_objects hs hok
    rw [hobjects.sets] at hrow
    split_ifs at hrow
    · cases hrow
      simp [stream_set_object_row]
    · exact h id row hrow
  | compacted p request now_ms hok =>
    obtain ⟨last_write_ms, hobjects⟩ := compact_objects hs hok
    rwa [Sized, hobjects.sets]

theorem history_sized (log : List MetadataCommand) (i : ℕ) :
    Sized (history noop log i) := by
  have hboth : (history noop log i).Wf ∧ Sized (history noop log i) :=
    Run.after_invariant (P := fun s : MetadataState => s.Wf ∧ Sized s) ⟨Wf.empty, nofun⟩
      (fun s c hs => ⟨step_wf hs.1 c, hs.2.step hs.1 c⟩) i
  exact hboth.2

/-- What is listed under a key is the last range of the object that begins there. -/
theorem slice_at_eq_some {row : StreamSetObjectRow} {start id e : ℕ}
    (hsized : row.object.offset_ranges.length = row.range_sizes.length) :
    (∃ bytes, row.slice_at ⟨sid, start, id⟩ = some (e, bytes)) ↔
      (row.object.offset_ranges.reverse.find? fun range =>
        range.stream_id = sid ∧ range.start_offset = start) = some ⟨sid, start, e⟩ := by
  have hranges : row.object.offset_ranges.reverse = row.slices.reverse.map Prod.fst := by
    rw [map_reverse, StreamSetObjectRow.slices, map_fst_zip hsized.le]
  have hkey : (fun slice => decide (slice_key id slice = ⟨sid, start, id⟩)) =
      (fun range : StreamOffsetRange => decide (range.stream_id = sid ∧ range.start_offset = start)) ∘
        (Prod.fst : StreamOffsetRange × ℕ → StreamOffsetRange) := by
    funext slice
    simp [slice_key]
  rw [hranges, find?_map, StreamSetObjectRow.slice_at, hkey]
  cases hfind : row.slices.reverse.find? _ with
  | none => simp
  | some slice =>
    have hslice := find?_some hfind
    obtain ⟨⟨_, _, end_offset⟩, bytes⟩ := slice
    obtain ⟨rfl, rfl⟩ := of_decide_eq_true hslice
    simp

theorem mem_slices_iff (hs : s.Wf) (hsized : Sized s) :
    r ∈ (s.scan_slices sid a b).filterMap (slice_range s) ↔ r.object_type = .streamSet ∧
      r.IsLive s sid ∧ overlaps a b r.start_offset r.end_offset = true := by
  rw [mem_filterMap]
  constructor
  · rintro ⟨⟨⟨_, start, id⟩, v⟩, he, hr⟩
    obtain ⟨row, hrow, rfl⟩ := slice_range_eq_some.1 hr
    obtain ⟨hget, rfl, hover⟩ := mem_scan_slices.1 he
    have hid := hs.objects.set_keyed id row hrow
    rw [hs.objects.ranges, hrow] at hget
    refine ⟨rfl, ⟨row, ?_, rfl, ?_⟩, hover⟩
    · rw [hid]
      exact hrow
    · exact (slice_at_eq_some (hsized id row hrow)).1 ⟨v.2, hget⟩
  · rcases r with ⟨start, end_offset, object_type, object⟩
    rintro ⟨rfl, ⟨row, hrow, rfl, hrange⟩, hover⟩
    obtain ⟨bytes, hat⟩ := (slice_at_eq_some (hsized _ row hrow)).2 hrange
    refine ⟨(⟨sid, start, row.object.object_id⟩, (end_offset, bytes)), mem_scan_slices.2 ?_,
      slice_range_eq_some.2 ⟨row, hrow, rfl⟩⟩
    refine ⟨?_, rfl, hover⟩
    rw [hs.objects.ranges, hrow]
    exact hat

theorem mem_objects_iff (hs : s.Wf) :
    r ∈ (s.scan_objects sid a b).map object_range ↔ r.object_type = .stream ∧
      r.IsLive s sid ∧ overlaps a b r.start_offset r.end_offset = true := by
  rw [mem_map]
  constructor
  · rintro ⟨⟨⟨_, start, id⟩, row⟩, he, rfl⟩
    obtain ⟨hget, rfl, hover⟩ := (mem_scan_objects hs).1 he
    have hid : row.object.object_id = id := congrArg (·.object_id) (hs.objects.keyed _ row hget)
    refine ⟨rfl, ⟨row, ?_, rfl, rfl⟩, hover⟩
    rw [object_range, hid]
    exact hget
  · rcases r with ⟨start, end_offset, object_type, object⟩
    rintro ⟨rfl, ⟨row, hrow, rfl, rfl⟩, hover⟩
    exact ⟨(⟨sid, start, row.object.object_id⟩, row), (mem_scan_objects hs).2 ⟨hrow, rfl, hover⟩,
      rfl⟩

theorem windowRanges_window_ranges (hs : s.Wf) (hsized : Sized s) :
    WindowRanges s sid a b (window_ranges s sid a b) where
  sorted := window_ranges_pairwise hs
  all r := by
    rw [window_ranges, mem_merge, mem_slices_iff hs hsized, mem_objects_iff hs]
    cases r.object_type with
    | streamSet => simp
    | stream => simp

theorem get_objects_eq (hs : s.Wf) (limit : ℕ) :
    s.get_objects sid a b limit =
      some (((window_ranges s sid a b).take limit).map (·.object)) := by
  refine merge_scans_eq limit _ _ fun e he => ?_
  have hget := (mem_scan_slices.1 he).1
  rw [hs.objects.ranges] at hget
  obtain ⟨row, hrow, -⟩ := Option.bind_eq_some_iff.1 hget
  exact ⟨row, hrow⟩

/-! ## Coverage -/

section Coverage

variable {ranges : List LiveRange} {limit : ℕ}
variable (h : WindowRanges s sid a b ranges)

include h in
theorem WindowRanges.overlap (hr : r ∈ ranges) :
    a < r.end_offset ∧ r.start_offset < b :=
  overlaps_iff.1 ((h.all r).1 hr).2

include h in
theorem WindowRanges.mem_of_holds {offset : ℕ}
    (hlive : r.IsLive s sid) (hholds : r.Holds offset) (ha : a ≤ offset) (hb : offset < b) :
    r ∈ ranges :=
  (h.all r).2 ⟨hlive, overlaps_iff.2 ⟨ha.trans_lt hholds.2, hholds.1.trans_lt hb⟩⟩

theorem start_le_of_order (h : r.order < r'.order) : r.start_offset ≤ r'.start_offset := by
  rcases Prod.Lex.toLex_lt_toLex.1 h with hlt | ⟨heq, -⟩
  · exact hlt.le
  · exact heq.le

include h in
theorem WindowRanges.mem_take
    (hr : r ∈ ranges.take limit) (hr' : r' ∈ ranges) (hlt : r'.start_offset < r.start_offset) :
    r' ∈ ranges.take limit := by
  refine mem_take_of_not_rel h.sorted hr hr' fun hbefore => ?_
  exact absurd (start_le_of_order hbefore) (not_le.2 hlt)

def reach (ranges : List LiveRange) : ℕ := (ranges.map (·.end_offset)).foldr max 0

theorem lt_reach_iff {offset : ℕ} : offset < reach ranges ↔ ∃ r ∈ ranges, offset < r.end_offset := by
  induction ranges with
  | nil => simp [reach]
  | cons r ranges ih =>
    show offset < max r.end_offset (reach ranges) ↔ _
    rw [lt_max_iff, ih, exists_mem_cons_iff]

variable (hcovered : ∀ offset, a ≤ offset → offset < b →
  ∃ r : LiveRange, r.IsLive s sid ∧ r.Holds offset)
include h hcovered

/-- A gap below a range that is returned would be held by a range that begins before it. -/
theorem WindowRanges.coverUpTo :
    CoverUpTo (ranges.take limit) a (reach (ranges.take limit)) := by
  intro offset ha
  rw [lt_reach_iff]
  constructor
  · rintro ⟨r, hr, hholds⟩
    exact ⟨r, hr, hholds.2⟩
  · rintro ⟨r, hr, hend⟩
    by_cases hstart : r.start_offset ≤ offset
    · exact ⟨r, hr, hstart, hend⟩
    · have hover := h.overlap (mem_of_mem_take hr)
      obtain ⟨r', hlive, hholds⟩ := hcovered offset ha (by omega)
      have hmem := h.mem_of_holds hlive hholds ha (by omega)
      have hlt : r'.start_offset < r.start_offset := hholds.1.trans_lt (not_le.1 hstart)
      exact ⟨r', h.mem_take hr hmem hlt, hholds⟩

theorem WindowRanges.lt_reach (hab : a < b) (hlimit : 0 < limit) :
    a < reach (ranges.take limit) := by
  obtain ⟨r, hlive, hholds⟩ := hcovered a le_rfl hab
  have hmem := h.mem_of_holds hlive hholds le_rfl hab
  rw [lt_reach_iff]
  cases ranges with
  | nil => cases hmem
  | cons first rest =>
    obtain ⟨n, rfl⟩ := Nat.exists_eq_add_one_of_ne_zero hlimit.ne'
    exact ⟨first, mem_cons_self, (h.overlap mem_cons_self).1⟩

theorem WindowRanges.le_reach (hab : a < b) (hlimit : 0 < limit)
    (hshort : (ranges.take limit).length < limit) : b ≤ reach (ranges.take limit) := by
  have hall : ranges.take limit = ranges := by
    rw [length_take] at hshort
    exact take_of_length_le (by omega)
  by_contra hlt
  have hstart := h.lt_reach hcovered hab hlimit
  obtain ⟨r, hlive, hholds⟩ := hcovered (reach (ranges.take limit)) hstart.le (not_le.1 hlt)
  have hmem := h.mem_of_holds hlive hholds hstart.le (not_le.1 hlt)
  have hend : reach (ranges.take limit) < reach (ranges.take limit) := by
    refine lt_reach_iff.2 ⟨r, ?_, hholds.2⟩
    rw [hall]
    exact hmem
  exact lt_irrefl _ hend

end Coverage

/-! ## Runs -/

/-- The query returns the first `limit` of the live ranges that overlap the window, in order. If
those hold all of the window, what is returned holds one interval from its start on, and the whole
window unless the limit was met. -/
theorem get_objects_over_runs (log : List MetadataCommand) (i sid a b limit : ℕ) :
    ∃ ranges, WindowRanges (history noop log i) sid a b ranges ∧
      (history noop log i).get_objects sid a b limit =
        some ((ranges.take limit).map (·.object)) ∧
      (a < b → 0 < limit → (∀ offset, a ≤ offset → offset < b →
          ∃ r : LiveRange, r.IsLive (history noop log i) sid ∧ r.Holds offset) →
        ∃ reach, a < reach ∧ CoverUpTo (ranges.take limit) a reach ∧
          ((ranges.take limit).length < limit → b ≤ reach)) := by
  have hs : (history noop log i).Wf := history_wf log i
  have hranges : WindowRanges (history noop log i) sid a b _ :=
    windowRanges_window_ranges hs (history_sized log i)
  refine ⟨_, hranges, get_objects_eq hs limit, fun hab hlimit hcovered => ?_⟩
  exact ⟨_, hranges.lt_reach hcovered hab hlimit, hranges.coverUpTo hcovered,
    hranges.le_reach hcovered hab hlimit⟩

/-- A compaction that lists two ranges of one stream with the same start. -/
def doubled_range : List MetadataCommand :=
  [.registerNode 1 0 "a" 1 .empty "wal", .createStream ⟨1, 0⟩, .openStream ⟨1, 0⟩ 0 1,
    .commitStreamSetObject ⟨1, 0⟩ ⟨0, 100, 0, [⟨0, 1, 0, 10, 100⟩], [], []⟩ 100,
    .commitStreamSetObject ⟨1, 0⟩ ⟨1, 150, 0, [⟨0, 1, 0, 10, 100⟩, ⟨0, 1, 0, 5, 50⟩], [], [0]⟩ 200]

/-- The live object has a range that holds all of [5, 10), and the query finds nothing there. -/
theorem doubled_range_lost :
    (∃ row, (history 1000 doubled_range 5).stream_set_objects.get 1 = some row ∧
      ⟨0, 0, 10⟩ ∈ row.object.offset_ranges) ∧
    (history 1000 doubled_range 5).get_objects 0 5 10 1 = some [] := by
  refine ⟨⟨_, rfl, ?_⟩, ?_⟩
  · decide +kernel
  · decide +kernel

end PicoMq.Metadata
