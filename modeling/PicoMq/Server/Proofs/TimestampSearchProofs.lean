import PicoMq.Library.Proofs.SortedProofs
import PicoMq.Server.Proofs.ReadsProofs
import PicoMq.Server.Timestamps

/-!
# Proofs: the first record at or after a time

The first live record at or after the time is not below the offset that the search has come to.
-/

namespace PicoMq.Server

open List Metadata Wire

variable {codecs : Codecs} {log : RecordLog} {source : Source} {log_start : ℕ} {b : Batch Bytes}

/-! ## Batches of the log -/

@[simp] theorem last_offset_of_log_batch : (of_log_batch b).last_offset = b.last_offset := rfl

namespace RecordLog

variable {r : StreamRecord}

theorem pairwise_offset (log : RecordLog) :
    log.records.Pairwise fun r r' => r.offset < r'.offset := by
  have hrange := pairwise_lt_range (n := log.records.length)
  rw [← log.numbered] at hrange
  exact pairwise_map.1 hrange

theorem mem_stretch {start count : ℕ} :
    r ∈ (log.records.drop start).take count ↔
      r ∈ log.records ∧ start ≤ r.offset ∧ r.offset < start + count := by
  rw [mem_iff_getElem?]
  constructor
  · rintro ⟨i, hi⟩
    rw [getElem?_take] at hi
    split_ifs at hi with hlt
    rw [getElem?_drop, log.getElem?_eq_some_iff] at hi
    obtain ⟨hr, hoffset⟩ := hi
    exact ⟨hr, by omega, by omega⟩
  · rintro ⟨hr, hlo, hhi⟩
    refine ⟨r.offset - start, ?_⟩
    rw [getElem?_take_of_lt (by omega), getElem?_drop, log.getElem?_eq_some_iff]
    exact ⟨hr, by omega⟩

theorem mem_live : r ∈ log.live log_start ↔ r ∈ log.records ∧ log_start ≤ r.offset := by
  rw [live, mem_filter, decide_eq_true_eq]

theorem mem_live_stretch (b : Batch Bytes) :
    r ∈ ((log.records.drop b.base_offset).take b.record_count).filter
        (fun r => log_start ≤ r.offset) ↔
      r ∈ log.live log_start ∧ InBatch b r := by
  rw [mem_filter, mem_stretch, decide_eq_true_eq, mem_live, InBatch, Batch.last_offset]
  tauto

theorem eq_of_offset {r r' : StreamRecord} (hr : r ∈ log.records) (hr' : r' ∈ log.records)
    (h : r.offset = r'.offset) : r = r' := by
  have hat := log.getElem?_eq_some_iff.2 ⟨hr, rfl⟩
  have hat' := log.getElem?_eq_some_iff.2 ⟨hr', rfl⟩
  rw [h, hat'] at hat
  exact (Option.some.inj hat).symm

theorem offset_lt (hr : r ∈ log.records) : r.offset < log.records.length :=
  (List.getElem?_eq_some_iff.1 (log.getElem?_eq_some_iff.2 ⟨hr, rfl⟩)).1

theorem Holds.exists_max_timestamp (h : log.Holds codecs b) :
    ∃ newest, max_timestamp (of_log_batch b) = .ok newest := by
  have hdecodes := h.decodes
  rw [decode_batches] at hdecodes
  cases hitems : items (decode_batch codecs) b.payload with
  | error e => rw [hitems] at hdecodes; cases hdecodes
  | ok groups =>
    obtain ⟨headers, hheaders⟩ : ∃ headers, batch_headers b.payload = .ok headers := by
      refine exists_items_of_items (fun bytes a n hstep => ?_) hitems
      obtain ⟨header, hheader, hstep⟩ := Except.bind_eq_ok_iff.1 hstep
      obtain ⟨-, -, hstep⟩ := Except.bind_eq_ok_iff.1 hstep
      obtain ⟨records, -, hstep⟩ := Except.bind_eq_ok_iff.1 hstep
      cases hstep
      exact ⟨header, by rw [Except.mapError_eq_ok_iff.1 hheader]; rfl⟩
    refine ⟨headers.foldl (fun newest header => max newest header.max_timestamp_ms) (-2 ^ 63), ?_⟩
    rw [max_timestamp, of_log_batch, hheaders]
    rfl

theorem Holds.live_records (h : log.Holds codecs b) :
    live_records codecs (of_log_batch b) log_start =
      .ok (((log.records.drop b.base_offset).take b.record_count).filter fun r =>
        log_start ≤ r.offset) := by
  rw [Server.live_records, of_log_batch, h.decodes]
  rfl

end RecordLog

/-! ## What is passed over -/

variable {timestamp_ms : ℤ}

section

variable (log source log_start timestamp_ms)

/-- The first record at or after the time is not below the offset, and no header hides it. -/
def Ahead (offset : ℕ) : Prop :=
  ∀ first ∈ log.first_from log_start timestamp_ms, offset ≤ first.offset ∧
    ∀ b, source.Has log_start log.records.length b → InBatch b first → HeaderReaches timestamp_ms b

/-- The first record at or after the time; if there is none, the first one is not below `next`. -/
def Answers (next : ℕ) : Option StreamRecord → Prop
  | some r => log.first_from log_start timestamp_ms = some r
  | none => Ahead log source log_start timestamp_ms next

/-- What is found from `cursor` on is in a batch whose header reaches the time, and it is the first
such record unless that is below `cursor` or hidden by a header. -/
structure Searched (cursor next : ℕ) (found : Option StreamRecord) : Prop where
  held : ∀ r ∈ found, ∃ b, source.Has log_start log.records.length b ∧ cursor < b.last_offset ∧
    InBatch b r ∧ HeaderReaches timestamp_ms b
  first : Ahead log source log_start timestamp_ms cursor →
    Answers log source log_start timestamp_ms next found

/-- The search by halving passes over nothing but the batches that it takes for too old. If all reads
cut the log alike, it passes over all of those, and stops between two batches. -/
structure Stopped (batches : List StreamBatch) (low high cursor : ℕ) : Prop where
  least : ∀ offset, low ≤ offset → PassesOnly timestamp_ms batches offset → cursor ≤ offset
  cuts : OneCut log source log_start → Cuts log source log_start low →
    Cuts log source log_start high → low ≤ max high log_start →
    Cuts log source log_start cursor ∧ low ≤ cursor ∧ PassesOnly timestamp_ms batches cursor

end

theorem first_from_le {first r : StreamRecord}
    (hfirst : log.first_from log_start timestamp_ms = some first) (hr : r ∈ log.live log_start)
    (hreaches : timestamp_ms ≤ r.record.timestamp_ms) : first.offset ≤ r.offset := by
  have hlt := log.pairwise_offset.filter fun r => log_start ≤ r.offset
  exact le_of_find?_eq_some (hlt.imp le_of_lt) hfirst hr (decide_eq_true hreaches)

theorem first_from_eq_none {offset : ℕ} (h : Ahead log source log_start timestamp_ms offset)
    (hend : log.records.length ≤ offset) : log.first_from log_start timestamp_ms = none := by
  cases hfirst : log.first_from log_start timestamp_ms with
  | none => rfl
  | some first =>
    have hlt := RecordLog.offset_lt (RecordLog.mem_live.1 (mem_of_find?_eq_some hfirst)).1
    exact absurd (hend.trans (h first hfirst).1) (not_le.2 hlt)

/-! ## One batch, one read -/

theorem foldl_max_last {l : List (Batch Bytes)} {n : ℕ} (hl : Contiguous n l) (start : ℕ)
    (hn : n ≤ start) : (l.map of_log_batch).foldl (fun next b => max next b.last_offset) start =
      max start (l.foldl (fun _ b => b.last_offset) n) := by
  induction l generalizing n start with
  | nil => exact (max_eq_left hn).symm
  | cons b l ih =>
    obtain ⟨-, -, hl⟩ := hl
    have hle := BatchLog.le_foldl_last hl
    rw [map_cons, foldl_cons, last_offset_of_log_batch, ih hl _ (le_max_right ..), foldl_cons,
      max_assoc, max_eq_right hle]

theorem find_in_batch {cursor : ℕ} (hbase : b.base_offset ≤ cursor)
    (hahead : Ahead log source log_start timestamp_ms cursor) :
    Answers log source log_start timestamp_ms b.last_offset
      ((((log.records.drop b.base_offset).take b.record_count).filter fun r =>
        log_start ≤ r.offset).find? fun r => timestamp_ms ≤ r.record.timestamp_ms) := by
  cases hfind : (((log.records.drop b.base_offset).take b.record_count).filter fun r =>
      log_start ≤ r.offset).find? fun r => timestamp_ms ≤ r.record.timestamp_ms with
  | some r =>
    obtain ⟨hr, -, hrlast⟩ := (RecordLog.mem_live_stretch b).1 (mem_of_find?_eq_some hfind)
    have hreaches := find?_some hfind
    rw [Answers]
    cases hfirst : log.first_from log_start timestamp_ms with
    | none => exact absurd hreaches (find?_eq_none.1 hfirst r hr)
    | some first =>
      have hmem := mem_of_find?_eq_some hfirst
      have hle := first_from_le hfirst hr (of_decide_eq_true hreaches)
      have hin := (RecordLog.mem_live_stretch b).2
        ⟨hmem, le_trans hbase (hahead first hfirst).1, by omega⟩
      have hsorted : (((log.records.drop b.base_offset).take b.record_count).filter fun r =>
          log_start ≤ r.offset).Pairwise fun r r' => r.offset ≤ r'.offset :=
        ((log.pairwise_offset.drop).take).filter _ |>.imp le_of_lt
      have hfound := find?_some hfirst
      have hge := le_of_find?_eq_some hsorted hfind hin hfound
      rw [RecordLog.eq_of_offset (RecordLog.mem_live.1 hmem).1 (RecordLog.mem_live.1 hr).1
        (le_antisymm hle hge)]
  | none =>
    intro first hfirst
    obtain ⟨hle, hheader⟩ := hahead first hfirst
    refine ⟨not_lt.1 fun hin => ?_, hheader⟩
    have hmem := (RecordLog.mem_live_stretch b).2
      ⟨mem_of_find?_eq_some hfirst, le_trans hbase hle, hin⟩
    have hfound := find?_some hfirst
    exact find?_eq_none.1 hfind first hmem hfound

theorem exists_read_batches {cursor : ℕ}
    (hserves : source.Serves codecs log log_start log.records.length) (hstart : log_start ≤ cursor)
    (hend : cursor < log.records.length) (max_bytes : ℕ) :
    ∃ b rest, (read_batches source log.records.length cursor max_bytes).batches =
        (b :: rest).map of_log_batch ∧
      (read_batches source log.records.length cursor max_bytes).next_offset =
        max cursor ((b :: rest).foldl (fun _ b => b.last_offset) b.base_offset) ∧
      b.base_offset ≤ cursor ∧ cursor < b.last_offset ∧ Contiguous b.base_offset (b :: rest) ∧
      ∀ b' ∈ b :: rest, source.Has log_start log.records.length b' := by
  obtain ⟨l, hl, ⟨b, rest, rfl, hbase, hlast, hrun⟩, hhas⟩ :=
    exists_batches_from hserves hstart hend (limit max_bytes)
  refine ⟨b, rest, ?_, ?_, hbase, hlast, hrun, hhas⟩
  · rw [read_batches, if_neg (not_le.2 hend), hl]
  · rw [read_batches, if_neg (not_le.2 hend), hl]
    exact foldl_max_last hrun cursor hbase

section Loops

variable {cursor next : ℕ}

theorem Searched.after {cursor' : ℕ} {found : Option StreamRecord}
    (h : Searched log source log_start timestamp_ms cursor' next found) (hle : cursor ≤ cursor')
    (hahead : Ahead log source log_start timestamp_ms cursor →
      Ahead log source log_start timestamp_ms cursor') :
    Searched log source log_start timestamp_ms cursor next found where
  held r hr := by
    obtain ⟨b, hb, hlast, hin⟩ := h.held r hr
    exact ⟨b, hb, by omega, hin⟩
  first h' := h.first (hahead h')

theorem searched_none (hle : next ≤ cursor) :
    Searched log source log_start timestamp_ms cursor next none where
  held := nofun
  first h first hfirst := ⟨hle.trans (h first hfirst).1, (h first hfirst).2⟩

theorem OneCut.cuts (h : OneCut log source log_start)
    (hb : source.Has log_start log.records.length b) :
    Cuts log source log_start b.base_offset ∧ Cuts log source log_start b.last_offset := by
  have hle : ∀ b : Batch Bytes, b.base_offset ≤ b.last_offset := fun b => Nat.le_add_right ..
  refine ⟨fun b' hb' => ?_, fun b' hb' => ?_⟩
  all_goals
    have hsame := h b b' hb hb'
    have hle := hle b
    by_cases heq : b = b'
    · subst heq
      omega
    · simp only [heq, imp_false] at hsame
      omega

variable (hserves : source.Serves codecs log log_start log.records.length) (timestamp_ms)
include hserves

theorem find_in_batches_spec {l : List (Batch Bytes)} {n : ℕ} (hl : Contiguous n l)
    (hhas : ∀ b ∈ l, source.Has log_start log.records.length b) (hn : n ≤ cursor)
    (hcursor : ∀ b ∈ l.head?, cursor < b.last_offset) :
    ∃ found, find_in_batches codecs ⟨log_start, log.records.length⟩ timestamp_ms
        (l.map of_log_batch) = .ok found ∧ Searched log source log_start timestamp_ms cursor
          (max cursor (l.foldl (fun _ b => b.last_offset) n)) found := by
  induction l generalizing n cursor with
  | nil => exact ⟨none, rfl, searched_none (max_le le_rfl hn)⟩
  | cons b l ih =>
    obtain ⟨rfl, -, hl⟩ := hl
    have hlast := hcursor b rfl
    have hb := hhas b (mem_cons_self ..)
    have hholds := hserves.holds hb
    obtain ⟨newest, hnewest⟩ := hholds.exists_max_timestamp
    obtain ⟨found, heq, hsearched⟩ := ih hl (fun b' hb' => hhas b' (mem_cons_of_mem _ hb')) le_rfl
      fun b' hb' => (BatchLog.le_base_offset hl (mem_of_mem_head? hb')).trans_lt
        (BatchLog.base_lt_last hl (mem_of_mem_head? hb'))
    rw [max_eq_right (BatchLog.le_foldl_last hl)] at hsearched
    rw [map_cons, find_in_batches, hnewest, foldl_cons,
      max_eq_right (hlast.le.trans (BatchLog.le_foldl_last hl))]
    simp only [bind, Except.bind]
    by_cases hlt : newest < timestamp_ms
    · rw [if_pos hlt]
      refine ⟨found, heq, hsearched.after hlast.le fun hahead first hfirst => ?_⟩
      obtain ⟨hle, hheader⟩ := hahead first hfirst
      refine ⟨not_lt.1 fun hlast => ?_, hheader⟩
      have hreaches := hheader b hb ⟨le_trans hn hle, hlast⟩ newest hnewest
      omega
    · rw [if_neg hlt, hholds.live_records]
      dsimp only
      have hfound : Ahead log source log_start timestamp_ms cursor → _ := find_in_batch hn
      cases hfind : (((log.records.drop b.base_offset).take b.record_count).filter fun r =>
          log_start ≤ r.offset).find? fun r => timestamp_ms ≤ r.record.timestamp_ms with
      | none =>
        rw [hfind] at hfound
        exact ⟨found, heq, hsearched.after hlast.le hfound⟩
      | some r =>
        rw [hfind] at hfound
        have hin := ((RecordLog.mem_live_stretch b).1 (mem_of_find?_eq_some hfind)).2
        refine ⟨some r, rfl, fun r' hr' => ⟨b, hb, hlast, ?_⟩, hfound⟩
        cases hr'
        refine ⟨hin, fun newest' hnewest' => ?_⟩
        rw [hnewest] at hnewest'
        cases hnewest'
        omega

theorem find_from_spec {rounds : ℕ} (hrounds : log.records.length - cursor ≤ rounds)
    (hstart : log_start ≤ cursor) :
    ∃ found, find_from codecs source ⟨log_start, log.records.length⟩ timestamp_ms rounds cursor =
        .ok found ∧
      Searched log source log_start timestamp_ms cursor log.records.length found := by
  induction rounds generalizing cursor with
  | zero => exact ⟨none, rfl, searched_none (by omega)⟩
  | succ rounds ih =>
    rw [find_from]
    by_cases hend : cursor < log.records.length
    · rw [if_pos hend]
      obtain ⟨b, rest, hbatches, hnext, hbase, hlast, hrun, hhas⟩ :=
        exists_read_batches hserves hstart hend READ_BYTES
      have hprogress := BatchLog.last_le_foldl hrun (mem_cons_self ..)
      obtain ⟨_ | r, hfound, hsearched⟩ := find_in_batches_spec timestamp_ms hserves hrun hhas hbase
        fun b' hb' => by cases hb'; exact hlast
      all_goals
        dsimp only
        rw [hbatches, if_neg (by simp), hnext, hfound]
      · have hleft : log.records.length -
            max cursor ((b :: rest).foldl (fun _ b => b.last_offset) b.base_offset) ≤ rounds := by
          omega
        obtain ⟨found, hrest, hsearched'⟩ := ih hleft (hstart.trans (le_max_left ..))
        exact ⟨found, hrest, hsearched'.after (le_max_left ..) hsearched.first⟩
      · exact ⟨some r, rfl, hsearched.held, hsearched.first⟩
    · rw [if_neg hend]
      exact ⟨none, rfl, searched_none (not_lt.1 hend)⟩

theorem first_batch_reaching_spec {floor low high : ℕ} (rounds : ℕ)
    (hhigh : high ≤ log.records.length) (hstart : log_start ≤ floor) (hfloor : floor ≤ low) :
    ∃ cursor, first_batch_reaching (probe_at source log.records.length) floor timestamp_ms rounds low
        high = .ok cursor ∧ floor ≤ cursor ∧ Stopped log source log_start timestamp_ms
          (probed (probe_at source log.records.length) timestamp_ms rounds low high) low high
          cursor := by
  have hstop : ∀ low high, floor ≤ low → ∃ cursor,
      (.ok (max (min low high) floor) : Except BatchError ℕ) = .ok cursor ∧ floor ≤ cursor ∧
        Stopped log source log_start timestamp_ms [] low high cursor := by
    intro low high hfloor
    refine ⟨_, rfl, le_max_right .., fun offset hoffset _ => by omega, fun _ hcut _ hle => ?_⟩
    have hlow : max (min low high) floor = low := by omega
    rw [hlow]
    exact ⟨hcut, le_rfl, nofun⟩
  induction rounds generalizing low high with
  | zero => exact hstop low high hfloor
  | succ rounds ih =>
    rw [first_batch_reaching, probed]
    by_cases hroom : low < high
    · rw [if_pos hroom, if_pos hroom]
      have hmiddle : log_start ≤ low + (high - low) / 2 := by omega
      obtain ⟨b, rest, hbatches, -, hbase, hlast, -, hhas⟩ :=
        exists_read_batches hserves hmiddle (by omega) PROBE_BYTES
      have hprobe : probe_at source log.records.length (low + (high - low) / 2) =
          some (of_log_batch b) := by
        rw [probe_at, hbatches, map_cons, head?_cons]
      have hb := hhas b (mem_cons_self ..)
      obtain ⟨newest, hnewest⟩ := (hserves.holds hb).exists_max_timestamp
      rw [hprobe]
      simp only [bind, Except.bind, hnewest]
      by_cases hold : newest < timestamp_ms
      · have hlow : newest < timestamp_ms ∧ low < (of_log_batch b).last_offset :=
          ⟨hold, lt_of_le_of_lt (Nat.le_add_right ..) hlast⟩
        rw [if_pos hlow, if_pos hlow]
        obtain ⟨cursor, heq, hle, hstopped⟩ := ih hhigh (hfloor.trans hlow.2.le)
        refine ⟨cursor, heq, hle, fun offset _ hpasses => ?_, fun hone _ hcut _ => ?_⟩
        · obtain ⟨hfirst, hrest⟩ := forall_mem_cons.1 hpasses
          exact hstopped.least offset (hfirst newest hnewest hold) hrest
        · have hend : b.last_offset ≤ max high log_start := by
            have hside := hcut b hb
            omega
          obtain ⟨hcut, hpast, hrest⟩ := hstopped.cuts hone (hone.cuts hb).2 hcut hend
          exact ⟨hcut, hlow.2.le.trans hpast, forall_mem_cons.2 ⟨fun _ _ _ => hpast, hrest⟩⟩
      · have hshrink : timestamp_ms ≤ newest ∧ (of_log_batch b).base_offset < high :=
          ⟨not_lt.1 hold, lt_of_le_of_lt hbase (by omega)⟩
        rw [if_neg fun h => hold h.1, if_pos hshrink, if_neg fun h => hold h.1, if_pos hshrink]
        obtain ⟨cursor, heq, hle, hstopped⟩ := ih (hshrink.2.le.trans hhigh) hfloor
        refine ⟨cursor, heq, hle, fun offset hoffset hpasses => ?_, fun hone hcut _ _ => ?_⟩
        · exact hstopped.least offset hoffset (forall_mem_cons.1 hpasses).2
        · have hlow : low ≤ max b.base_offset log_start := by
            have hside := hcut b hb
            omega
          obtain ⟨hcut, hpast, hrest⟩ := hstopped.cuts hone hcut (hone.cuts hb).1 hlow
          refine ⟨hcut, hpast, forall_mem_cons.2 ⟨fun newest' hnewest' hlt => ?_, hrest⟩⟩
          rw [hnewest] at hnewest'
          cases hnewest'
          exact absurd hlt hold
    · rw [if_neg hroom, if_neg hroom]
      exact hstop low high hfloor

end Loops

/-! ## The lookup -/

/-- If the batches and objects do not hide the first live record at or after the time, the lookup
returns it; if there is none, the lookup returns nothing. Where all reads cut the log alike, the
lookup is right only then. -/
theorem record_at_or_after_finds_first (codecs : Codecs) (log : RecordLog) (source : Source)
    (log_start rounds : ℕ) (spans : List ObjectSpan) (timestamp_ms : ℤ)
    (hserves : source.Serves codecs log log_start log.records.length)
    (hrounds : log.records.length - log_start ≤ rounds) :
    (SearchFinds log source log_start rounds spans timestamp_ms →
      record_at_or_after codecs source ⟨log_start, log.records.length⟩ rounds spans timestamp_ms =
        .ok (log.first_from log_start timestamp_ms)) ∧
    (OneCut log source log_start → Cuts log source log_start (written_from spans timestamp_ms) →
      record_at_or_after codecs source ⟨log_start, log.records.length⟩ rounds spans timestamp_ms =
        .ok (log.first_from log_start timestamp_ms) →
      SearchFinds log source log_start rounds spans timestamp_ms) := by
  obtain ⟨cursor, hcursor, hle, hstopped⟩ := first_batch_reaching_spec timestamp_ms hserves rounds
    (le_refl log.records.length) (le_max_right (written_from spans timestamp_ms) _) le_rfl
  have hlow : log_start ≤ cursor := le_trans (le_max_right ..) hle
  obtain ⟨found, hfound, hsearched⟩ := find_from_spec timestamp_ms hserves
    ((Nat.sub_le_sub_left hlow log.records.length).trans hrounds) hlow
  have heq : record_at_or_after codecs source ⟨log_start, log.records.length⟩ rounds spans
      timestamp_ms = .ok found := by
    rw [record_at_or_after]
    dsimp only
    rw [hcursor]
    exact hfound
  rw [heq]
  constructor
  · intro hfinds
    have hfirst := hsearched.first fun first hfirst => by
      obtain ⟨hheader, hprobes, hobjects⟩ := hfinds first hfirst
      have hlive := (RecordLog.mem_live.1 (List.mem_of_find?_eq_some hfirst)).2
      exact ⟨hstopped.least _ (max_le hobjects hlive) hprobes, hheader⟩
    cases found with
    | none => rw [first_from_eq_none hfirst le_rfl]
    | some r => rw [hfirst]
  · intro hone hcut hfirst first hmem
    cases hfirst
    obtain ⟨b, hb, hlast, ⟨hbase, hin⟩, hreaches⟩ := hsearched.held first hmem
    have hlive := (RecordLog.mem_live.1 (List.mem_of_find?_eq_some hmem)).2
    have hend := (hserves.holds hb).last_le
    have hfloor : Cuts log source log_start (max (written_from spans timestamp_ms) log_start) :=
      fun b hb => by
        have hside := hcut b hb
        omega
    -- the search stops between two batches, so not above a record of the batch that is read there
    obtain ⟨hcut, -, hpasses⟩ := hstopped.cuts hone hfloor
      (fun b hb => .inr (hserves.holds hb).last_le) (by omega)
    have hside := hcut b hb
    have hbelow : cursor ≤ first.offset := by omega
    refine ⟨fun b' hb' hin' => ?_, fun batch hbatch newest hnewest hlt => ?_, by omega⟩
    · obtain ⟨hbase', hin'⟩ := hin'
      rw [← hone b b' hb hb' (by omega) (by omega)]
      exact hreaches
    · exact (hpasses batch hbatch newest hnewest hlt).trans hbelow

/-- The headers of the two batches are 30 and 20. -/
theorem timed_max_timestamp {b : Batch Bytes} (hb : (uncached timed_batches).Has 0 3 b) :
    max_timestamp (of_log_batch b) = .ok (if b.base_offset = 0 then 30 else 20) := by
  have hall : ∀ b ∈ timed_batches.batches,
      max_timestamp (of_log_batch b) = .ok (if b.base_offset = 0 then 30 else 20) := by
    decide +kernel
  exact hall b (mem_batches_of_has hb)

/-- The first of the times 10, 30 and 20 that is 15 or more is in the middle of a batch. -/
theorem record_at_or_after_finds_second_record :
    SearchFinds timed_log (uncached timed_batches) 0 3 [] 15 ∧
      OneCut timed_log (uncached timed_batches) 0 ∧
      record_at_or_after plain_codecs (uncached timed_batches) ⟨0, 3⟩ 3 [] 15 =
        .ok (some ⟨1, { timestamp_ms := 30 }⟩) := by
  have hone : ∀ b ∈ timed_batches.batches, ∀ b' ∈ timed_batches.batches,
      b.base_offset < b'.last_offset → b'.base_offset < b.last_offset → b = b' := by decide +kernel
  have hfinds : SearchFinds timed_log (uncached timed_batches) 0 3 [] 15 := by
    refine fun first hfirst => ⟨fun b hb _ newest hnewest => ?_, ?_, Nat.zero_le _⟩
    · rw [timed_max_timestamp hb] at hnewest
      cases hnewest
      split_ifs <;> decide
    · have hprobed : ∀ batch ∈ probed (probe_at (uncached timed_batches) 3) 15 3 0 3,
          (max_timestamp batch).toOption.any fun newest => 15 ≤ newest := by decide +kernel
      intro batch hbatch newest hnewest hlt
      have hreaches := hprobed batch hbatch
      rw [hnewest] at hreaches
      exact absurd (of_decide_eq_true hreaches) (not_le.2 hlt)
  exact ⟨hfinds, fun b b' hb hb' => hone b (mem_batches_of_has hb) b' (mem_batches_of_has hb'),
    (record_at_or_after_finds_first plain_codecs timed_log _ 0 3 [] 15 timed_serves (by decide)).1
      hfinds⟩

/-- Records with the times 10, 0 and 0: the search for 5 probes the second and the third. -/
theorem record_at_or_after_misses_record :
    let produced := [client_batch 1 56 10 10 [3, 7, 30, 221] (plain_record 0 0),
      client_batch 1 56 0 0 [52, 187, 146, 115] (plain_record 0 0),
      client_batch 1 56 0 0 [52, 187, 146, 115] (plain_record 0 0)].foldlM
        (fun log payload => produce plain_codecs log payload 0) BatchLog.empty
    (produced >>= fun log => read plain_codecs log 3 3 0 0 0).map (fun read => read.records.map
        fun record => (record.offset, record.record.timestamp_ms)) = .ok [(0, 10), (1, 0), (2, 0)] ∧
      (produced >>= fun log => record_at_or_after plain_codecs (uncached log) ⟨0, log.next_offset⟩ 3
        (({} : MetadataState).object_spans 0) 5) = .ok none := by
  decide +kernel

end PicoMq.Server
