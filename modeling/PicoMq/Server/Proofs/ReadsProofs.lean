import PicoMq.Server.Proofs.ProduceProofs
import PicoMq.Server.Proofs.TailCacheProofs
import PicoMq.Server.Reads

/-!
# Proofs: reading a log to its end

The batches of a read are a run that begins with the one that holds its start, whether they come
from the cache or from the stream.
-/

namespace PicoMq.Server

open List Metadata Wire

variable {codecs : Codecs} {log : RecordLog} {source : Source}
  {start start_offset end_offset max_bytes max_records : ℕ}
variable {r : StreamRecord}
variable (h : source.Serves codecs log start_offset end_offset)

/-! ## The batches of a read -/

theorem TailCache.Built.contiguous {ρ : Type} {cache : TailCache ρ} (h : cache.Built) :
    ∃ n, Contiguous n cache.recent := by
  induction h with
  | reset => exact ⟨0, trivial⟩
  | append _ hbatches ih => exact (TailCache.record_append_spec ih hbatches).1

theorem contiguous_with_bytes {n : ℕ} {l : List (Batch (Payload UInt8))} (h : Contiguous n l) :
    Contiguous n (l.map with_bytes) := by
  induction l generalizing n with
  | nil => trivial
  | cons b l ih =>
    obtain ⟨hbase, hpos, hl⟩ := h
    exact ⟨hbase, hpos, ih hl⟩

include h in
theorem Source.Serves.holds {b : Batch Bytes}
    (hb : source.Has start_offset end_offset b) : log.Holds codecs b := by
  rcases hb with ⟨cached, hcached, rfl⟩ | ⟨start, max_bytes, hstart, hend, hb⟩
  · exact h.cached cached hcached
  · obtain ⟨first, rest, hfetch, -, -, -, hholds⟩ := h.fetched start max_bytes hstart hend
    rw [hfetch] at hb
    exact hholds b hb

/-- A run of batches whose first one holds `start`. -/
def StartsIn (start : ℕ) (l : List (Batch Bytes)) : Prop :=
  ∃ b rest, l = b :: rest ∧ b.base_offset ≤ start ∧ start < b.last_offset ∧
    Contiguous b.base_offset (b :: rest)

theorem startsIn_cached {cached : List (Batch (Payload UInt8))} (hbuilt : source.cache.Built)
    (h : source.cache.tail_batches start = some cached) (hend : start < end_offset)
    (max_bytes : ℕ) :
    StartsIn start ((cut_to_limits end_offset max_bytes cached 0 true).map with_bytes) := by
  obtain ⟨b, rest, rfl, hbase, hlast, hrun⟩ := exists_cons_of_tail_batches hbuilt.contiguous h
  obtain ⟨hlead, -⟩ := cut_to_limits_prefix end_offset max_bytes (b :: rest) 0 true
  -- the first batch is in, whatever its size
  have hcut := contiguous_with_bytes (BatchLog.contiguous_of_prefix hrun hlead)
  rw [cut_to_limits, if_neg (by omega), if_neg (by simp)] at hcut ⊢
  exact ⟨with_bytes b, _, rfl, hbase, hlast, hcut⟩

include h in
theorem exists_batches_from
    (hstart : start_offset ≤ start) (hend : start < end_offset) (max_bytes : ℕ) :
    ∃ l, batches_from source start end_offset max_bytes = l.map of_log_batch ∧
      StartsIn start l ∧ ∀ b ∈ l, source.Has start_offset end_offset b := by
  rw [batches_from]
  cases hcached : source.cache.tail_batches start with
  | none =>
    obtain ⟨b, rest, hfetch, hbase, hlast, hrun, -⟩ := h.fetched start max_bytes hstart hend
    refine ⟨b :: rest, ?_, ⟨b, rest, rfl, hbase, hlast, hrun⟩, fun b' hb' => ?_⟩
    · dsimp only
      rw [hfetch]
    · rw [← hfetch] at hb'
      exact .inr ⟨start, max_bytes, hstart, hend, hb'⟩
  | some cached =>
    refine ⟨_, ?_, startsIn_cached h.built hcached hend max_bytes, fun b hb => ?_⟩
    · dsimp only
      rw [map_map]
      rfl
    · obtain ⟨b', hb', rfl⟩ := mem_map.1 hb
      obtain ⟨hlead, -⟩ := cut_to_limits_prefix end_offset max_bytes cached 0 true
      exact .inl ⟨b', (mem_of_mem_tail_batches hcached (hlead.subset hb')).1, rfl⟩

/-! ## What a read returns -/

theorem RecordLog.getElem?_eq_some_iff (log : RecordLog) {i : ℕ} :
    log.records[i]? = some r ↔ r ∈ log.records ∧ r.offset = i := by
  have hoffset : ∀ (j : ℕ) (hj : j < log.records.length), log.records[j].offset = j := by
    intro j hj
    have hmap := getElem_of_eq log.numbered (i := j) (by rwa [length_map])
    rwa [getElem_map, getElem_range] at hmap
  constructor
  · intro h
    obtain ⟨hi, rfl⟩ := List.getElem?_eq_some_iff.1 h
    exact ⟨List.getElem_mem hi, hoffset i hi⟩
  · rintro ⟨hr, rfl⟩
    obtain ⟨j, hj, rfl⟩ := getElem_of_mem hr
    rw [hoffset j hj]
    exact getElem?_eq_getElem hj

theorem RecordLog.eq_stretch (log : RecordLog) {l : List StreamRecord}
    (hmem : ∀ r ∈ l, r ∈ log.records)
    (hoffsets : l.map StreamRecord.offset = range' start l.length) :
    l = (log.records.drop start).take l.length := by
  refine ext_getElem? fun i => ?_
  by_cases hi : i < l.length
  · have hoffset : l[i].offset = start + i := by
      have hmap := getElem_of_eq hoffsets (i := i) (by rwa [length_map])
      rwa [getElem_map, getElem_range', Nat.one_mul] at hmap
    rw [getElem?_take_of_lt hi, getElem?_drop,
      log.getElem?_eq_some_iff.2 ⟨hmem _ (getElem_mem hi), hoffset⟩]
    exact getElem?_eq_getElem hi
  · rw [getElem?_eq_none (not_lt.1 hi), getElem?_take, if_neg hi]

theorem RecordLog.Holds.decodes_offsets {b : Batch Bytes} (h : log.Holds codecs b) :
    Decodes codecs (· ∈ log.records) b := by
  have hle := h.last_le
  unfold Batch.last_offset at hle
  refine ⟨_, h.decodes, ?_, fun r hr => mem_of_mem_drop (mem_of_mem_take hr)⟩
  rw [map_take, map_drop, log.numbered, range_eq_range', drop_range',
    take_range'_of_length_ge (by omega), Nat.zero_add, Nat.mul_one]

include h in
/-- One read returns the stretch from its start to the offset it returns, and something if it can.
-/
theorem read_from_spec
    (hstart : start_offset ≤ start) (hend : start ≤ end_offset) (max_bytes max_records : ℕ) :
    ∃ read, read_from codecs source end_offset start max_bytes max_records = .ok read ∧
      read.records = (log.records.drop start).take read.records.length ∧
      read.next_offset = start + read.records.length ∧ read.next_offset ≤ end_offset ∧
      (start < end_offset → read.records ≠ []) ∧
      (read.up_to_date = true ↔ read.next_offset = end_offset) := by
  rw [read_from, if_neg (not_lt.2 hend)]
  by_cases hdone : start = end_offset
  · rw [if_pos hdone]
    exact ⟨_, rfl, by simp, by simp [hdone], le_rfl, fun hlt => absurd hdone hlt.ne, by simp⟩
  · rw [if_neg hdone]
    have hroom : start < end_offset := by omega
    obtain ⟨l, hl, ⟨b, rest, rfl, hbase, hlast, hrun⟩, hhas⟩ :=
      exists_batches_from h hstart hroom (limit max_bytes)
    obtain ⟨read, hread, hoffsets, hnext, hle, hne, hmem, hdate⟩ := collect_records_spec hrun hbase
      hlast (fun b' hb' => (h.holds (hhas b' hb')).decodes_offsets) hroom (limit max_bytes)
      (limit max_records)
    exact ⟨read, by rw [hl, hread], log.eq_stretch hmem hoffsets, hnext, hle, fun _ => hne, hdate⟩

/-! ## Reading on -/

/-- With one more read than there are records left, the reads get every record up to the end once
and in order; every read but the last returns something, and only the last says that it reached the
end. -/
theorem reads_reach_the_end (codecs : Codecs) (log : RecordLog) (start_offset end_offset start
    max_bytes max_records : ℕ) (sources : List Source)
    (hsources : ∀ source ∈ sources, source.Serves codecs log start_offset end_offset)
    (hlower : start_offset ≤ start) (hupper : start ≤ end_offset)
    (henough : end_offset - start < sources.length) :
    ∃ reads, read_on codecs end_offset max_bytes max_records sources start = .ok reads ∧
      ReadsRange log start end_offset reads := by
  induction sources generalizing start with
  | nil => exact absurd henough (Nat.not_lt_zero _)
  | cons source sources ih =>
    obtain ⟨read, hread, hrecords, hnext, hle, hsome, hdate⟩ := read_from_spec
      (hsources source (List.mem_cons_self ..)) hlower hupper max_bytes max_records
    rw [read_on, hread]
    by_cases hlast : read.next_offset = end_offset
    · refine ⟨[read], ?_, ?_, [], read, rfl, hlast, hdate.2 hlast, by simp⟩
      · show (if read.up_to_date = true then _ else _) = _
        rw [if_pos (hdate.2 hlast)]
      · rw [List.flatMap_singleton, hrecords]
        congr 1
        omega
    · have hmore := hsome (by omega)
      have hpos := List.length_pos_iff.2 hmore
      rw [List.length_cons] at henough
      obtain ⟨reads, hreads, hall, before, last, rfl, hlast', hdate', hbefore⟩ := ih read.next_offset
        (fun source hs => hsources source (List.mem_cons_of_mem _ hs)) (by omega) hle (by omega)
      refine ⟨read :: (before ++ [last]), ?_, ?_, read :: before, last, rfl, hlast', hdate', ?_⟩
      · show (if read.up_to_date = true then _ else _) = _
        rw [if_neg (fun hsaid => hlast (hdate.1 hsaid)), hreads]
        rfl
      · have hsplit : end_offset - start = read.records.length + (end_offset - read.next_offset) := by
          omega
        rw [List.flatMap_cons, hall, hsplit, List.take_add, List.drop_drop, ← hrecords, ← hnext]
      · intro r hr
        rcases List.mem_cons.1 hr with rfl | hr
        · refine ⟨hmore, by omega, ?_⟩
          rw [Bool.eq_false_iff]
          exact fun hsaid => hlast (hdate.1 hsaid)
        · exact hbefore r hr

/-- A log without a cache. -/
def uncached (log : BatchLog Bytes) : Source where
  cache := .reset
  fetch start end_offset _ := log.fetch start end_offset

theorem mem_batches_of_has {batches : BatchLog Bytes} {b : Batch Bytes}
    (h : (uncached batches).Has start_offset end_offset b) : b ∈ batches.batches := by
  rcases h with ⟨cached, hcached, -⟩ | ⟨start, max_bytes, -, -, hb⟩
  · cases hcached
  · exact mem_of_mem_filter hb

theorem serves_uncached {batches : BatchLog Bytes} (hend : batches.next_offset = log.records.length)
    (hholds : ∀ b ∈ batches.batches, log.Holds codecs b) :
    (uncached batches).Serves codecs log 0 log.records.length where
  built := .reset
  cached _ hb := by cases hb
  fetched start _ _ hlt := by
    obtain ⟨b, rest, hfetch, hbase, hlast, hrun⟩ :=
      BatchLog.exists_cons_of_fetch hlt (hend ▸ hlt)
    refine ⟨b, rest, hfetch, hbase, hlast, hrun, fun b' hb' => hholds b' ?_⟩
    rw [← hfetch] at hb'
    exact mem_of_mem_filter hb'

/-- The log after two produce requests. -/
def timed_batches : BatchLog Bytes :=
  ([first_batch, second_batch].foldlM (fun log payload => produce plain_codecs log payload 0)
    BatchLog.empty).toOption.getD .empty

def timed_log : RecordLog :=
  ⟨[⟨0, { timestamp_ms := 10 }⟩, ⟨1, { timestamp_ms := 30 }⟩, ⟨2, { timestamp_ms := 20 }⟩], rfl⟩

theorem timed_serves : (uncached timed_batches).Serves plain_codecs timed_log 0 3 := by
  have hholds : ∀ b ∈ timed_batches.batches, b.last_offset ≤ 3 ∧
      decode_batches plain_codecs b.payload =
        .ok ((timed_log.records.drop b.base_offset).take b.record_count) := by decide +kernel
  exact serves_uncached (by decide +kernel) fun b hb => ⟨(hholds b hb).1, (hholds b hb).2⟩

/-- From the middle of the first batch on, with room for one record in each read, the second read
goes on in the second batch and reaches the end. -/
theorem reads_from_the_middle :
    (read_on plain_codecs 3 0 1 (List.replicate 3 (uncached timed_batches)) 1).map
        (List.map fun read => (read.records.map StreamRecord.offset, read.up_to_date)) =
        .ok [([1], false), ([2], true)] ∧
      ∃ reads, read_on plain_codecs 3 0 1 (List.replicate 3 (uncached timed_batches)) 1 = .ok reads ∧
        ReadsRange timed_log 1 3 reads := by
  refine ⟨by decide +kernel, reads_reach_the_end plain_codecs timed_log 0 3 1 0 1 _ ?_ (by decide)
    (by decide) (by decide)⟩
  intro source hsource
  rw [List.eq_of_mem_replicate hsource]
  exact timed_serves

end PicoMq.Server
