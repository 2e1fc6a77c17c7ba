import PicoMq.Library.Proofs.BatchLogProofs
import PicoMq.Library.Proofs.FoldProofs
import PicoMq.Library.Proofs.RunProofs
import PicoMq.Server.TailCache

/-!
# Proofs: the tail cache

The cache holds a run of batches of the log that were reported durable, and what was reported
durable is not lost.
-/

namespace PicoMq.Server

open BatchLog List

variable {ρ : Type}

/-! ## Runs of batches in the cache -/

namespace TailCache

variable {cache : TailCache ρ} {batches l : List (Batch (Payload ρ))} {n : ℕ}

theorem evict_suffix (l : List (Batch (Payload ρ))) (bytes records : ℕ) :
    (evict l bytes records).recent <:+ l := by
  induction l generalizing bytes records with
  | nil => exact suffix_refl []
  | cons b l ih =>
    cases l with
    | nil => exact suffix_refl [b]
    | cons b' rest =>
      rw [evict]
      split_ifs
      · exact (ih _ _).trans (suffix_cons b _)
      · exact suffix_refl _

theorem push_suffix : (cache.push batches).recent <:+ cache.recent ++ batches := evict_suffix ..

theorem exists_contiguous_of_suffix (hl : Contiguous n l) (h : batches <:+ l) :
    ∃ m, Contiguous m batches := by
  obtain ⟨front, rfl⟩ := h
  exact ⟨_, (contiguous_append_iff.1 hl).2⟩

/-- The cache stays a run, made of batches it had and batches of the append. -/
theorem record_append_spec (hcache : ∃ n, Contiguous n cache.recent)
    (hbatches : ∃ n, Contiguous n batches) :
    (∃ n, Contiguous n (cache.record_append batches).recent) ∧
      ∀ b ∈ (cache.record_append batches).recent, b ∈ cache.recent ∨ b ∈ batches := by
  obtain ⟨n, hn⟩ := hcache
  obtain ⟨m, hm⟩ := hbatches
  have hpush : ∀ c : TailCache ρ, (∃ k, Contiguous k (c.recent ++ batches)) →
      (∀ b ∈ c.recent, b ∈ cache.recent) →
      (∃ k, Contiguous k (c.push batches).recent) ∧
        ∀ b ∈ (c.push batches).recent, b ∈ cache.recent ∨ b ∈ batches := by
    rintro c ⟨k, hk⟩ hsub
    refine ⟨exists_contiguous_of_suffix hk push_suffix, fun b hb => ?_⟩
    rcases mem_append.1 (push_suffix.subset hb) with hb | hb
    · exact .inl (hsub b hb)
    · exact .inr hb
  have hreset := hpush reset ⟨m, hm⟩ fun b hb => absurd hb not_mem_nil
  unfold record_append
  cases hfirst : batches.head? with
  | none => exact ⟨⟨n, hn⟩, fun b hb => .inl hb⟩
  | some first =>
    cases hlast : cache.recent.getLast? with
    | none =>
      have hnil : cache.recent = [] := getLast?_eq_none_iff.1 hlast
      exact hpush cache ⟨m, by rwa [hnil, nil_append]⟩ fun b hb => hb
    | some last =>
      dsimp only
      by_cases hbelow : first.base_offset < last.last_offset
      · rw [if_pos hbelow]
        exact ⟨⟨n, hn⟩, fun b hb => .inl hb⟩
      · rw [if_neg hbelow]
        by_cases hgap : first.base_offset > last.last_offset
        · rw [if_pos hgap]
          exact hreset
        · rw [if_neg hgap]
          refine hpush cache ⟨n, contiguous_append_iff.2 ⟨hn, ?_⟩⟩ fun b hb => hb
          obtain ⟨rest, rfl⟩ := head?_eq_some_iff.1 hfirst
          rw [foldl_last_of_getLast? hlast]
          obtain ⟨-, hpos, htl⟩ := hm
          exact ⟨by omega, hpos, htl⟩

/-! ## The size of the cache -/

theorem bounded_reset : (reset : TailCache ρ).Bounded := ⟨rfl, rfl, .inl (Nat.zero_le 1)⟩

theorem bounded_evict {bytes records : ℕ} (hbytes : bytes = (l.map fun b => b.payload.len).sum)
    (hrecords : records = (l.map fun b => b.record_count).sum) :
    (evict l bytes records).Bounded := by
  induction l generalizing bytes records with
  | nil => exact ⟨hbytes, hrecords, .inl (Nat.zero_le 1)⟩
  | cons b l ih =>
    cases l with
    | nil => exact ⟨hbytes, hrecords, .inl le_rfl⟩
    | cons b' rest =>
      rw [evict]
      split_ifs with hlarge
      · refine ih ?_ ?_
        · rw [hbytes, map_cons, sum_cons, Nat.add_sub_cancel_left]
        · rw [hrecords, map_cons, sum_cons, Nat.add_sub_cancel_left]
      · have hsmall : records ≤ TAIL_MAX_RECORDS ∧ bytes ≤ TAIL_MAX_BYTES := by omega
        exact ⟨hbytes, hrecords, .inr hsmall⟩

theorem foldl_add_eq (f : Batch (Payload ρ) → ℕ) (l : List (Batch (Payload ρ))) (n : ℕ) :
    l.foldl (fun n b => n + f b) n = n + (l.map f).sum := by
  induction l generalizing n with
  | nil => rfl
  | cons b l ih => rw [foldl_cons, ih, map_cons, sum_cons, Nat.add_assoc]

theorem Bounded.push (h : cache.Bounded) : (cache.push batches).Bounded := by
  refine bounded_evict ?_ ?_
  · rw [foldl_add_eq, map_append, sum_append, h.bytes]
  · rw [foldl_add_eq, map_append, sum_append, h.records]

theorem Bounded.record_append (h : cache.Bounded) : (cache.record_append batches).Bounded := by
  unfold TailCache.record_append
  split
  · exact h
  · exact h.push
  · split_ifs
    · exact h
    · exact bounded_reset.push
    · exact h.push

end TailCache

/-! ## Serving from the cache -/

section Serve

variable {start end_offset max_bytes : ℕ} {b : Batch (Payload ρ)}
variable {cached : List (Batch (Payload ρ))} {cache : TailCache ρ}

theorem cut_to_limits_prefix (end_offset max_bytes : ℕ) (cached : List (Batch (Payload ρ)))
    (total : ℕ) (is_empty : Bool) :
    cut_to_limits end_offset max_bytes cached total is_empty <+: cached ∧
      ∀ b ∈ cut_to_limits end_offset max_bytes cached total is_empty,
        b.base_offset < end_offset := by
  induction cached generalizing total is_empty with
  | nil => exact ⟨prefix_refl [], fun b hb => absurd hb not_mem_nil⟩
  | cons batch cached ih =>
    rw [cut_to_limits]
    split_ifs with hend hfull
    · exact ⟨ nil_prefix, fun b hb => absurd hb not_mem_nil⟩
    · exact ⟨ nil_prefix, fun b hb => absurd hb not_mem_nil⟩
    · obtain ⟨hlead, hbase⟩ := ih (total + batch.payload.len) false
      refine ⟨cons_prefix_cons.2 ⟨rfl, hlead⟩, fun b hb => ?_⟩
      rcases mem_cons.1 hb with rfl | hb
      · exact not_le.1 hend
      · exact hbase b hb

theorem mem_cut_to_limits (h : b.base_offset < end_offset) :
    b ∈ cut_to_limits end_offset max_bytes (b :: cached) 0 true := by
  rw [cut_to_limits, if_neg (not_le.2 h), if_neg (by simp)]
  exact mem_cons_self ..

theorem records_in_prefix {l m : List (Batch (Payload ρ))} (h : l <+: m) :
    records_in start end_offset l <+: records_in start end_offset m := by
  obtain ⟨rest, rfl⟩ := h
  unfold records_in
  rw [flatMap_append, filter_append]
  exact prefix_append ..

theorem records_in_ne_nil {l : List (Batch (Payload ρ))} (hb : b ∈ l)
    (hlen : b.payload.records.length = b.record_count) (hbase : b.base_offset ≤ start)
    (hlast : start < b.last_offset) (hend : start < end_offset) :
    records_in start end_offset l ≠ [] := by
  unfold Batch.last_offset at hlast
  have hindex : start - b.base_offset < b.payload.records.length := by omega
  refine ne_nil_of_mem (a := (start, b.payload.records[start - b.base_offset])) ?_
  rw [records_in, mem_filter, mem_flatMap]
  refine ⟨⟨b, hb, ?_⟩, by simp [hend]⟩
  rw [numbered, mem_map]
  refine ⟨(b.payload.records[start - b.base_offset], start - b.base_offset), ?_, ?_⟩
  · rw [mem_zipIdx_iff_getElem?]
    exact getElem?_eq_getElem hindex
  · rw [Prod.mk.injEq]
    exact ⟨by dsimp only; omega, rfl⟩

theorem le_of_mem_records_in {l : List (Batch (Payload ρ))} {r : ℕ × ρ}
    (h : r ∈ records_in start end_offset l) : start ≤ r.1 := by
  rw [records_in, mem_filter, decide_eq_true_eq] at h
  exact h.2.1

theorem of_tail_batches (h : cache.tail_batches start = some cached) :
    ∃ first last, cache.recent.head? = some first ∧ cache.recent.getLast? = some last ∧
      first.base_offset ≤ start ∧ start < last.last_offset ∧
      cached = cache.recent.filter fun b => b.last_offset > start := by
  unfold TailCache.tail_batches at h
  cases hfirst : cache.recent.head? with
  | none => rw [hfirst] at h; cases h
  | some first =>
    cases hlast : cache.recent.getLast? with
    | none => rw [hfirst, hlast] at h; cases h
    | some last =>
      rw [hfirst, hlast] at h
      dsimp only at h
      split_ifs at h with hout
      cases h
      exact ⟨first, last, rfl, rfl, by omega, by omega, rfl⟩

/-- A cache that is a run serves a run, from the batch on that holds `start`. -/
theorem exists_cons_of_tail_batches
    (hcont : ∃ n, Contiguous n cache.recent) (h : cache.tail_batches start = some cached) :
    ∃ b rest, cached = b :: rest ∧ b.base_offset ≤ start ∧ start < b.last_offset ∧
      Contiguous b.base_offset (b :: rest) := by
  obtain ⟨first, last, hfirst, hlast, hlo, hhi, rfl⟩ := of_tail_batches h
  obtain ⟨n, hn⟩ := hcont
  have hbase : n ≤ start := by
    obtain ⟨rest, hrecent⟩ := head?_eq_some_iff.1 hfirst
    rw [hrecent] at hn
    have heq := hn.1
    omega
  have hreach : start < cache.recent.foldl (fun _ b => b.last_offset) n := by
    rw [foldl_last_of_getLast? hlast]
    exact hhi
  exact exists_cons_of_filter hn hbase hreach

theorem mem_of_mem_tail_batches (h : cache.tail_batches start = some cached) (hb : b ∈ cached) :
    b ∈ cache.recent ∧ start < b.last_offset := by
  obtain ⟨-, -, -, -, -, -, rfl⟩ := of_tail_batches h
  rw [mem_filter, decide_eq_true_eq] at hb
  exact hb

theorem cut_to_limits_prefix_fetch {log : BatchLog (Payload ρ)}
    (hmem : ∀ b ∈ cache.recent, b ∈ log.batches)
    (hcont : ∃ n, Contiguous n cache.recent) (h : cache.tail_batches start = some cached)
    (hend : start < end_offset) (hnext : end_offset ≤ log.next_offset) (max_bytes : ℕ) :
    ∃ b, b ∈ cut_to_limits end_offset max_bytes cached 0 true ∧ b ∈ log.batches ∧
      b.base_offset ≤ start ∧ start < b.last_offset ∧
      cut_to_limits end_offset max_bytes cached 0 true <+: log.fetch start end_offset := by
  obtain ⟨b, rest, rfl, hb, hb', hrun⟩ := exists_cons_of_tail_batches hcont h
  have hcached := fun x hx => mem_of_mem_tail_batches (b := x) h hx
  have hblog : b ∈ log.batches := hmem b (hcached b (mem_cons_self ..)).1
  -- the fetch starts with the same batch, since only one of the log holds `start`
  obtain ⟨b₀, rest₀, hfetch, hb₀, hb₀', hrun₀⟩ :=
    exists_cons_of_fetch hend (lt_of_lt_of_le hend hnext)
  have hb₀log : b₀ ∈ log.batches := by
    have hbmem : b₀ ∈ log.fetch start end_offset := by
      rw [hfetch]
      exact mem_cons_self ..
    exact mem_of_mem_filter hbmem
  have hsame : b = b₀ := by
    rcases last_le_base_or hblog hb₀log with heq | hle | hle
    · exact heq
    · omega
    · omega
  subst hsame
  obtain ⟨hlead, hbelow⟩ := cut_to_limits_prefix end_offset max_bytes (b :: rest) 0 true
  refine ⟨b, mem_cut_to_limits (by omega), hblog, hb, hb', ?_⟩
  have hcut := contiguous_of_prefix hrun hlead
  refine isPrefix_of_subset hcut (hfetch ▸ hrun₀) fun x hx => ?_
  obtain ⟨hxmem, hxlast⟩ := hcached x (hlead.subset hx)
  exact mem_filter.2 ⟨hmem x hxmem, decide_eq_true ⟨hxlast, hbelow x hx⟩⟩

end Serve

/-! ## What every step keeps -/

/-- The cache is a run of durable batches, and the reads under way end at or below what is durable.
-/
structure CachedLog.Sound (s : CachedLog ρ) : Prop where
  counts : ∀ b ∈ s.log.batches, b.payload.records.length = b.record_count
  recent_mem : ∀ b ∈ s.cache.recent, b ∈ s.log.batches ∧ b.last_offset ≤ s.durable_end
  recent_run : ∃ n, Contiguous n s.cache.recent
  task_runs : ∀ t ∈ s.tasks, ∃ n, Contiguous n t.batches
  confirm_le : s.confirm_offset ≤ s.durable_end
  durable_le : s.durable_end ≤ s.log.next_offset
  reads_le : ∀ r ∈ s.reads, r.start < r.end_offset ∧ r.end_offset ≤ s.confirm_offset
  answers : ∀ a ∈ s.answers, a.Invisible

namespace CachedLog

variable {s : CachedLog ρ}

theorem sound_empty : ({} : CachedLog ρ).Sound where
  counts _ hb := absurd hb not_mem_nil
  recent_mem _ hb := absurd hb not_mem_nil
  recent_run := ⟨0, trivial⟩
  task_runs _ ht := absurd ht not_mem_nil
  confirm_le := le_refl 0
  durable_le := le_refl 0
  reads_le _ hr := absurd hr not_mem_nil
  answers _ ha := absurd ha not_mem_nil

theorem foldl_append_spec (payloads : List (Payload ρ)) (log : BatchLog (Payload ρ))
    (hcounts : ∀ b ∈ log.batches, b.payload.records.length = b.record_count) :
    (∃ added, (payloads.foldl (fun log p => log.append p.records.length p) log).batches =
        log.batches ++ added) ∧
      ∀ b ∈ (payloads.foldl (fun log p => log.append p.records.length p) log).batches,
        b.payload.records.length = b.record_count := by
  induction payloads generalizing log with
  | nil => exact ⟨⟨[], (append_nil _).symm⟩, hcounts⟩
  | cons p payloads ih =>
    rw [foldl_cons]
    by_cases hpos : 0 < p.records.length
    · have hbatches : (log.append p.records.length p).batches =
          log.batches ++ [⟨log.next_offset, p.records.length, p⟩] := append_of_pos hpos
      obtain ⟨⟨added, hadded⟩, hall⟩ := ih (log.append p.records.length p) (by
        intro b hb
        rw [hbatches, mem_append, mem_singleton] at hb
        rcases hb with hb | rfl
        · exact hcounts b hb
        · rfl)
      refine ⟨⟨⟨log.next_offset, p.records.length, p⟩ :: added, ?_⟩, hall⟩
      rw [hadded, hbatches, append_assoc, singleton_append]
    · have hsame : log.append p.records.length p = log := by rw [append, dif_neg hpos]
      rw [hsame]
      exact ih log hcounts

section

variable (h : s.Sound)
include h

theorem Sound.submit (payloads : List (Payload ρ)) : (s.submit payloads).Sound := by
  obtain ⟨⟨added, hadded⟩, hcounts⟩ := foldl_append_spec payloads s.log h.counts
  let log := payloads.foldl (fun log p => log.append p.records.length p) s.log
  have hnext : s.log.next_offset ≤ log.next_offset := by
    have hcont := log.contiguous
    rw [show log.batches = s.log.batches ++ added from hadded] at hcont
    have hle := le_foldl_last (contiguous_append_iff.1 hcont).2
    rw [next_offset, next_offset, show log.batches = _ from hadded,
      foldl_append]
    exact hle
  refine ⟨hcounts, fun b hb => ⟨?_, (h.recent_mem b hb).2⟩, h.recent_run, fun t ht => ?_,
    h.confirm_le, le_trans h.durable_le hnext, h.reads_le, h.answers⟩
  · show b ∈ log.batches
    rw [show log.batches = _ from hadded]
    exact mem_append_left _ (h.recent_mem b hb).1
  · rcases mem_append.1 ht with ht | ht
    · exact h.task_runs t ht
    · rw [mem_singleton.1 ht]
      refine TailCache.exists_contiguous_of_suffix log.contiguous ?_
      exact ⟨_, log.below_append_since s.log.next_offset⟩

theorem Sound.confirm {offset : ℕ} (hle : s.confirm_offset ≤ offset)
    (hbound : s.log.IsBoundary offset) :
    ({ s with confirm_offset := offset, durable_end := max s.durable_end offset } :
      CachedLog ρ).Sound :=
  { h with
    recent_mem := fun b hb => ⟨(h.recent_mem b hb).1, le_trans (h.recent_mem b hb).2 (le_max_left ..)⟩
    confirm_le := le_max_right ..
    durable_le := max_le h.durable_le hbound.1
    reads_le := fun r hr => ⟨(h.reads_le r hr).1, le_trans (h.reads_le r hr).2 hle⟩ }

theorem Sound.fail {task cut : ℕ} (hle : s.durable_end ≤ cut)
    (hbound : s.log.IsBoundary cut) :
    ({ s with
        log := s.log.truncate cut
        confirm_offset := cut
        durable_end := cut
        tasks := s.tasks.eraseIdx task } : CachedLog ρ).Sound where
  counts b hb := h.counts b (mem_below.1 hb).1
  recent_mem b hb := by
    obtain ⟨hmem, hdurable⟩ := h.recent_mem b hb
    have hlt := base_lt_last s.log.contiguous hmem
    exact ⟨mem_below.2 ⟨hmem, by omega⟩, le_trans hdurable hle⟩
  recent_run := h.recent_run
  task_runs t ht := h.task_runs t (mem_of_mem_eraseIdx ht)
  confirm_le := le_refl _
  durable_le := (next_offset_truncate hbound).ge
  reads_le r hr := by
    have hr' := h.reads_le r hr
    exact ⟨hr'.1, le_trans hr'.2 (le_trans h.confirm_le hle)⟩
  answers := h.answers

theorem Sound.reset_cache : ({ s with cache := .reset } : CachedLog ρ).Sound :=
  { h with
    recent_mem := fun _ hb => absurd hb not_mem_nil
    recent_run := ⟨0, trivial⟩ }

theorem Sound.trim (new_start_offset committed_end : ℕ) :
    (s.trim new_start_offset committed_end).Sound := by
  unfold CachedLog.trim
  dsimp only
  split_ifs
  · exact { h with }
  · exact h

theorem Sound.begin_read {start : ℕ} (hlt : start < s.confirm_offset) :
    ({ s with reads := ⟨start, s.confirm_offset⟩ :: s.reads } : CachedLog ρ).Sound :=
  { h with
    reads_le := by
      intro r hr
      rcases mem_cons.1 hr with rfl | hr
      · exact ⟨hlt, le_refl _⟩
      · exact h.reads_le r hr }

/-- A read at or above the start of the log is answered as the stream would answer it. -/
theorem Sound.serve {r : TailRead} (hr : r ∈ s.reads)
    (hserved : (s.cache.tail_batches r.start).isSome → s.start_offset ≤ r.start)
    (max_bytes : ℕ) : (s.serve r max_bytes).Sound := by
  unfold CachedLog.serve
  cases hcached : s.cache.tail_batches r.start with
  | none => exact h
  | some cached =>
    have hstart : s.start_offset ≤ r.start := hserved (by rw [hcached]; rfl)
    obtain ⟨hlt, hle⟩ := h.reads_le r hr
    have hnext := le_trans hle (le_trans h.confirm_le h.durable_le)
    obtain ⟨b, hb, hblog, hbase, hlast, hlead⟩ := cut_to_limits_prefix_fetch
      (fun b hb => (h.recent_mem b hb).1) h.recent_run hcached hlt hnext max_bytes
    refine { h with answers := fun a ha => ?_ }
    rcases mem_cons.1 ha with rfl | ha
    · refine ⟨⟨_, ?_, records_in_prefix hlead⟩, fun x hx => ?_, ?_⟩
      · dsimp only
        rw [CachedLog.fetch, if_neg (not_lt.2 hstart)]
        rfl
      · exact le_trans hstart (le_of_mem_records_in hx)
      · exact records_in_ne_nil hb (h.counts b hblog) hbase hlast hlt
    · exact h.answers a ha

end

theorem le_durable (batches : List (Batch (Payload ρ))) (d : ℕ) :
    d ≤ batches.foldl (fun d b => max d b.last_offset) d ∧
      ∀ b ∈ batches, b.last_offset ≤ batches.foldl (fun d b => max d b.last_offset) d := by
  induction batches generalizing d with
  | nil => exact ⟨le_refl d, fun b hb => absurd hb not_mem_nil⟩
  | cons b batches ih =>
    obtain ⟨hle, hlast⟩ := ih (max d b.last_offset)
    refine ⟨le_trans (le_max_left ..) hle, fun b' hb' => ?_⟩
    rcases mem_cons.1 hb' with rfl | hb'
    · exact le_trans (le_max_right ..) hle
    · exact hlast b' hb'

variable [DecidableEq ρ]

theorem Sound.finish (h : s.Sound) (task : ℕ) : (s.finish task).Sound := by
  unfold CachedLog.finish
  cases htask : s.tasks[task]? with
  | none => exact h
  | some t =>
    dsimp only
    by_cases hmem : ∀ b ∈ t.batches, b ∈ s.log.batches
    · rw [if_pos hmem]
      obtain ⟨hle, hlast⟩ := le_durable t.batches s.durable_end
      obtain ⟨hrun, hfrom⟩ := TailCache.record_append_spec h.recent_run
        (h.task_runs t (mem_of_getElem? htask))
      refine ⟨h.counts, fun b hb => ?_, hrun, fun t' ht' => ?_, le_trans h.confirm_le hle, ?_,
        h.reads_le, h.answers⟩
      · rcases hfrom b hb with hb | hb
        · exact ⟨(h.recent_mem b hb).1, le_trans (h.recent_mem b hb).2 hle⟩
        · exact ⟨hmem b hb, hlast b hb⟩
      · exact h.task_runs t' (mem_of_mem_eraseIdx ht')
      · exact foldl_invariant (P := fun d => d ≤ s.log.next_offset)
          (fun d b hb hd => max_le hd (last_le_foldl s.log.contiguous (hmem b hb)))
          h.durable_le
    · rw [if_neg hmem]
      exact h

theorem Sound.step (h : s.Sound) {a : Step ρ} (hlive : s.ServesLiveRecords a) :
    (s.step a).Sound := by
  cases a with
  | submit payloads => exact h.submit payloads
  | confirm offset =>
    rw [CachedLog.step]
    split_ifs with hguard
    · exact h.confirm hguard.1 hguard.2
    · exact h
  | finish task => exact h.finish task
  | fail task cut =>
    rw [CachedLog.step]
    split_ifs with hguard
    · exact h.fail hguard.1 hguard.2
    · exact h
  | reset_cache => exact h.reset_cache
  | trim new_start_offset committed_end => exact h.trim new_start_offset committed_end
  | begin_read start =>
    rw [CachedLog.step]
    split_ifs with hguard
    · exact h.begin_read hguard
    · exact h
  | serve_read read max_bytes =>
    rw [CachedLog.step]
    cases hread : s.reads[read]? with
    | none => exact h
    | some r => exact h.serve (mem_of_getElem? hread) (hlive r hread) max_bytes

/-- If the reads it serves are at or above the start of the log, each gets what a fetch of the stream
would have begun with at that moment, at the same offsets. -/
theorem tail_cache_is_invisible (steps : List (Step ρ))
    (h : Run.EachStep step {} steps ServesLiveRecords) :
    Run.Always step {} steps fun s => ∀ a ∈ s.answers, a.Invisible := by
  intro i
  exact (Run.always_of_eachStep sound_empty (fun s a hs ha => hs.step ha) h i).answers

/-- The later of two appends is in the cache first; the log is trimmed and read from there. -/
theorem tail_cache_is_invisible_after_trim :
    let steps : List (Step ℕ) := [.submit [⟨[10], 5⟩], .submit [⟨[11, 12], 5⟩], .confirm 3,
      .finish 1, .finish 0, .trim 1 3, .begin_read 1, .serve_read 0 100]
    ∃ a ∈ (Run.run step {} steps).answers, a.served = [(1, 11), (2, 12)] ∧ a.Invisible := by
  intro steps
  have hall := tail_cache_is_invisible steps (by decide +kernel) steps.length
  rw [Run.after_length] at hall
  have hmem : (⟨1, [(1, 11), (2, 12)], some [(1, 11), (2, 12)]⟩ : TailAnswer ℕ) ∈
      (Run.run step {} steps).answers := by decide +kernel
  exact ⟨_, hmem, rfl, hall _ hmem⟩

/-- A read below the new start is still served from the cache; the stream would refuse it. -/
theorem trimmed_records_served :
    let steps : List (Step ℕ) := [.submit [⟨[10], 5⟩, ⟨[11], 5⟩, ⟨[12], 5⟩], .confirm 3, .finish 0,
      .trim 2 3, .begin_read 0, .serve_read 0 100]
    (Run.run step {} steps).start_offset = 2 ∧
      (Run.run step {} steps).answers = [⟨2, [(0, 10), (1, 11), (2, 12)], none⟩] := by
  decide +kernel

/-- However appends, resets and reads interleave, the cache knows its size and keeps it limited. -/
theorem tail_cache_is_bounded (steps : List (Step ρ)) :
    Run.Always step {} steps fun s => s.cache.Bounded := by
  intro i
  refine Run.after_invariant (P := fun s : CachedLog ρ => s.cache.Bounded) TailCache.bounded_reset
    (fun s a h => ?_) i
  cases a with
  | finish task =>
    show (s.finish task).cache.Bounded
    unfold CachedLog.finish
    split
    · exact h
    · split_ifs
      · exact h.record_append
      · exact h
  | reset_cache => exact TailCache.bounded_reset
  | submit payloads => exact h
  | trim =>
    rw [CachedLog.step, CachedLog.trim]
    split_ifs <;> exact h
  | confirm | fail | begin_read =>
    rw [CachedLog.step]
    split_ifs <;> exact h
  | serve_read read max_bytes =>
    rw [CachedLog.step]
    split
    · exact h
    · unfold CachedLog.serve
      split <;> exact h

end CachedLog

end PicoMq.Server
