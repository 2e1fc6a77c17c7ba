import PicoMq.Metadata.Proofs.SpanProofs
import PicoMq.Server.Proofs.TimestampSearchProofs

/-!
# Proofs: the newest record

Once the newest record is the best so far, nothing replaces it. Before that, the best is a record
that was visited earlier, which is too old for the newest record to be left out.
-/

namespace PicoMq.Server

open List Metadata Wire

variable {codecs : Codecs} {log : RecordLog} {source : Source} {log_start : ℕ} {m : StreamRecord}
  {looked_at : StreamRecord → Prop} {best : Option StreamRecord}

/-! ## The newest record -/

theorem exists_newest (records : List StreamRecord) : ∃ newest, IsNewest records newest := by
  induction records with
  | nil => exact ⟨none, rfl⟩
  | cons r records ih =>
    obtain ⟨_ | newest, hnewest⟩ := ih
    · refine ⟨some r, mem_cons_self .., fun r' hr' => ?_⟩
      rw [hnewest, mem_singleton] at hr'
      rw [hr']
      exact .inr ⟨rfl, le_rfl⟩
    · obtain ⟨hmem, hall⟩ := hnewest
      by_cases hleast : AtLeast newest r
      · exact ⟨some newest, mem_cons_of_mem _ hmem, forall_mem_cons.2 ⟨hleast, hall⟩⟩
      · refine ⟨some r, mem_cons_self .., forall_mem_cons.2 ⟨.inr ⟨rfl, le_rfl⟩, fun r' hr' => ?_⟩⟩
        have hnewest := hall r' hr'
        unfold AtLeast at *
        omega

section

variable (log source log_start)

/-- The best so far is a live record that was looked at. -/
def From (looked_at : StreamRecord → Prop) (best : Option StreamRecord) : Prop :=
  ∀ x ∈ best, x ∈ log.live log_start ∧ looked_at x

/-- The newest record is the best afterwards if it was before, or is one of those that are found. -/
def Leads (found : StreamRecord → Prop) (best best' : Option StreamRecord) : Prop :=
  ∀ m, IsNewest (log.live log_start) (some m) → best = some m ∨ found m → best' = some m

/-- From the cursor on, the range holds `m`, and no header hides it. -/
def Shows (looked_at : StreamRecord → Prop) (start end_offset cursor : ℕ) (m : StreamRecord) : Prop :=
  HeadersReach log source log_start m looked_at start end_offset ∧ start ≤ m.offset ∧
    m.offset < end_offset ∧ cursor ≤ m.offset

end

theorem From.mono {looked_at' : StreamRecord → Prop} (h : From log log_start looked_at best)
    (hle : ∀ x, looked_at x → looked_at' x) : From log log_start looked_at' best :=
  fun x hx => ⟨(h x hx).1, hle x (h x hx).2⟩

theorem Leads.trans {found found₁ found₂ : StreamRecord → Prop} {best₁ best₂ : Option StreamRecord}
    (h₁ : Leads log log_start found₁ best best₁) (h₂ : Leads log log_start found₂ best₁ best₂)
    (hfound : ∀ m, found m → found₁ m ∨ found₂ m) : Leads log log_start found best best₂ := by
  intro m hm h
  rcases h with hbest | hm'
  · exact h₂ m hm (.inl (h₁ m hm (.inl hbest)))
  · exact h₂ m hm ((hfound m hm').imp_left fun hfirst => h₁ m hm (.inr hfirst))

theorem LookedAt.mono {start end_offset cursor cursor' : ℕ} (hle : cursor ≤ cursor')
    (h : LookedAt log source log_start looked_at start end_offset cursor m) :
    LookedAt log source log_start looked_at start end_offset cursor' m := by
  refine h.imp_right fun h => ?_
  obtain ⟨hlo, hhi, b, hb, hin, hlast⟩ := h
  exact ⟨hlo, hhi, b, hb, hin, hlast.trans hle⟩

theorem leads_of_none {found : StreamRecord → Prop}
    (h : ∀ m ∈ log.live log_start, ¬ found m) : Leads log log_start found best best :=
  fun m hm hfound => hfound.resolve_right (h m hm.1)

/-- What is left out for a record that is best so far does not hold the newest record. -/
theorem From.eq_of_skip {ceiling : ℤ} (h : From log log_start looked_at best)
    (hskip : (best.any fun best => ceiling < best.record.timestamp_ms) = true)
    (hothers : OthersBelow log log_start m looked_at ceiling) : best = some m := by
  obtain ⟨x, rfl, hx⟩ : ∃ x, best = some x ∧ ceiling < x.record.timestamp_ms := by
    cases best with
    | none => cases hskip
    | some x => exact ⟨x, rfl, of_decide_eq_true hskip⟩
  obtain ⟨hlive, hlooked⟩ := h x rfl
  by_contra hne
  have hbelow := hothers x hlive hlooked fun heq => hne (congrArg some heq)
  omega

section Records

variable {records : List StreamRecord} {start end_offset : ℕ}
  (h : From log log_start looked_at best) (hlive : ∀ r ∈ records, r ∈ log.live log_start)
  (hlooked : ∀ r ∈ records, start ≤ r.offset → r.offset < end_offset → looked_at r)
include h hlive hlooked

theorem From.best_of_records :
    From log log_start looked_at (best_of_records start end_offset records best) := by
  induction records generalizing best with
  | nil => exact h
  | cons r records ih =>
    rw [Server.best_of_records, foldl_cons]
    refine ih ?_ (fun r' hr' => hlive r' (mem_cons_of_mem _ hr'))
      fun r' hr' => hlooked r' (mem_cons_of_mem _ hr')
    split_ifs with hout hreplaces
    · exact h
    · intro x hx
      cases hx
      exact ⟨hlive r (mem_cons_self ..), hlooked r (mem_cons_self ..) (by omega) (by omega)⟩
    · exact h

theorem leads_best_of_records :
    Leads log log_start (fun m => m ∈ records ∧ start ≤ m.offset ∧ m.offset < end_offset) best
      (best_of_records start end_offset records best) := by
  induction records generalizing best with
  | nil => exact leads_of_none fun m _ hm => absurd hm.1 not_mem_nil
  | cons r records ih =>
    obtain ⟨hr, hlive⟩ := forall_mem_cons.1 hlive
    obtain ⟨hlooked_r, hlooked⟩ := forall_mem_cons.1 hlooked
    have hone : From log log_start looked_at (best_of_records start end_offset [r] best) :=
      h.best_of_records (forall_mem_singleton.2 hr) (forall_mem_singleton.2 hlooked_r)
    -- an older record does not replace the newest, and the newest replaces an older one
    have hfirst : Leads log log_start (fun m => m = r ∧ start ≤ m.offset ∧ m.offset < end_offset) best
        (best_of_records start end_offset [r] best) := by
      intro m hm hfound
      have hleast := hm.2 r hr
      rw [best_of_records, foldl_cons, foldl_nil]
      rcases hfound with rfl | ⟨rfl, hin⟩
      · rw [Option.all_some]
        split_ifs with hout hreplaces
        · rfl
        · have hreplaces := of_decide_eq_true hreplaces
          unfold replaces at hreplaces
          unfold AtLeast at hleast
          omega
        · rfl
      · rw [if_neg (by omega)]
        cases best with
        | none => rfl
        | some x =>
          by_cases hreplaces : replaces m x
          · rw [Option.all_some, if_pos (decide_eq_true hreplaces)]
          · rw [Option.all_some, if_neg (by rwa [decide_eq_true_eq])]
            obtain ⟨hx, -⟩ := h x rfl
            have hleast := hm.2 x hx
            have hoffset : x.offset = m.offset := by
              unfold replaces at hreplaces
              unfold AtLeast at hleast
              omega
            rw [RecordLog.eq_of_offset (RecordLog.mem_live.1 hx).1 (RecordLog.mem_live.1 hr).1
              hoffset]
    have hrest := ih hone hlive hlooked
    refine hfirst.trans hrest fun m hm => ?_
    rcases mem_cons.1 hm.1 with hmr | hmem
    · exact .inl ⟨hmr, hm.2⟩
    · exact .inr ⟨hmem, hm.2⟩

end Records

/-! ## Batches and objects -/

section Loops

variable (hserves : source.Serves codecs log log_start log.records.length)
include hserves

theorem best_of_batches_spec {l : List (Batch Bytes)} {n start end_offset cursor : ℕ}
    (hl : Contiguous n l) (hhas : ∀ b ∈ l, source.Has log_start log.records.length b)
    (hn : n ≤ cursor) (h : From log log_start
      (LookedAt log source log_start looked_at start end_offset cursor) best) :
    ∃ best', best_of_batches codecs ⟨log_start, log.records.length⟩ start end_offset
        (l.map of_log_batch) best = .ok best' ∧
      From log log_start (LookedAt log source log_start looked_at start end_offset
        (max cursor (l.foldl (fun _ b => b.last_offset) n))) best' ∧
      Leads log log_start (fun m => Shows log source log_start looked_at start end_offset cursor m ∧
        m.offset < l.foldl (fun _ b => b.last_offset) n) best best' := by
  induction l generalizing n cursor best with
  | nil =>
    rw [foldl_nil, max_eq_left hn]
    exact ⟨best, rfl, h, leads_of_none fun m _ hm => absurd (hn.trans hm.1.2.2.2) (not_le.2 hm.2)⟩
  | cons b l ih =>
    obtain ⟨rfl, -, hl⟩ := hl
    have hb := hhas b (mem_cons_self ..)
    have hholds := hserves.holds hb
    obtain ⟨newest, hnewest⟩ := hholds.exists_max_timestamp
    -- whether the batch is left out or not, the newest record is found if the batch holds it
    obtain ⟨best₁, hstep, h₁, hfirst⟩ : ∃ best₁, best_of_batches codecs
          ⟨log_start, log.records.length⟩ start end_offset ((b :: l).map of_log_batch) best =
        best_of_batches codecs ⟨log_start, log.records.length⟩ start end_offset
          (l.map of_log_batch) best₁ ∧
        From log log_start (LookedAt log source log_start looked_at start end_offset
          (max cursor b.last_offset)) best₁ ∧
        Leads log log_start (fun m => Shows log source log_start looked_at start end_offset cursor m ∧
          InBatch b m) best best₁ := by
      have hmono := h.mono fun x => LookedAt.mono (le_max_left cursor b.last_offset)
      rw [map_cons, best_of_batches, hnewest]
      simp only [bind, Except.bind]
      by_cases hskip : (best.any fun best => newest < best.record.timestamp_ms) = true
      · rw [if_pos hskip]
        refine ⟨best, rfl, hmono, fun m _ hfound => ?_⟩
        rcases hfound with hbest | ⟨⟨hreach, -, -, hle⟩, hin⟩
        · exact hbest
        · exact (h.mono fun x => LookedAt.mono hle).eq_of_skip hskip (hreach b hb hin newest hnewest)
      · rw [if_neg hskip, hholds.live_records]
        have hin : ∀ r ∈ ((log.records.drop b.base_offset).take b.record_count).filter
            (fun r => log_start ≤ r.offset), r ∈ log.live log_start ∧ InBatch b r :=
          fun r hr => (RecordLog.mem_live_stretch b).1 hr
        have hlive := fun r hr => (hin r hr).1
        have hlooked := fun r hr hlo hhi => (.inr ⟨hlo, hhi, b, hb, (hin r hr).2, le_max_right ..⟩ :
          LookedAt log source log_start looked_at start end_offset (max cursor b.last_offset) r)
        refine ⟨_, rfl, hmono.best_of_records hlive hlooked, fun m hm hfound => ?_⟩
        refine leads_best_of_records hmono hlive hlooked m hm (hfound.imp_right fun hfound => ?_)
        obtain ⟨⟨-, hlo, hhi, -⟩, hin⟩ := hfound
        exact ⟨(RecordLog.mem_live_stretch b).2 ⟨hm.1, hin⟩, hlo, hhi⟩
    obtain ⟨best', heq, h', hrest⟩ := ih hl (fun b' hb' => hhas b' (mem_cons_of_mem _ hb'))
      (le_max_right ..) h₁
    rw [max_assoc, max_eq_right (BatchLog.le_foldl_last hl)] at h'
    refine ⟨best', hstep.trans heq, h', hfirst.trans hrest fun m hm => ?_⟩
    obtain ⟨⟨hreach, hlo, hhi, hle⟩, hlast⟩ := hm
    by_cases hin : m.offset < b.last_offset
    · exact .inl ⟨⟨hreach, hlo, hhi, hle⟩, hn.trans hle, hin⟩
    · exact .inr ⟨⟨hreach, hlo, hhi, max_le hle (not_lt.1 hin)⟩, hlast⟩

theorem best_between_spec (start end_offset : ℕ) {cursor rounds : ℕ}
    (hrounds : log.records.length - cursor ≤ rounds) (hcursor : log_start ≤ cursor)
    (h : From log log_start (LookedAt log source log_start looked_at start end_offset cursor) best) :
    ∃ best', best_between codecs source ⟨log_start, log.records.length⟩ start end_offset rounds
        cursor best = .ok best' ∧
      From log log_start (fun r => looked_at r ∨ start ≤ r.offset ∧ r.offset < end_offset) best' ∧
      Leads log log_start (Shows log source log_start looked_at start end_offset cursor) best best' := by
  -- past the end of the range, or of the log, there is nothing left to find
  have hdone : ∀ cursor best, end_offset ≤ cursor ∨ log.records.length ≤ cursor →
      From log log_start (LookedAt log source log_start looked_at start end_offset cursor) best →
      From log log_start (fun r => looked_at r ∨ start ≤ r.offset ∧ r.offset < end_offset) best ∧
      Leads log log_start (Shows log source log_start looked_at start end_offset cursor) best best := by
    refine fun cursor best hpast h => ⟨h.mono fun x => Or.imp_right fun hx => ⟨hx.1, hx.2.1⟩,
      leads_of_none fun m hm hfound => ?_⟩
    have hlt := RecordLog.offset_lt (RecordLog.mem_live.1 hm).1
    obtain ⟨-, -, hhi, hle⟩ := hfound
    omega
  induction rounds generalizing cursor best with
  | zero => exact ⟨best, rfl, hdone cursor best (by omega) h⟩
  | succ rounds ih =>
    rw [best_between]
    by_cases hroom : cursor < end_offset
    · rw [if_pos hroom]
      by_cases hend : cursor < log.records.length
      · obtain ⟨b, rest, hbatches, hnext, hbase, hlast, hrun, hhas⟩ :=
          exists_read_batches hserves hcursor hend READ_BYTES
        have hprogress := BatchLog.last_le_foldl hrun (mem_cons_self ..)
        obtain ⟨best₁, heq, h₁, hread⟩ := best_of_batches_spec hserves hrun hhas hbase h
        dsimp only
        rw [hbatches, if_neg (by simp), hnext, heq]
        have hleft : log.records.length -
            max cursor ((b :: rest).foldl (fun _ b => b.last_offset) b.base_offset) ≤ rounds := by
          omega
        obtain ⟨best', heq', h', hrest⟩ := ih hleft (hcursor.trans (le_max_left ..)) h₁
        refine ⟨best', heq', h', hread.trans hrest fun m hm => ?_⟩
        obtain ⟨hreach, hlo, hhi, hle⟩ := hm
        by_cases hin : m.offset < (b :: rest).foldl (fun _ b => b.last_offset) b.base_offset
        · exact .inl ⟨⟨hreach, hlo, hhi, hle⟩, hin⟩
        · exact .inr ⟨hreach, hlo, hhi, max_le hle (not_lt.1 hin)⟩
      · rw [read_batches, if_pos (not_lt.1 hend)]
        exact ⟨best, rfl, hdone cursor best (by omega) h⟩
    · rw [if_neg hroom]
      exact ⟨best, rfl, hdone cursor best (by omega) h⟩

theorem best_of_spans_spec {rounds : ℕ} (hrounds : log.records.length - log_start ≤ rounds)
    {l : List ObjectSpan} (h : From log log_start looked_at best) :
    ∃ best', best_of_spans codecs source ⟨log_start, log.records.length⟩ rounds l best = .ok best' ∧
      From log log_start (fun _ => True) best' ∧
      Leads log log_start (fun m => ShownIn log source log_start m looked_at l) best best' := by
  induction l generalizing looked_at best with
  | nil => exact ⟨best, rfl, h.mono fun _ _ => trivial, leads_of_none fun m _ hm => hm⟩
  | cons span l ih =>
    rw [best_of_spans]
    by_cases hskip : (best.any fun best => span.last_write_ms < best.record.timestamp_ms) = true
    · rw [if_pos hskip]
      obtain ⟨best', heq, h', hrest⟩ := ih (h.mono fun x => Or.inl)
      refine ⟨best', heq, h', fun m hm hfound => hrest m hm ?_⟩
      rcases hfound with hbest | ⟨-, hothers, -⟩ | hshown
      · exact .inl hbest
      · exact .inl (h.eq_of_skip hskip hothers)
      · exact .inr hshown
    · rw [if_neg hskip]
      have hbetween : log.records.length - max span.start_offset log_start ≤ rounds := by omega
      obtain ⟨best₁, heq₁, h₁, hread⟩ := best_between_spec hserves (max span.start_offset log_start)
        span.end_offset hbetween (le_max_right ..) (h.mono fun x => Or.inl)
      have hspan : From log log_start (fun r => looked_at r ∨ span.Holds r.offset) best₁ :=
        h₁.mono fun x => Or.imp_right fun hx => ⟨(le_max_left ..).trans hx.1, hx.2⟩
      obtain ⟨best', heq, h', hrest⟩ := ih hspan
      dsimp only
      rw [heq₁]
      refine ⟨best', heq, h', fun m hm hfound => hrest m hm ?_⟩
      have hlive := (RecordLog.mem_live.1 hm.1).2
      rcases hfound with hbest | ⟨⟨hlo, hhi⟩, -, hreach⟩ | hshown
      · exact .inl (hread m hm (.inl hbest))
      · exact .inl (hread m hm (.inr ⟨hreach, max_le hlo hlive, hhi, max_le hlo hlive⟩))
      · exact .inr hshown

end Loops

/-- If nothing that is visited before it hides the newest live record, the lookup returns it; if
there is no live record, the lookup returns nothing. -/
theorem record_with_max_timestamp_is_newest (codecs : Codecs) (log : RecordLog) (source : Source)
    (metadata : MetadataState) (stream_id log_start rounds : ℕ)
    (hserves : source.Serves codecs log log_start log.records.length)
    (hrounds : log.records.length - log_start ≤ rounds)
    (hshows : NewestShows log source log_start (metadata.object_spans stream_id)) :
    ∃ newest, record_with_max_timestamp codecs source ⟨log_start, log.records.length⟩ rounds
        (metadata.object_spans stream_id) = .ok newest ∧ IsNewest (log.live log_start) newest := by
  have hstart : log_start ≤ committed_end ⟨log_start, log.records.length⟩
      (metadata.object_spans stream_id) := le_max_right ..
  obtain ⟨tail, htail, hfrom, htail_found⟩ := best_between_spec hserves _ log.records.length
    ((Nat.sub_le_sub_left hstart _).trans hrounds) hstart (nofun : From log log_start
      (LookedAt log source log_start (fun _ => False) (committed_end _ _) log.records.length _) none)
  obtain ⟨newest, hnewest, hfrom, hfound⟩ := best_of_spans_spec hserves hrounds
    (hfrom.mono fun x hx => (hx.resolve_left id).1)
  refine ⟨newest, ?_, ?_⟩
  · rw [record_with_max_timestamp]
    dsimp only
    rw [htail]
    exact hnewest
  · obtain ⟨_ | m, hm⟩ := exists_newest (log.live log_start)
    · cases newest with
      | none => exact hm
      | some x =>
        have hx := (hfrom x rfl).1
        rw [hm] at hx
        exact absurd hx List.not_mem_nil
    · have hshown := hshows m hm
      rw [hfound m hm ?_]
      · exact hm
      split_ifs at hshown with hcommitted
      · have hlt := RecordLog.offset_lt (RecordLog.mem_live.1 hm.1).1
        exact .inl (htail_found m hm (.inr ⟨hshown, hcommitted, hlt, hcommitted⟩))
      · exact .inr hshown

/-- The records up to `end_offset` are in an object that was committed at time 50. -/
def committed_early (end_offset size : ℕ) : MetadataState :=
  history 1000 [.registerNode 1 0 "a" 1 .empty "wal", .createStream ⟨1, 0⟩, .openStream ⟨1, 0⟩ 0 1,
    .commitStreamSetObject ⟨1, 0⟩ ⟨0, size, 0, [⟨0, 1, 0, end_offset, size⟩], [], []⟩ 50] 4

/-- The object holds the newest of the times 10, 30 and 20, and the tail a record that is older. -/
theorem record_with_max_timestamp_in_object :
    (committed_early 2 75).object_spans 0 = [⟨0, 2, 75, 50⟩] ∧
      record_with_max_timestamp plain_codecs (uncached timed_batches) ⟨0, 3⟩ 3
        ((committed_early 2 75).object_spans 0) = .ok (some ⟨1, { timestamp_ms := 30 }⟩) ∧
      ∃ newest, record_with_max_timestamp plain_codecs (uncached timed_batches) ⟨0, 3⟩ 3
        ((committed_early 2 75).object_spans 0) = .ok newest ∧ IsNewest (timed_log.live 0) newest := by
  have hspans : (committed_early 2 75).object_spans 0 = [⟨0, 2, 75, 50⟩] := by decide +kernel
  have hlive : ∀ r ∈ timed_log.live 0, r.record.timestamp_ms ≤ 30 ∧
      (30 ≤ r.record.timestamp_ms → r.offset = 1) := by decide
  refine ⟨hspans, by decide +kernel, record_with_max_timestamp_is_newest plain_codecs timed_log _ _ 0
    0 3 timed_serves (by decide) fun m hm => ?_⟩
  have hoffset : m.offset = 1 := by
    refine (hlive m hm.1).2 ?_
    have hleast := hm.2 ⟨1, { timestamp_ms := 30 }⟩ (by decide)
    simp only [AtLeast] at hleast
    omega
  rw [hspans, hoffset, if_neg (by decide)]
  refine .inl ⟨⟨Nat.zero_le _, by rw [hoffset]; decide⟩, fun r hr _ _ => ?_, ?_⟩
  · exact (hlive r hr).1.trans (by decide)
  · intro b hb hcovers newest hnewest r hr _ _
    have hbase : b.base_offset = 0 := by
      have hall : ∀ b ∈ timed_batches.batches, b.base_offset ≤ 1 → b.base_offset = 0 := by
        decide +kernel
      exact hall b (mem_batches_of_has hb) (hoffset ▸ hcovers.1)
    rw [timed_max_timestamp hb, if_pos hbase] at hnewest
    cases hnewest
    exact (hlive r hr).1

/-- The clock of the client was ahead of the commit: the object is left out, and the lookup returns
an older record. -/
theorem record_with_max_timestamp_misses_record :
    let produced := [client_batch 1 56 100 100 [172, 48, 57, 4] (plain_record 0 0),
      client_batch 1 56 60 60 [133, 48, 185, 151] (plain_record 0 0)].foldlM
        (fun log payload => produce plain_codecs log payload 0) BatchLog.empty
    (committed_early 1 68).object_spans 0 = [⟨0, 1, 68, 50⟩] ∧
      (produced >>= fun log => read plain_codecs log 2 2 0 0 0).map (fun read => read.records.map
        fun record => (record.offset, record.record.timestamp_ms)) = .ok [(0, 100), (1, 60)] ∧
      (produced >>= fun log => record_with_max_timestamp plain_codecs (uncached log)
        ⟨0, log.next_offset⟩ 2 ((committed_early 1 68).object_spans 0)).map (Option.map fun record =>
          (record.offset, record.record.timestamp_ms)) = .ok (some (1, 60)) := by
  decide +kernel

end PicoMq.Server
