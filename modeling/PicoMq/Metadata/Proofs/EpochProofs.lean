import PicoMq.Library.Proofs.SortedProofs
import PicoMq.Metadata.Epochs
import PicoMq.Metadata.Proofs.OffsetProofs

/-!
# Proofs: the recorded epochs of a stream

An open records an epoch above all earlier ones at the end of the stream, and ends do not move back.
-/

namespace PicoMq.Metadata

open List MetadataState OrdMap

/-! ## Ordered histories -/

section Histories

variable {epochs : List (ℤ × ℕ)} {start offset : ℕ} {epoch : ℤ}

theorem epoch_lookup_eq_some : epoch_lookup epochs offset = some epoch ↔
    (∃ first, (epoch, first) ∈ epochs ∧ first ≤ offset) ∧
      ∀ e ∈ epochs, e.2 ≤ offset → e.1 ≤ epoch := by
  rw [epoch_lookup, max?_eq_some_iff]
  simp only [mem_map, mem_filter, decide_eq_true_eq, Prod.exists, exists_and_right,
    exists_eq_right, Prod.forall]
  constructor
  · rintro ⟨⟨first, hmem, hfirst⟩, hmax⟩
    exact ⟨⟨first, hmem, hfirst⟩, fun e f hmem' hf => hmax e ⟨f, hmem', hf⟩⟩
  · rintro ⟨⟨first, hmem, hfirst⟩, hmax⟩
    refine ⟨⟨first, hmem, hfirst⟩, ?_⟩
    rintro e ⟨f, hmem', hf⟩
    exact hmax e f hmem' hf

theorem epoch_lookup_eq_none : epoch_lookup epochs offset = none ↔ ∀ e ∈ epochs, offset < e.2 := by
  rw [epoch_lookup, max?_eq_none_iff, map_eq_nil_iff, filter_eq_nil_iff]
  simp only [decide_eq_true_eq, not_le]

theorem mem_dropLast_iff {l : List ℤ} (h : l.Pairwise (· < ·)) :
    epoch ∈ l.dropLast ↔ epoch ∈ l ∧ ∃ epoch' ∈ l, epoch < epoch' := by
  rcases eq_nil_or_concat l with rfl | ⟨older, last, rfl⟩
  · simp
  · rw [concat_eq_append, pairwise_append] at h
    obtain ⟨-, -, hlast⟩ := h
    rw [concat_eq_append, dropLast_concat]
    constructor
    · intro hmem
      exact ⟨mem_append_left _ hmem, last, by simp, hlast epoch hmem last (by simp)⟩
    · rintro ⟨hmem, epoch', hmem', hlt⟩
      rcases mem_append.1 hmem with hmem | hmem
      · exact hmem
      · -- the last is below none
        obtain rfl := mem_singleton.1 hmem
        rcases mem_append.1 hmem' with hmem' | hmem'
        · exact absurd (hlast epoch' hmem' epoch (by simp)) (not_lt.2 hlt.le)
        · rw [mem_singleton.1 hmem'] at hlt
          exact absurd hlt (lt_irrefl _)

section

variable (hepochs : epochs.Pairwise fun a b => a.1 < b.1)
variable (hmono : ∀ a ∈ epochs, ∀ b ∈ epochs, a.1 < b.1 → a.2 ≤ b.2)
include hepochs hmono

theorem firsts_of_mono : epochs.Pairwise fun a b => a.2 ≤ b.2 :=
  hepochs.imp_of_mem fun ha hb hlt => hmono _ ha _ hb hlt

theorem mem_covered_iff {first : ℕ} (he : (epoch, first) ∈ epochs) :
    epoch ∈ ((epochs.takeWhile fun e => e.2 ≤ start).map Prod.fst).dropLast ↔
      ∃ e ∈ epochs, epoch < e.1 ∧ e.2 ≤ start := by
  have hsorted : ((epochs.filter fun e => e.2 ≤ start).map Prod.fst).Pairwise (· < ·) :=
    (hepochs.sublist filter_sublist).map _ fun _ _ h => h
  have hwhile : (epochs.takeWhile fun e => e.2 ≤ start) = epochs.filter fun e => e.2 ≤ start := by
    refine takeWhile_eq_filter_of_pairwise ((firsts_of_mono hepochs hmono).imp ?_)
    intro a b hab hb
    exact decide_eq_true (hab.trans (of_decide_eq_true hb))
  rw [hwhile, mem_dropLast_iff hsorted]
  simp only [mem_map, mem_filter, decide_eq_true_eq, Prod.exists, exists_and_right,
    exists_eq_right]
  constructor
  · rintro ⟨-, epoch', ⟨first', hmem, hfirst'⟩, hlt⟩
    exact ⟨epoch', first', hmem, hlt, hfirst'⟩
  · rintro ⟨epoch', first', hmem, hlt, hfirst'⟩
    have hle : first ≤ first' := hmono _ he _ hmem hlt
    exact ⟨⟨first, he, hle.trans hfirst'⟩, epoch', ⟨first', hmem, hfirst'⟩, hlt⟩

theorem trimsEpochs_of_covered {after : List (ℤ × ℕ)} (hafter : ∀ e, e ∈ after ↔ e ∈ epochs ∧
      e.1 ∉ ((epochs.takeWhile fun e => e.2 ≤ start).map Prod.fst).dropLast) :
    TrimsEpochs epochs after start := by
  have hkept : ∀ epoch first, (epoch, first) ∈ after ↔ (epoch, first) ∈ epochs ∧
      ∀ e ∈ epochs, e.2 ≤ start → e.1 ≤ epoch := by
    intro epoch first
    rw [hafter]
    refine and_congr_right fun hmem => ?_
    rw [mem_covered_iff hepochs hmono hmem]
    constructor
    · intro hnot e he hstart
      exact not_lt.1 fun hlt => hnot ⟨e, he, hlt, hstart⟩
    · rintro hmax ⟨e, he, hlt, hstart⟩
      exact absurd (hmax e he hstart) (not_le.2 hlt)
  constructor
  · intro offset hoffset
    cases hlookup : epoch_lookup epochs offset with
    | some epoch =>
      obtain ⟨⟨first, hmem, hfirst⟩, hmax⟩ := epoch_lookup_eq_some.1 hlookup
      have hstays : (epoch, first) ∈ after :=
        (hkept epoch first).2 ⟨hmem, fun e he hstart => hmax e he (hstart.trans hoffset)⟩
      exact epoch_lookup_eq_some.2 ⟨⟨first, hstays, hfirst⟩,
        fun e he hle => hmax e ((hkept e.1 e.2).1 he).1 hle⟩
    | none =>
      rw [epoch_lookup_eq_none] at hlookup ⊢
      exact fun e he => hlookup e ((hkept e.1 e.2).1 he).1
  · intro e
    rw [hkept e.1 e.2]
    refine and_congr_right fun hmem => ?_
    constructor
    · intro hmax
      by_cases hle : e.2 ≤ start
      · exact .inr ⟨start, le_rfl, epoch_lookup_eq_some.2 ⟨⟨e.2, hmem, hle⟩, hmax⟩⟩
      · exact .inl (not_le.1 hle)
    · rintro (hlt | ⟨offset, hoffset, hlookup⟩) e' he' hstart
      · by_contra hnot
        have hle := hmono e hmem e' he' (not_le.1 hnot)
        omega
      · exact (epoch_lookup_eq_some.1 hlookup).2 e' he' (hstart.trans hoffset)

end

end Histories

/-! ## What is recorded -/

variable {s s' : MetadataState} {c : MetadataCommand} {sid : ℕ} {noop noop : ℕ}
variable {epoch : ℤ} {row : StreamRow}

theorem mem_stream_epochs {e : ℤ × ℕ} :
    e ∈ s.stream_epochs sid ↔ s.epochs.get (toLex (sid, e.1)) = some e.2 := by
  simp only [stream_epochs, mem_map, Prod.exists, mem_scan, decide_eq_true_eq]
  constructor
  · rintro ⟨key, first, ⟨hget, rfl⟩, rfl⟩
    exact hget
  · intro hget
    exact ⟨toLex (sid, e.1), e.2, ⟨hget, rfl⟩, rfl⟩

theorem pairwise_stream_epochs (s : MetadataState) (sid : ℕ) :
    (s.stream_epochs sid).Pairwise fun a b => a.1 < b.1 := by
  rw [stream_epochs, pairwise_map]
  refine (s.epochs.sorted.sublist filter_sublist).imp_of_mem fun {a b} ha hb hlt => ?_
  have ha' : (ofLex a.1).1 = sid := by simpa using (mem_filter.1 ha).2
  have hb' : (ofLex b.1).1 = sid := by simpa using (mem_filter.1 hb).2
  rcases Prod.Lex.lt_iff.1 hlt with h | ⟨-, h⟩
  · rw [ha', hb'] at h
    exact absurd h (lt_irrefl _)
  · exact h

theorem get_trimmed_epochs {offset sid' : ℕ} :
    (trimmed_epochs s sid offset).get (toLex (sid', epoch)) =
      if sid' = sid ∧ epoch ∈ covered_epochs s sid offset then none
      else s.epochs.get (toLex (sid', epoch)) := by
  rw [trimmed_epochs, get_foldl_remove]
  refine if_congr ?_ rfl rfl
  constructor
  · rintro ⟨epoch', hmem, heq⟩
    cases heq
    exact ⟨rfl, hmem⟩
  · rintro ⟨rfl, hmem⟩
    exact ⟨epoch, hmem, rfl⟩

theorem get_other_epochs {sid' : ℕ} :
    (other_epochs s sid).get (toLex (sid', epoch)) =
      if sid' = sid then none else s.epochs.get (toLex (sid', epoch)) := by
  rw [other_epochs, get_foldl_remove]
  by_cases hsid : sid' = sid
  · subst hsid
    rw [if_pos rfl]
    split_ifs with hmem
    · rfl
    · -- an epoch that is recorded would be in the list
      cases hget : s.epochs.get (toLex (sid', epoch)) with
      | none => rfl
      | some first =>
        exact absurd ⟨(epoch, first), mem_stream_epochs.2 hget, rfl⟩ hmem
  · rw [if_neg hsid, if_neg]
    rintro ⟨e, -, heq⟩
    cases heq
    exact hsid rfl

/-- What is recorded of each stream: its own epochs and offsets, later epochs at later offsets. -/
structure Recorded (s : MetadataState) : Prop where
  bound : ∀ sid epoch first, s.epochs.get (toLex (sid, epoch)) = some first →
    ∃ row, s.toStreamTables.control sid = some row ∧ epoch ≤ row.epoch ∧ first ≤ row.end_offset
  mono : ∀ sid epoch epoch' first first', s.epochs.get (toLex (sid, epoch)) = some first →
    s.epochs.get (toLex (sid, epoch')) = some first' → epoch < epoch' → first ≤ first'

/-- The epoch and the end of a row do not move back. -/
def RowGrows (row row' : StreamRow) : Prop :=
  row.epoch ≤ row'.epoch ∧ row.end_offset ≤ row'.end_offset

theorem Recorded.empty : Recorded {} where
  bound := by
    intro sid epoch first hget
    cases hget
  mono := by
    intro sid epoch epoch' first first' hget
    cases hget

theorem Recorded.frame (h : Recorded s)
    (hepochs : ∀ sid epoch first, s'.epochs.get (toLex (sid, epoch)) = some first →
      s.epochs.get (toLex (sid, epoch)) = some first)
    (hrows : ∀ sid epoch first row, s'.epochs.get (toLex (sid, epoch)) = some first →
      s.toStreamTables.control sid = some row →
        ∃ row', s'.toStreamTables.control sid = some row' ∧ RowGrows row row') : Recorded s' where
  bound sid epoch first hget := by
    obtain ⟨row, hrow, hepoch, hfirst⟩ := h.bound sid epoch first (hepochs sid epoch first hget)
    obtain ⟨row', hrow', hepoch', hend'⟩ := hrows sid epoch first row hget hrow
    exact ⟨row', hrow', hepoch.trans hepoch', hfirst.trans hend'⟩
  mono sid epoch epoch' first first' hget hget' :=
    h.mono sid epoch epoch' first first' (hepochs _ _ _ hget) (hepochs _ _ _ hget')

theorem Recorded.opened (h : Recorded s) {row row' : StreamRow}
    (hrow : s.toStreamTables.control sid = some row) (hlt : row.epoch < epoch)
    (hepochs : s'.epochs = s.epochs.insert (toLex (sid, epoch)) row.end_offset)
    (hrow' : s'.toStreamTables.control sid = some row') (hepoch' : row'.epoch = epoch)
    (hend' : row'.end_offset = row.end_offset) (hother : ∀ sid', sid' ≠ sid →
      s'.toStreamTables.control sid' = s.toStreamTables.control sid') : Recorded s' := by
  have hcases : ∀ sid' epoch' first, s'.epochs.get (toLex (sid', epoch')) = some first →
      sid' = sid ∧ epoch' = epoch ∧ first = row.end_offset ∨
        s.epochs.get (toLex (sid', epoch')) = some first := by
    intro sid' epoch' first hget
    rw [hepochs] at hget
    rcases get_insert_cases hget with ⟨hkey, rfl⟩ | ⟨-, hold⟩
    · cases hkey
      exact .inl ⟨rfl, rfl, rfl⟩
    · exact .inr hold
  constructor
  · intro sid' epoch' first hget
    rcases hcases sid' epoch' first hget with ⟨rfl, rfl, rfl⟩ | hold
    · exact ⟨row', hrow', hepoch'.ge, hend'.ge⟩
    · obtain ⟨old, hold', hle, hfirst⟩ := h.bound sid' epoch' first hold
      by_cases hsid : sid' = sid
      · subst hsid
        cases hrow.symm.trans hold'
        exact ⟨row', hrow', by omega, by omega⟩
      · exact ⟨old, (hother sid' hsid).trans hold', hle, hfirst⟩
  · intro sid' epoch₁ epoch₂ first₁ first₂ hget₁ hget₂ hlt₁₂
    rcases hcases sid' epoch₁ first₁ hget₁ with ⟨rfl, rfl, rfl⟩ | hold₁
    · -- nothing is recorded above the new epoch
      rcases hcases sid' epoch₂ first₂ hget₂ with ⟨-, rfl, rfl⟩ | hold₂
      · exact absurd hlt₁₂ (lt_irrefl _)
      · obtain ⟨old, hold', hle, -⟩ := h.bound sid' epoch₂ first₂ hold₂
        cases hrow.symm.trans hold'
        omega
    · rcases hcases sid' epoch₂ first₂ hget₂ with ⟨rfl, rfl, rfl⟩ | hold₂
      · obtain ⟨old, hold', -, hfirst⟩ := h.bound sid' epoch₁ first₁ hold₁
        cases hrow.symm.trans hold'
        exact hfirst
      · exact h.mono sid' epoch₁ epoch₂ first₁ first₂ hold₁ hold₂ hlt₁₂

/-! ## Rows -/

theorem commit_row_grows (hs : s.Wf) {n : ℤ} {r : MetadataResult}
    {request : CommitStreamSetObjectRequest} {now_ms : ℤ}
    (h : commit_stream_set_object noop s n request now_ms = .ok (s', r))
    (hforward : request.compacted_object_ids = [] →
      ∀ range ∈ request.ranges noop, range.start_offset ≤ range.end_offset)
    (hrow : s.toStreamTables.control sid = some row) :
    ∃ row', s'.toStreamTables.control sid = some row' ∧ RowGrows row row' := by
  rcases commit_stream_set_object_endOnly hs h sid with hsame | ⟨old, e, hold, hnew⟩
  · exact ⟨row, hsame.trans hrow, le_rfl, le_rfl⟩
  · cases hrow.symm.trans hold
    refine ⟨_, hnew, le_rfl, ?_⟩
    have htakes := commit_takesIn hs h
    have hbefore : end_of s sid = some row.end_offset := by rw [end_of_eq, hrow]; rfl
    have hafter : ends_after (!request.compacted_object_ids.isEmpty) s
        (request.ranges noop) sid = some e := by
      rw [← htakes.end_of_eq, end_of_eq, hnew]
      rfl
    have hfits := htakes.fits_self
    by_cases hplain : request.compacted_object_ids = []
    · rw [hplain] at hafter hfits
      have happends : Appends (end_of s) (request.ranges noop) := by
        simpa [Fits] using hfits
      exact (appended_spec happends (hforward hplain) hbefore
        (by simpa [ends_after] using hafter)).1
    · have hcompact : (!request.compacted_object_ids.isEmpty) = true := by simpa using hplain
      rw [hcompact, ends_after, if_pos rfl, hbefore] at hafter
      exact (Option.some.inj hafter).le

/-- No step takes the epoch or the end of a stream back, unless it deletes the stream. -/
theorem row_grows (hs : s.Wf) (hc : (∃ r, (apply noop s c).2 = .ok r) → CommitsForward noop c)
    (hrow : s.toStreamTables.control sid = some row) :
    (∃ p, c = .deleteStream p sid row.epoch) ∨
      ∃ row', (step noop s c).toStreamTables.control sid = some row' ∧ RowGrows row row' := by
  by_cases hcommit : ∃ p request now_ms, c = .commitStreamSetObject p request now_ms
  · obtain ⟨p, request, now_ms, rfl⟩ := hcommit
    right
    by_cases hok : ∃ r, (apply noop s (.commitStreamSetObject p request now_ms)).2 = .ok r
    · obtain ⟨r, hr⟩ := hok
      exact commit_row_grows hs (apply_ok hr).2 (hc ⟨r, hr⟩) hrow
    · rw [step_of_refused hok]
      exact ⟨row, hrow, le_rfl, le_rfl⟩
  · have hstep := step_rowStep noop hs c sid
    rw [hrow] at hstep
    generalize hrow' : (step noop s c).toStreamTables.control sid = o at hstep
    cases hstep with
    | same | placed | trimmed | closed | transferred =>
      exact .inr ⟨_, rfl, le_rfl, le_rfl⟩
    | opened p epoch _ hepoch => exact .inr ⟨_, rfl, hepoch.le, le_rfl⟩
    | deleted p => exact .inl ⟨p, rfl⟩
    | advanced p request now_ms => exact absurd ⟨p, request, now_ms, rfl⟩ hcommit

/-! ## Steps -/

theorem Effect.epochs_subset {first : ℕ} (h : Effect noop s c s')
    (hc : ∀ p sid epoch, c ≠ .openStream p sid epoch)
    (hget : s'.epochs.get (toLex (sid, epoch)) = some first) :
    s.epochs.get (toLex (sid, epoch)) = some first := by
  cases h with
  | opened p sid' epoch' => exact absurd rfl (hc p sid' epoch')
  | created c count =>
    rwa [create_next_unchanged (g := fun s : MetadataState => s.epochs) (fun _ => rfl) s count]
      at hget
  | trimmed p sid' offset row =>
    rw [destroy_stream_objects_cluster, get_trimmed_epochs] at hget
    split_ifs at hget
    exact hget
  | deleted p sid' row =>
    rw [destroy_stream_objects_cluster, get_other_epochs] at hget
    split_ifs at hget
    exact hget
  | committed p request now_ms s' hok => rwa [commit_stream_set_object_cluster hok] at hget
  | compacted p request now_ms s' hok => rwa [compact_stream_object_cluster hok] at hget
  | cleaned p ids =>
    rwa [foldl_unchanged (g := fun s : MetadataState => s.epochs) (f := remove_destroyed)
      (fun _ _ => rfl) s ids] at hget
  | _ => exact hget

theorem epochs_of_deleted {p : Proposer} {epoch epoch' : ℤ}
    (hrow : s.toStreamTables.control sid = some row)
    (hok : ∃ r, (apply noop s (.deleteStream p sid epoch)).2 = .ok r) :
    (step noop s (.deleteStream p sid epoch)).epochs.get (toLex (sid, epoch')) = none := by
  obtain ⟨r, hr⟩ := hok
  obtain ⟨old, hold, -⟩ := StreamTables.exists_of_control hrow
  rcases delete_stream_ok (apply_ok hr).2 with ⟨hnone, -⟩ | ⟨row', -, -, -, -, heq⟩
  · cases hold.symm.trans hnone
  · rw [step, heq, destroy_stream_objects_cluster, get_other_epochs, if_pos rfl]

theorem Recorded.step (h : Recorded s) (hs : s.Wf)
    (hc : (∃ r, (apply noop s c).2 = .ok r) → CommitsForward noop c) :
    Recorded (step noop s c) := by
  rcases step_effect s c with hsame | ⟨hok, -, heff⟩
  · rw [hsame]
    exact h
  by_cases hopen : ∃ p sid epoch, c = .openStream p sid epoch
  · obtain ⟨p, sid, epoch, rfl⟩ := hopen
    obtain ⟨r, hr⟩ := hok
    obtain ⟨row, hrow, ⟨-, -, -, heq⟩ | ⟨hlt, -, heq⟩⟩ := open_stream_ok (apply_ok hr).2
    · rw [Metadata.step, heq]
      exact h
    · obtain rfl := hs.streams.keyed sid row hrow
      rw [Metadata.step, heq]
      have hcontrol : ∀ sid', (s.put_stream
          { row with epoch, state := .opened, node_id := p.node_id }).toStreamTables.control sid' =
            if sid' = row.stream_id then
              some { row.control with epoch, state := .opened, node_id := p.node_id }
            else s.toStreamTables.control sid' := by
        intro sid'
        rw [put_stream_frame _ |>.2.1, StreamTables.control_put_stream]
        rfl
      have hold : s.toStreamTables.control row.stream_id = some row.control :=
        StreamTables.control_eq_some hrow
      refine h.opened hold hlt rfl ((hcontrol row.stream_id).trans (if_pos rfl)) rfl rfl ?_
      exact fun sid' hne => (hcontrol sid').trans (if_neg hne)
  · have hnot : ∀ p sid epoch, c ≠ .openStream p sid epoch := fun p sid epoch heq =>
      hopen ⟨p, sid, epoch, heq⟩
    refine h.frame (fun sid epoch first hget => heff.epochs_subset hnot hget) ?_
    intro sid epoch first row hget hrow
    rcases row_grows hs hc hrow with ⟨p, rfl⟩ | hgrows
    · cases (epochs_of_deleted hrow hok).symm.trans hget
    · exact hgrows

theorem Recorded.ordered (h : Recorded s) (sid : ℕ) : EpochsOrdered s sid where
  epochs := pairwise_stream_epochs s sid
  firsts := by
    refine firsts_of_mono (pairwise_stream_epochs s sid) fun a ha b hb hlt => ?_
    exact h.mono sid a.1 b.1 a.2 b.2 (mem_stream_epochs.1 ha) (mem_stream_epochs.1 hb) hlt
  below_end := by
    intro e he
    obtain ⟨row, hrow, -, hfirst⟩ := h.bound sid e.1 e.2 (mem_stream_epochs.1 he)
    obtain ⟨row', hrow', rfl⟩ := StreamTables.exists_of_control hrow
    exact ⟨row', hrow', hfirst⟩

theorem Recorded.trims (h : Recorded s) {p : Proposer} {start : ℕ}
    (hok : ∃ r, (apply noop s (.trimStream p sid epoch start)).2 = .ok r) :
    TrimsEpochs (s.stream_epochs sid)
      ((Metadata.step noop s (.trimStream p sid epoch start)).stream_epochs sid) start := by
  obtain ⟨r, hr⟩ := hok
  obtain ⟨row, -, -, -, -, -, heq⟩ := trim_stream_ok (apply_ok hr).2
  refine trimsEpochs_of_covered (pairwise_stream_epochs s sid) ?_ fun e => ?_
  · intro a ha b hb hlt
    exact h.mono sid a.1 b.1 a.2 b.2 (mem_stream_epochs.1 ha) (mem_stream_epochs.1 hb) hlt
  · rw [mem_stream_epochs, mem_stream_epochs, Metadata.step, heq, destroy_stream_objects_cluster]
    show (trimmed_epochs s sid start).get (toLex (sid, e.1)) = some e.2 ↔ _
    rw [get_trimmed_epochs]
    by_cases hcovered : e.1 ∈ covered_epochs s sid start
    · rw [if_pos ⟨rfl, hcovered⟩]
      constructor
      · intro hnone
        cases hnone
      · exact fun hboth => absurd hcovered hboth.2
    · rw [if_neg fun hboth => hcovered hboth.2]
      exact ⟨fun hget => ⟨hget, hcovered⟩, fun hboth => hboth.1⟩

/-! ## Runs -/

section Runs

variable {log : List MetadataCommand}

theorem history_recorded
    (h : EachAccepted noop log fun _ c => CommitsForward noop c) :
    Run.Always (step noop) {} log fun s => s.Wf ∧ Recorded s := by
  refine Run.always_of_eachStep ⟨Wf.empty, Recorded.empty⟩ ?_ h
  intro s c hs hc
  exact ⟨step_wf hs.1 c, hs.2.step hs.1 hc⟩

/-- If plain commits do not end before they start, recorded epochs are ordered with their first
offsets, none above the end; an accepted trim keeps every lookup from the new start on and drops the
earlier entries that none returns. -/
theorem epochs_over_runs
    (h : EachAccepted noop log fun _ c => CommitsForward noop c) (i sid : ℕ) :
    EpochsOrdered (history noop log i) sid ∧
      ∀ p epoch start, Accepted noop log i (.trimStream p sid epoch start) →
        TrimsEpochs ((history noop log i).stream_epochs sid)
          ((history noop log (i + 1)).stream_epochs sid) start := by
  have hrecorded := (history_recorded h i).2
  refine ⟨hrecorded.ordered sid, fun p epoch start hacc => ?_⟩
  rw [history_succ hacc.1]
  exact hrecorded.trims hacc.2

/-- Ten offsets under epoch 1, none under epoch 2, and a trim under epoch 3. -/
def reopened_stream (start : ℕ) : List MetadataCommand :=
  [.registerNode 1 0 "a" 1 .empty "wal", .createStream ⟨1, 0⟩, .openStream ⟨1, 0⟩ 0 1,
    .commitStreamSetObject ⟨1, 0⟩ ⟨0, 100, 0, [⟨0, 1, 0, 10, 100⟩], [], []⟩ 100,
    .closeStream ⟨1, 0⟩ 0 1, .openStream ⟨1, 0⟩ 0 2, .closeStream ⟨1, 0⟩ 0 2,
    .openStream ⟨1, 0⟩ 0 3, .trimStream ⟨1, 0⟩ 0 3 start]

theorem forward_reopened (start : ℕ) :
    EachAccepted 1000 (reopened_stream start) fun _ c => CommitsForward 1000 c := by
  unfold EachAccepted reopened_stream
  simp only [Run.eachStep_cons, Run.eachStep_nil, and_true]
  refine ⟨fun _ => trivial, fun _ => trivial, fun _ => trivial, fun _ => ?_, fun _ => trivial,
    fun _ => trivial, fun _ => trivial, fun _ => trivial, fun _ => trivial⟩
  unfold CommitsForward
  decide

theorem epochs_of_reopened_stream :
    EpochsOrdered (history 1000 (reopened_stream 10) 8) 0 ∧
      TrimsEpochs [(1, 0), (2, 10), (3, 10)] [(3, 10)] 10 := by
  have hbefore : (history 1000 (reopened_stream 10) 8).stream_epochs 0 =
      [(1, 0), (2, 10), (3, 10)] := by decide +kernel
  have hafter : (history 1000 (reopened_stream 10) 9).stream_epochs 0 = [(3, 10)] := by
    decide +kernel
  have h := epochs_over_runs (forward_reopened 10) 8 0
  have htrims := h.2 ⟨1, 0⟩ 3 10 ⟨rfl, .unit, by decide +kernel⟩
  rw [hbefore, hafter] at htrims
  exact ⟨h.1, htrims⟩

/-- A trim to 5 keeps the entry of epoch 2, which no lookup returns: epoch 3 begins at the same
offset. -/
theorem trim_keeps_unreached_epoch :
    Accepted 1000 (reopened_stream 5) 8 (.trimStream ⟨1, 0⟩ 0 3 5) ∧
      (2, 10) ∈ (history 1000 (reopened_stream 5) 9).stream_epochs 0 ∧
      ¬ Returned ((history 1000 (reopened_stream 5) 8).stream_epochs 0) 5 2 := by
  refine ⟨⟨rfl, .unit, by decide +kernel⟩, by decide +kernel, ?_⟩
  have hbefore : (history 1000 (reopened_stream 5) 8).stream_epochs 0 =
      [(1, 0), (2, 10), (3, 10)] := by decide +kernel
  rw [hbefore]
  rintro ⟨offset, -, hlookup⟩
  obtain ⟨⟨first, hmem, hfirst⟩, hmax⟩ := epoch_lookup_eq_some.1 hlookup
  have hten : first = 10 := by simpa using hmem
  have hle : (3 : ℤ) ≤ 2 := hmax (3, 10) (by decide) (by omega)
  omega

end Runs

end PicoMq.Metadata
