import PicoMq.Sql.Proofs.StoreProofs

/-!
# The tasks of a sink keep to the history

A step of each task keeps what its local data and the shared state are said to hold of the history.
-/

namespace PicoMq.Sql

open Except Metadata SharedLog

/-! ## Applying a row -/

section ApplyBatch

variable {noop : ℕ} {rows : List Row} {applied : ℕ} {state : MetadataState} {row : Row}

theorem apply_batch_state (state : MetadataState) (commands : List MetadataCommand) :
    (apply_batch noop state commands).1 =
      Run.run (step noop) state commands := by
  induction commands generalizing state with
  | nil => rfl
  | cons command commands ih => exact ih (apply noop state command).1

theorem apply_batch_length (state : MetadataState) (commands : List MetadataCommand) :
    (apply_batch noop state commands).2.length = commands.length := by
  induction commands generalizing state with
  | nil => rfl
  | cons command commands ih =>
    exact congrArg (· + 1) (ih (apply noop state command).1)

/-- The result of a command is its apply result after the commands before it. -/
theorem apply_batch_result (noop : ℕ) (state : MetadataState) {commands : List MetadataCommand} {j : ℕ}
    {command : MetadataCommand} (h : commands[j]? = some command) :
    (apply_batch noop state commands).2[j]? =
      some (apply noop
        (Run.run (step noop) state (commands.take j)) command).2 := by
  induction commands generalizing state j with
  | nil => cases h
  | cons first commands ih =>
    cases j with
    | zero =>
      cases h
      rfl
    | succ j => exact ih (apply noop state first).1 h

theorem reflects_next (h : Reflects noop rows applied state)
    (hrow : entry rows (applied + 1) = some row) :
    Reflects noop rows (applied + 1)
      (apply_batch noop state row.commands).1 where
  le := (entry_le hrow).2
  eq := by rw [apply_batch_state, h.eq, replayed_succ hrow]

theorem results_next (h : Reflects noop rows applied state)
    (hrow : entry rows (applied + 1) = some row) :
    ResultsOf noop rows (applied + 1)
      (apply_batch noop state row.commands).2 :=
  ⟨row, hrow, by rw [h.eq]; rfl⟩

end ApplyBatch

variable {Payload : Type} {noop : ℕ} {codec : Codec noop Payload}
  {rows more : List Row} {low low' : ℕ} {store : MetaStore Payload}
  (config : SqlSinkConfig) (fault : Option Fault)
variable {fetched : List (ℕ × Payload)} {pc : Opening Payload} {payload : Payload}
variable (hstore : StoreHolds codec rows store)

theorem tail_next {applied idx : ℕ}
    (h : Tail (encode_row codec) rows low applied ((idx, payload) :: fetched))
    (hgap : ¬applied + 1 < idx) :
    idx = applied + 1 ∧ Tail (encode_row codec) rows low idx fetched ∧
      ∃ row, entry rows idx = some row ∧ codec.decode_batch payload = .ok row.commands := by
  obtain ⟨hlt, -, ⟨row, hrow, hpayload⟩, hrest⟩ := h
  refine ⟨by omega, hrest, row, hrow, ?_⟩
  rw [hpayload]
  exact codec.decode_encode_batch row.commands

theorem tail_gap {applied idx : ℕ}
    (h : Tail (encode_row codec) rows low applied ((idx, payload) :: fetched))
    (hgap : applied + 1 < idx) : applied < low := by
  obtain ⟨-, hnext, -⟩ := h
  rcases hnext with heq | hbelow
  · omega
  · exact hbelow

/-! ## What others do -/

theorem opening_mono (hlow : low ≤ low')
    (h : OpeningInv codec rows low pc) : OpeningInv codec (rows ++ more) low' pc := by
  cases pc with
  | load => trivial
  | fetch replay => exact reflects_append h
  | rows replay fetched => exact ⟨reflects_append h.1, tail_mono more hlow h.2⟩
  | reload replay idx => exact lt_of_lt_of_le h hlow

theorem tailer_mono (more : List Row) {shown : ℕ} {tailer : Tailer Payload} (hlow : low ≤ low')
    (h : TailerInv codec rows low shown tailer) :
    TailerInv codec (rows ++ more) low' shown tailer := by
  obtain ⟨state, applied, pc⟩ := tailer
  refine ⟨reflects_append h.reflects, ?_⟩
  have hpc := h.pc
  cases pc with
  | fetch => exact hpc
  | emptyTail => exact hpc
  | rows fetched => exact ⟨hpc.1, tail_mono more hlow hpc.2⟩
  | restore => exact ⟨hpc.1, lt_of_lt_of_le hpc.2 hlow⟩
  | restoreSeen snap_idx state => exact ⟨hpc.1, hpc.2.1, reflects_append hpc.2.2⟩
  | restorePublish snap_idx state => exact ⟨hpc.1, hpc.2.1, reflects_append hpc.2.2⟩
  | restoreRetain snap_idx state => exact ⟨hpc.1, reflects_append hpc.2⟩
  | seen results fetched =>
    exact ⟨hpc.1, results_append hpc.2.1, tail_mono more hlow hpc.2.2⟩
  | publish results fetched =>
    exact ⟨hpc.1, results_append hpc.2.1, tail_mono more hlow hpc.2.2⟩
  | deliver results fetched =>
    exact ⟨hpc.1, results_append hpc.2.1, tail_mono more hlow hpc.2.2⟩
  | send waiter results fetched =>
    exact ⟨hpc.1, hpc.2.1, results_append hpc.2.2.1, tail_mono more hlow hpc.2.2.2⟩
  | halted => exact hpc

theorem snapshot_mono {pc : SnapshotPc} (hlow : low ≤ low')
    (h : SnapshotInv rows low noop pc) :
    SnapshotInv (rows ++ more) low' noop pc := by
  cases pc with
  | waiting last_snapshot => trivial
  | store last_snapshot view => exact reflects_append h
  | truncate applied => exact le_trans h hlow

theorem flusher_mono {pc : FlusherPc} (h : FlusherInv rows pc) : FlusherInv (rows ++ more) pc := by
  have hlen : rows.length ≤ (rows ++ more).length := by simp
  cases pc with
  | register batch next => exact le_trans h (by omega)
  | append batch next rx => exact ⟨le_trans h.1 (by omega), h.2⟩
  | await batch next rx => exact ⟨h.1, entry_append h.2 more⟩
  | recv => trivial
  | gather requests => trivial
  | load batch => trivial
  | lost batch next => trivial
  | refresh batch => trivial
  | unregister batch next error => trivial

theorem shared_mono {shared : Shared} (h : SharedInv rows noop shared) :
    SharedInv (rows ++ more) noop shared where
  view := reflects_append h.view
  last_seen_le := by
    have := h.last_seen_le
    simp only [List.length_append]
    omega
  unpoisoned := h.unpoisoned
  registered := h.registered
  delivered := by
    intro channel results hinbox
    obtain ⟨hle, hresults⟩ := h.delivered channel results hinbox
    exact ⟨hle, results_append hresults⟩

theorem node_mono {node : Node Payload} (hlow : low ≤ low') (h : NodeInv codec rows low node) :
    NodeInv codec (rows ++ more) low' node := by
  cases node with
  | down => trivial
  | opening boot config pc => exact opening_mono hlow h
  | up boot config sink =>
    exact ⟨shared_mono h.shared, tailer_mono more hlow h.tailer, snapshot_mono hlow h.snapshotter,
      flusher_mono h.flusher⟩
  | failed error => exact h

/-! ## Cold start -/

include hstore in
theorem install_inv {idx : ℕ}
    (hs : store.meta_snapshot = some (idx, payload)) :
    OpenedInv codec rows low (install codec idx payload) := by
  obtain ⟨state, hdecode, hreflects⟩ := hstore.decode_snapshot hs
  unfold install
  rw [hdecode]
  exact hreflects

include hstore in
/-- A step of a cold start keeps to the history, and fails on store errors only. -/
theorem open_step_inv
    (h : OpeningInv codec rows store.covered pc) :
    OpenedInv codec rows store.covered (open_step codec config fault store pc) := by
  cases pc with
  | load =>
    simp only [open_step]
    cases hread : read fault (.ok store.load_snapshot) with
    | error error => exact ⟨error, rfl⟩
    | ok snapshot =>
      have hs : store.meta_snapshot = snapshot := ok.inj (read_eq_ok hread)
      cases snapshot with
      | none => exact reflects_zero
      | some snapshot => exact install_inv hstore hs
  | fetch replay =>
    simp only [open_step]
    cases hread : read fault (store.fetch_after replay.applied config.fetch_limit) with
    | error error => exact ⟨error, rfl⟩
    | ok fetched =>
      have htail := hstore.fetch_tail hread
      cases fetched with
      | nil => exact h
      | cons row fetched => exact ⟨h, htail⟩
  | rows replay fetched =>
    obtain ⟨hreflects, htail⟩ := h
    cases fetched with
    | nil => exact hreflects
    | cons row fetched =>
      obtain ⟨idx, payload⟩ := row
      simp only [open_step]
      by_cases hgap : replay.applied + 1 < idx
      · rw [if_pos hgap]
        exact tail_gap htail hgap
      · obtain ⟨rfl, hrest, row, hrow, hdecode⟩ := tail_next htail hgap
        rw [if_neg hgap, hdecode]
        exact ⟨reflects_next hreflects hrow, hrest⟩
  | reload replay idx =>
    -- the gap lies below the snapshot, so there is one
    obtain ⟨payload, hs⟩ := StoreHolds.exists_snapshot h
    simp only [open_step]
    cases hread : read fault (.ok store.load_snapshot) with
    | error error => exact ⟨error, rfl⟩
    | ok snapshot =>
      have hload : store.meta_snapshot = snapshot := ok.inj (read_eq_ok hread)
      rw [hs] at hload
      subst hload
      exact install_inv hstore hs

theorem open_step_done {config : SqlSinkConfig} {fault : Option Fault} {replay : Replay}
    (h : open_step codec config fault store pc = .done replay) :
    pc = .fetch replay ∧
      read fault (store.fetch_after replay.applied config.fetch_limit) = .ok [] := by
  have hinstall : ∀ idx payload, install codec idx payload ≠ .done replay := by
    intro idx payload hi
    unfold install at hi
    split at hi <;> cases hi
  cases pc with
  | load =>
    simp only [open_step] at h
    split at h
    · cases h
    · cases h
    · exact absurd h (hinstall _ _)
  | fetch start =>
    simp only [open_step] at h
    split at h
    · cases h
    · rename_i hread
      cases h
      exact ⟨rfl, hread⟩
    · cases h
  | rows start fetched =>
    cases fetched with
    | nil => cases h
    | cons row fetched =>
      simp only [open_step] at h
      split at h
      · cases h
      · split at h <;> cases h
  | reload start idx =>
    simp only [open_step] at h
    split at h
    · cases h
    · cases h
    · exact absurd h (hinstall _ _)

/-! ## Shared state -/

namespace SharedInv

variable {shared : Shared}

section

variable (h : SharedInv rows noop shared)
include h

theorem see {idx : ℕ} (hle : idx ≤ rows.length) : SharedInv rows noop (shared.see idx) :=
  { h with
    last_seen_le := max_le h.last_seen_le hle }

theorem publish {view : MetadataView} (hview : Reflects noop rows view.applied_index view.state)
    (hle : shared.view.applied_index ≤ view.applied_index) :
    SharedInv rows noop (shared.publish view) :=
  { h with
    view := hview
    delivered := by
      intro channel results hinbox
      obtain ⟨hshown, hresults⟩ := h.delivered channel results hinbox
      exact ⟨le_trans hshown hle, hresults⟩ }

theorem register {map : OrdMap ℕ Channel}
    (hmap : ∀ idx channel, map.get idx = some channel → channel.idx = idx) :
    SharedInv rows noop (shared.register map) :=
  { h with
    registered := hmap }

theorem remove (idx : ℕ) :
    SharedInv rows noop (shared.register (shared.pending.map.remove idx)) := by
  refine h.register ?_
  intro idx' channel hget
  exact h.registered idx' channel (OrdMap.of_get_remove hget).2

theorem retain (p : ℕ → Bool) :
    SharedInv rows noop (shared.register (shared.pending.map.retain p)) := by
  refine h.register ?_
  intro idx' channel hget
  rw [OrdMap.get_retain] at hget
  split_ifs at hget
  exact h.registered idx' channel hget

theorem insert (channel : Channel) :
    SharedInv rows noop (shared.register (shared.pending.map.insert channel.idx channel)) := by
  refine h.register ?_
  intro idx' channel' hget
  rw [OrdMap.get_insert] at hget
  split_ifs at hget with heq
  · cases hget
    exact heq.symm
  · exact h.registered idx' channel' hget

theorem send {channel : Channel}
    {results : BatchResults} (hshown : channel.idx ≤ shared.view.applied_index)
    (hresults : ResultsOf noop rows channel.idx results) :
    SharedInv rows noop (shared.send channel results) :=
  { h with
    delivered := by
      intro channel' results' hinbox
      by_cases heq : channel' = channel
      · subst heq
        have hsent : some results = some results' := by
          rw [← hinbox]
          exact (Function.update_self channel' (some results) shared.inbox).symm
        cases hsent
        exact ⟨hshown, hresults⟩
      · have hold : shared.inbox channel' = some results' := by
          rw [← hinbox]
          exact (Function.update_of_ne heq (some results) shared.inbox).symm
        exact h.delivered channel' results' hold }

end

end SharedInv

/-! ## Tailer -/

section Tailer

variable {shared : Shared} {tailer : Tailer Payload}

section

variable (hs : SharedInv rows noop shared)
include hs

theorem tailer_moves
    (ht : TailerInv codec rows low shared.view.applied_index tailer) :
    TailerStepInv codec rows low shared.view { shared, tailer } :=
  ⟨hs, ht, .inl ⟨rfl, rfl⟩⟩

theorem tailer_step_rows {state : MetadataState} {applied : ℕ}
    (hreflects : Reflects noop rows applied state) (hshown : shared.view.applied_index ≤ applied)
    (htail : Tail (encode_row codec) rows store.covered applied fetched) :
    TailerStepInv codec rows store.covered shared.view
      (tailer_step codec config fault store shared ⟨state, applied, .rows fetched⟩) := by
  cases fetched with
  | nil => exact tailer_moves hs ⟨hreflects, hshown⟩
  | cons row fetched =>
    obtain ⟨idx, payload⟩ := row
    simp only [tailer_step]
    by_cases hgap : applied + 1 < idx
    · rw [if_pos hgap]
      exact tailer_moves hs ⟨hreflects, hshown, tail_gap htail hgap⟩
    · obtain ⟨rfl, hrest, row, hrow, hdecode⟩ := tail_next htail hgap
      have hshown' : shared.view.applied_index ≤ applied + 1 := Nat.le_succ_of_le hshown
      rw [if_neg hgap, hdecode]
      exact tailer_moves hs ⟨reflects_next hreflects hrow, hshown',
        results_next hreflects hrow, hrest⟩

include hstore in
theorem tailer_step_restore {state : MetadataState} {applied : ℕ}
    (hreflects : Reflects noop rows applied state)
    (hshown : shared.view.applied_index ≤ applied) (hbelow : applied < store.covered) :
    TailerStepInv codec rows store.covered shared.view
      (tailer_step codec config fault store shared ⟨state, applied, .restore⟩) := by
  obtain ⟨payload, hsnapshot⟩ := StoreHolds.exists_snapshot hbelow
  obtain ⟨state', hdecode, hstate⟩ := hstore.decode_snapshot hsnapshot
  simp only [tailer_step]
  cases hread : read fault (.ok store.load_snapshot) with
  | error error => exact tailer_moves hs ⟨hreflects, hshown⟩
  | ok snapshot =>
    have hload : store.meta_snapshot = snapshot := ok.inj (read_eq_ok hread)
    rw [hsnapshot] at hload
    subst hload
    have hnewer : ¬store.covered ≤ applied := not_le.2 hbelow
    simp only
    rw [if_neg hnewer, hdecode]
    exact tailer_moves hs ⟨hreflects, hshown, hbelow, hstate⟩

include hstore in
/-- A step of the tailer keeps to the history; it never poisons the sink. -/
theorem tailer_step_inv
    (ht : TailerInv codec rows store.covered shared.view.applied_index tailer) :
    TailerStepInv codec rows store.covered shared.view
      (tailer_step codec config fault store shared tailer) := by
  obtain ⟨state, applied, pc⟩ := tailer
  have hreflects := ht.reflects
  have hpc := ht.pc
  cases pc with
  | rows fetched => exact tailer_step_rows config fault hs hreflects hpc.1 hpc.2
  | restore => exact tailer_step_restore config fault hstore hs hreflects hpc.1 hpc.2
  | fetch =>
    simp only [tailer_step]
    cases hread : read fault (store.fetch_after applied config.fetch_limit) with
    | error error => exact tailer_moves hs ht
    | ok fetched =>
      have htail := hstore.fetch_tail hread
      cases fetched with
      | nil => exact tailer_moves hs ⟨hreflects, hpc⟩
      | cons row fetched => exact tailer_moves hs ⟨hreflects, hpc, htail⟩
  | emptyTail =>
    simp only [tailer_step]
    split
    · rename_i snap_idx hread
      have hsnap : store.meta_snapshot.map Prod.fst = some snap_idx :=
        ok.inj (read_eq_ok hread)
      have hcovered : store.covered = snap_idx := by simp [MetaStore.covered, hsnap]
      by_cases hnewer : applied < snap_idx
      · rw [if_pos hnewer]
        rw [← hcovered] at hnewer
        exact tailer_moves hs ⟨hreflects, hpc, hnewer⟩
      · rw [if_neg hnewer]
        exact tailer_moves hs ⟨hreflects, hpc⟩
    · exact tailer_moves hs ⟨hreflects, hpc⟩
  | restoreSeen snap_idx snapshot =>
    obtain ⟨hshown, hnewer, hsnapshot⟩ := hpc
    exact ⟨hs.see hsnapshot.le, ⟨hreflects, hshown, hnewer, hsnapshot⟩, .inl ⟨rfl, rfl⟩⟩
  | restorePublish snap_idx snapshot =>
    obtain ⟨hshown, hnewer, hsnapshot⟩ := hpc
    have hle : shared.view.applied_index ≤ snap_idx := le_trans hshown hnewer.le
    exact ⟨hs.publish hsnapshot hle, ⟨hreflects, rfl, hsnapshot⟩, .inr ⟨rfl, hle⟩⟩
  | restoreRetain snap_idx snapshot =>
    obtain ⟨hshown, hsnapshot⟩ := hpc
    exact ⟨hs.retain _, ⟨hsnapshot, le_of_eq hshown⟩, .inl ⟨rfl, rfl⟩⟩
  | seen results fetched =>
    exact ⟨hs.see hreflects.le, ⟨hreflects, hpc⟩, .inl ⟨rfl, rfl⟩⟩
  | publish results fetched =>
    obtain ⟨hshown, hresults, htail⟩ := hpc
    exact ⟨hs.publish hreflects hshown, ⟨hreflects, rfl, hresults, htail⟩, .inr ⟨rfl, hshown⟩⟩
  | deliver results fetched =>
    obtain ⟨hshown, hresults, htail⟩ := hpc
    simp only [tailer_step]
    cases hget : shared.pending.map.get applied with
    | none => exact tailer_moves hs ⟨hreflects, le_of_eq hshown, htail⟩
    | some waiter =>
      have hidx : waiter.idx = applied := hs.registered applied waiter hget
      exact ⟨hs.remove _, ⟨hreflects, hshown, hidx, hresults, htail⟩, .inl ⟨rfl, rfl⟩⟩
  | send waiter results fetched =>
    obtain ⟨hshown, hidx, hresults, htail⟩ := hpc
    have hdelivered : waiter.idx ≤ shared.view.applied_index := by omega
    rw [← hidx] at hresults
    exact ⟨hs.send hdelivered hresults, ⟨hreflects, le_of_eq hshown, htail⟩, .inl ⟨rfl, rfl⟩⟩
  | halted => exact hpc.elim

end

end Tailer

/-! ## Snapshot task -/

include hstore in
/-- A step of the snapshot task loses no row that is not covered. -/
theorem snapshot_step_inv {view : MetadataView}
    (hview : Reflects noop rows view.applied_index view.state) {pc : SnapshotPc}
    (h : SnapshotInv rows store.covered noop pc) :
    StoreHolds codec rows (snapshot_step codec config fault store view pc).1 ∧
      store.covered ≤ (snapshot_step codec config fault store view pc).1.covered ∧
      SnapshotInv rows (snapshot_step codec config fault store view pc).1.covered noop
        (snapshot_step codec config fault store view pc).2 := by
  cases pc with
  | waiting last_snapshot =>
    simp only [snapshot_step]
    split_ifs with hdue
    · exact ⟨hstore, le_rfl, hview⟩
    · exact ⟨hstore, le_rfl, trivial⟩
  | store last_snapshot taken =>
    simp only [snapshot_step]
    rcases call_cases fault store
        (·.store_snapshot taken.applied_index (codec.encode taken.state)) with
      ⟨hsame, -, error, hanswer⟩ | ⟨next, done, hdone, hnext, -, hanswer⟩
    · rw [hsame, hanswer]
      exact ⟨hstore, le_rfl, trivial⟩
    · obtain ⟨hholds, hle, hcovers⟩ := hstore.store_snapshot h hdone
      rw [hnext]
      rcases hanswer with hok | ⟨error, herror⟩
      · rw [hok]
        exact ⟨hholds, hle, hcovers⟩
      · rw [herror]
        exact ⟨hholds, hle, trivial⟩
  | truncate applied =>
    simp only [snapshot_step]
    rcases call_cases fault store (·.truncate_log applied) with
      ⟨hsame, -, -⟩ | ⟨next, done, hdone, hnext, -, -⟩
    · rw [hsame]
      exact ⟨hstore, le_rfl, trivial⟩
    · obtain ⟨hholds, heq⟩ := hstore.truncate_log h hdone
      rw [hnext]
      exact ⟨hholds, heq.ge, trivial⟩

/-! ## Flusher -/

section Flusher

variable {shared : Shared} {batch : Batch}

theorem fan_out_own {next : ℕ} {results : BatchResults}
    (hrow : entry rows next = some ⟨next, batch.id, batch.commands⟩)
    (hresults : ResultsOf noop rows next results)
    (hshown : next ≤ shared.view.applied_index) :
    (fan_out shared batch next results).Own noop rows next := by
  obtain ⟨row, hrow', hresults⟩ := hresults
  rw [hrow] at hrow'
  cases hrow'
  have hlen : results.length = batch.requests.length := by
    rw [hresults, apply_batch_length]
    simp [Batch.commands]
  refine ⟨hrow, ?_, ?_, hshown⟩
  · simp [fan_out, hlen]
  · intro j request hrequest
    have hrequest : batch.requests[j]? = some request := hrequest
    have hcommand : batch.commands[j]? = some request.command := by
      simp [Batch.commands, hrequest]
    have hresult := apply_batch_result noop
      (replayed noop rows (next - 1)) hcommand
    rw [← hresults] at hresult
    have hzip : (batch.requests.zip results)[j]? = some (request, _) :=
      List.getElem?_zip_eq_some.2 ⟨hrequest, hresult⟩
    show ((batch.requests.zip results).map _)[j]? = _
    rw [List.getElem?_map, hzip]
    rfl

include hstore in
theorem flusher_moves {shared' : Shared}
    {queue : List ProposeRequest} {pc : FlusherPc} {answered : Option Answer}
    (hs : SharedInv rows noop shared') (hview : shared'.view = shared.view)
    (hpc : FlusherInv rows pc)
    (hown : ∀ answer ∈ answered, ∀ idx ∈ answer.index, answer.Own noop rows idx) :
    FlusherStepInv codec rows store.covered shared.view
      { store, shared := shared', queue, pc, answered } := by
  have hrows : rows ++ (none : Option Row).toList = rows := List.append_nil rows
  refine ⟨?_, rfl, ?_, hview, ?_, ?_⟩ <;> rw [hrows]
  · exact hstore
  · exact hs
  · exact hpc
  · exact hown

theorem refuse_own {error : MetadataError} :
    ∀ answer ∈ some (refuse shared batch error), ∀ idx ∈ answer.index,
      answer.Own noop rows idx := by
  intro answer hanswer idx hidx
  cases hanswer
  cases hidx

theorem no_answer_own :
    ∀ answer ∈ (none : Option Answer), ∀ idx ∈ answer.index,
      answer.Own noop rows idx := by
  intro answer hanswer
  cases hanswer

include hstore in
theorem flusher_step_append
    (hs : SharedInv rows noop shared) {tailer : Tailer Payload}
    {queue : List ProposeRequest} {fresh next : ℕ} {rx : Channel}
    (hnext : next ≤ rows.length + 1) (hrx : rx.idx = next) :
    FlusherStepInv codec rows store.covered shared.view
      (flusher_step codec config fault fresh store shared tailer queue
        (.append batch next rx)) := by
  simp only [flusher_step]
  rcases call_cases fault store (·.append next (codec.encode_batch batch.commands)) with
    ⟨hsame, hexecuted, error, hanswer⟩ | ⟨store', won, hdone, hstore', hexecuted, hanswer⟩
  · rw [hsame, hexecuted, hanswer]
    exact flusher_moves hstore hs rfl trivial no_answer_own
  · rw [hstore', hexecuted]
    cases won with
    | false =>
      obtain ⟨hwon, -⟩ | ⟨-, rfl⟩ := append_cases hdone
      · cases hwon
      · rcases hanswer with hok | ⟨error, herror⟩
        · rw [hok]
          exact flusher_moves hstore hs rfl trivial no_answer_own
        · rw [herror]
          exact flusher_moves hstore hs rfl trivial no_answer_own
    | true =>
      obtain ⟨hlast, hholds, hcovered⟩ := hstore.append_won batch.id hnext hdone
      have hrow : entry (rows ++ [⟨next, batch.id, batch.commands⟩]) next =
          some ⟨next, batch.id, batch.commands⟩ := by
        have := entry_last rows (⟨next, batch.id, batch.commands⟩ : Row)
        rwa [← hlast] at this
      refine ⟨hholds, hcovered, shared_mono hs, rfl, ?_, no_answer_own⟩
      rcases hanswer with hok | ⟨error, herror⟩
      · rw [hok]
        exact ⟨hrx, hrow⟩
      · rw [herror]
        trivial

include hstore in
theorem flusher_step_inv
    (hs : SharedInv rows noop shared) (tailer : Tailer Payload)
    (queue : List ProposeRequest) (fresh : ℕ) {pc : FlusherPc} (h : FlusherInv rows pc) :
    FlusherStepInv codec rows store.covered shared.view
      (flusher_step codec config fault fresh store shared tailer queue pc) := by
  cases pc with
  | append batch next rx => exact flusher_step_append config fault hstore hs h.1 h.2
  | recv =>
    cases queue with
    | nil => exact flusher_moves hstore hs rfl trivial no_answer_own
    | cons first queue => exact flusher_moves hstore hs rfl trivial no_answer_own
  | gather requests =>
    cases queue with
    | nil => exact flusher_moves hstore hs rfl trivial no_answer_own
    | cons request queue =>
      simp only [flusher_step]
      split_ifs
      · exact flusher_moves hstore hs rfl trivial no_answer_own
      · exact flusher_moves hstore hs rfl trivial no_answer_own
  | load batch =>
    have hle := hs.last_seen_le
    exact flusher_moves hstore hs rfl (by show shared.last_seen + 1 ≤ _; omega) no_answer_own
  | register batch next =>
    simp only [flusher_step]
    rw [if_neg (by simp [hs.unpoisoned])]
    have hinsert := hs.insert ⟨shared.next_channel, next⟩
    refine flusher_moves hstore ?_ rfl ⟨h, rfl⟩ no_answer_own
    exact ⟨hinsert.view, hinsert.last_seen_le, hinsert.unpoisoned, hinsert.registered,
      hinsert.delivered⟩
  | await batch next rx =>
    obtain ⟨hrx, hrow⟩ := h
    simp only [flusher_step]
    cases hinbox : shared.inbox rx with
    | some results =>
      obtain ⟨hshown, hresults⟩ := hs.delivered rx results hinbox
      rw [hrx] at hshown hresults
      refine flusher_moves hstore hs rfl trivial ?_
      intro answer hanswer idx hidx
      cases hanswer
      cases hidx
      exact fan_out_own hrow hresults hshown
    | none =>
      simp only
      split_ifs
      · exact flusher_moves hstore hs rfl ⟨hrx, hrow⟩ no_answer_own
      · exact flusher_moves hstore hs rfl trivial refuse_own
      · exact flusher_moves hstore hs rfl trivial refuse_own
  | lost batch next => exact flusher_moves hstore (hs.remove next) rfl trivial no_answer_own
  | refresh batch =>
    simp only [flusher_step]
    cases hread : read fault (.ok store.last_idx) with
    | error error => exact flusher_moves hstore hs rfl trivial refuse_own
    | ok last =>
      have hlast : store.last_idx = last := ok.inj (read_eq_ok hread)
      rw [hstore.last_idx_eq] at hlast
      exact flusher_moves hstore (hs.see (by omega)) rfl trivial no_answer_own
  | unregister batch next error =>
    exact flusher_moves hstore (hs.remove next) rfl trivial refuse_own

theorem flusher_step_unsent (codec : Codec noop Payload) (store : MetaStore Payload)
    (shared : Shared) (tailer : Tailer Payload) (queue : List ProposeRequest) (fresh : ℕ)
    (pc : FlusherPc) :
    SendStep fresh pc.unsent
      (flusher_step codec config fault fresh store shared tailer queue pc).appended
      (flusher_step codec config fault fresh store shared tailer queue pc).pc.unsent := by
  cases pc with
  | append batch next rx =>
    simp only [flusher_step]
    rcases call_cases fault store (·.append next (codec.encode_batch batch.commands)) with
      ⟨-, hexecuted, error, hanswer⟩ | ⟨store', won, -, -, hexecuted, hanswer⟩
    · rw [hexecuted, hanswer]
      exact .dropped rfl rfl
    · rw [hexecuted]
      rcases hanswer with hok | ⟨error, herror⟩
      · rw [hok]
        cases won with
        | false => exact .kept rfl rfl
        | true => exact .sent _ rfl rfl rfl
      · rw [herror]
        cases won with
        | false => exact .dropped rfl rfl
        | true => exact .sent _ rfl rfl rfl
  | recv => cases queue <;> exact .kept rfl rfl
  | gather requests =>
    cases queue with
    | nil => exact .drained rfl rfl
    | cons request queue =>
      simp only [flusher_step]
      split_ifs
      · exact .kept rfl rfl
      · exact .drained rfl rfl
  | load batch => exact .kept rfl rfl
  | register batch next =>
    simp only [flusher_step]
    split_ifs
    · exact .dropped rfl rfl
    · exact .kept rfl rfl
  | await batch next rx =>
    simp only [flusher_step]
    split
    · exact .kept rfl rfl
    · split_ifs <;> exact .kept rfl rfl
  | lost batch next => exact .kept rfl rfl
  | refresh batch =>
    simp only [flusher_step]
    split
    · exact .kept rfl rfl
    · exact .dropped rfl rfl
  | unregister batch next error => exact .kept rfl rfl

end Flusher

end PicoMq.Sql
