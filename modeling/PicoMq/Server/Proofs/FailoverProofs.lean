import PicoMq.Metadata.Proofs.NodeProofs
import PicoMq.Server.Failover

/-!
# Proofs: nobody is fenced who was heard of

A node that shows the same epoch and heartbeat count in two states was not heard of in between.
-/

namespace PicoMq.Server

open Metadata Nat

variable {noop noop : ℕ} {log : List MetadataCommand} {holder : Proposer} {n : ℤ}
variable {i j m : ℕ} {s : MetadataState} {c : MetadataCommand}
variable {old row : NodeRow} {s' : MetadataState} {r : MetadataResult}

/-! ## Rows along the log -/

/-- The epoch and the heartbeat count of a row are at least those of another. -/
def RowLe (old row : NodeRow) : Prop := old.epoch ≤ row.epoch ∧ old.heartbeats ≤ row.heartbeats

theorem row_step (hs : EpochsInRange s)
    (h : ∃ row, s.nodes.get n = some row ∧ RowLe old row) (c : MetadataCommand) :
    ∃ row, (step noop s c).nodes.get n = some row ∧ RowLe old row := by
  obtain ⟨row, hrow, hepoch, hbeats⟩ := h
  obtain ⟨row', hrow', hbeats', hgrows⟩ := node_row_step hs hrow c
  exact ⟨row', hrow', by omega, by omega⟩

theorem heartbeat_row {epoch : ℤ}
    (h : dispatch noop s (.heartbeat ⟨n, epoch⟩) = .ok (s', r))
    (hold : s.nodes.get n = some old) :
    s'.nodes.get n = some { old with heartbeats := old.heartbeats + 1 } := by
  simp only [dispatch, heartbeat, hold] at h
  cases h
  simp

theorem register_row {epoch : ℤ} {address wal : String}
    {slots : ℕ} {addresses : OrdMap String String}
    (h : dispatch noop s (.registerNode n epoch address slots addresses wal) = .ok (s', r))
    (hold : s.nodes.get n = some old) :
    ∃ row, s'.nodes.get n = some row ∧ row.epoch = max epoch (wrapI64 (old.epoch + 1)) := by
  simp only [dispatch, register_node, hold] at h
  cases h
  simp

theorem heard_step (hs : EpochsInRange (history noop log i))
    (h : Heard noop log n i)
    (hold : (history noop log i).nodes.get n = some old) :
    ∃ row, (history noop log (i + 1)).nodes.get n = some row ∧
      (old.epoch < row.epoch ∨ old.heartbeats < row.heartbeats) := by
  rcases h with ⟨epoch, hbeat⟩ | ⟨epoch, address, slots, addresses, wal, hregister⟩
  · obtain ⟨-, r, hd⟩ := hbeat.dispatch
    exact ⟨_, heartbeat_row hd hold, .inr (lt_succ_self _)⟩
  · obtain ⟨-, r, hd⟩ := hregister.dispatch
    obtain ⟨row, hrow, hepoch⟩ := register_row hd hold
    refine ⟨row, hrow, .inl ?_⟩
    rw [hepoch]
    exact lt_registered_epoch hs hold epoch

theorem beats_step
    (hold : (history noop log i).nodes.get n = some old)
    (hrow : (history noop log (i + 1)).nodes.get n = some row) :
    row.heartbeats = old.heartbeats ∨
      row.heartbeats = old.heartbeats + 1 ∧ Beats noop log n i := by
  cases hc : log[i]? with
  | none =>
    have hend : history noop log (i + 1) = history noop log i :=
      Run.after_succ_of_none hc
    rw [hend, hold] at hrow
    cases hrow
    exact .inl rfl
  | some c =>
    rw [history_succ hc] at hrow
    have hcases : step noop (history noop log i) c = _ ∨ _ :=
      step_effect (history noop log i) c
    rcases hcases with hsame | ⟨hok, -, heffect⟩
    · rw [hsame, hold] at hrow
      cases hrow
      exact .inl rfl
    · have hstep := heffect.nodeStep n
      rw [hold, hrow] at hstep
      cases hstep with
      | same => exact .inl rfl
      | kept _ _ _ _ _ hbeats =>
        cases c with
        | heartbeat p =>
          by_cases hp : p.node_id = n
          · refine .inr ⟨?_, p.node_epoch, ?_⟩
            · rw [hbeats]
              simp [MetadataCommand.beats, hp]
            · rw [← hp]
              exact ⟨hc, hok⟩
          · refine .inl ?_
            rw [hbeats]
            simp [MetadataCommand.beats, hp]
        | _ => exact .inl hbeats
      | registered _ _ _ _ _ _ _ _ _ hbeats => exact .inl hbeats
      | fenced _ _ _ _ _ _ _ hbeats => exact .inl hbeats

/-! ## Two states of one log -/

section Runs

variable (hrange : ∀ c ∈ log, c.EpochInRange)
  (hbelow : Run.Always (step noop) {} log EpochsBelowMax)

include hrange hbelow

theorem row_later (hij : i ≤ j)
    (hold : (history noop log i).nodes.get n = some old) :
    ∃ row, (history noop log j).nodes.get n = some row ∧ RowLe old row :=
  Run.after_of_le (P := fun s : MetadataState => ∃ row, s.nodes.get n = some row ∧ RowLe old row)
    hij ⟨old, hold, le_rfl, le_rfl⟩ fun k c _ _ _ hP =>
      row_step (history_epochsInRange hrange hbelow k) hP c

/-- A node with the same epoch and heartbeat count in two states was not heard of in between. -/
theorem not_heard_between
    (hold : (history noop log i).nodes.get n = some old)
    (hrow : (history noop log j).nodes.get n = some row)
    (hepoch : row.epoch = old.epoch) (hbeats : row.heartbeats = old.heartbeats)
    (him : i ≤ m) (hmj : m < j) : ¬Heard noop log n m := by
  intro hheard
  obtain ⟨before, hbefore, hle⟩ := row_later hrange hbelow him hold
  obtain ⟨after, hafter, hlt⟩ :=
    heard_step (history_epochsInRange hrange hbelow m) hheard hbefore
  obtain ⟨last, hlast, hle'⟩ := row_later hrange hbelow hmj hafter
  rw [hrow] at hlast
  cases hlast
  obtain ⟨h1, h2⟩ := hle
  obtain ⟨h3, h4⟩ := hle'
  omega

/-- The heartbeat count of a node went up by no more than the heartbeats accepted in between. -/
theorem beats_between (hij : i ≤ j)
    (hold : (history noop log i).nodes.get n = some old)
    (hrow : (history noop log j).nodes.get n = some row) :
    ∃ positions : Finset ℕ, row.heartbeats - old.heartbeats ≤ positions.card ∧
      ∀ k ∈ positions, i ≤ k ∧ k < j ∧ Beats noop log n k := by
  induction j, hij using le_induction generalizing row with
  | base =>
    rw [hold] at hrow
    cases hrow
    exact ⟨∅, by simp, by simp⟩
  | succ j hij ih =>
    obtain ⟨before, hbefore, hle⟩ := row_later hrange hbelow hij hold
    obtain ⟨positions, hcard, hpositions⟩ := ih hbefore
    have hpositions' : ∀ k ∈ positions, i ≤ k ∧ k < j + 1 ∧ Beats noop log n k := by
      intro k hk
      obtain ⟨hik, hkj, hbeat⟩ := hpositions k hk
      exact ⟨hik, lt_succ_of_lt hkj, hbeat⟩
    rcases beats_step hbefore hrow with hsame | ⟨hone, hbeat⟩
    · refine ⟨positions, ?_, hpositions'⟩
      rwa [hsame]
    · have hnew : j ∉ positions := fun hj => lt_irrefl _ (hpositions j hj).2.1
      refine ⟨insert j positions, ?_, ?_⟩
      · rw [Finset.card_insert_of_notMem hnew, hone]
        omega
      · intro k hk
        rcases Finset.mem_insert.1 hk with rfl | hk
        · exact ⟨hij, lt_succ_self _, hbeat⟩
        · exact hpositions' k hk

end Runs

/-! ## The clocks -/

/-- The node was as the row shows before the view, when the holder's count was `since`. -/
def FirstSeen (noop : ℕ) (log : List MetadataCommand) (holder : Proposer) (view : ℕ)
    (row : NodeRow) (since : ℕ) : Prop :=
  ∃ i old own, i ≤ view ∧ (history noop log i).nodes.get row.node_id = some old ∧
    old.epoch = row.epoch ∧ old.heartbeats = row.heartbeats ∧
    (history noop log i).nodes.get holder.node_id = some own ∧ own.heartbeats = since

/-- Every clock was started in a view of the log. -/
def ClocksRight (noop : ℕ) (log : List MetadataCommand) (holder : Proposer) (view : ℕ)
    (liveness : Liveness) : Prop :=
  ∀ row since, liveness.since.get (Liveness.seen row) = some since →
    FirstSeen noop log holder view row since

variable {view : ℕ} {liveness : Liveness} {own : NodeRow}

theorem ClocksRight.mono {view' : ℕ} (h : ClocksRight noop log holder view liveness)
    (hle : view ≤ view') : ClocksRight noop log holder view' liveness := by
  intro row since hsince
  obtain ⟨i, old, own, hi, hrest⟩ := h row since hsince
  exact ⟨i, old, own, hi.trans hle, hrest⟩

theorem seen_inj {row' : NodeRow} (h : Liveness.seen row = Liveness.seen row') :
    row.node_id = row'.node_id ∧ row.epoch = row'.epoch ∧ row.heartbeats = row'.heartbeats := by
  simpa [Liveness.seen] using h

/-- What the scan of a view has found so far. -/
structure Scanned (noop : ℕ) (log : List MetadataCommand) (holder : Proposer)
    (view beats clock : ℕ) (acc : Liveness × List NodeRow) : Prop where
  same_beats : acc.1.beats = beats
  tracked : ClocksRight noop log holder view acc.1
  silent : ∀ row ∈ acc.2, ∃ since, FirstSeen noop log holder view row since ∧
    beats ≤ clock - since
  rows : ∀ row ∈ acc.2, row.node_id ≠ holder.node_id ∧
    (history noop log view).nodes.get row.node_id = some row

theorem observe_scanned {beats : ℕ} {acc : Liveness × List NodeRow}
    (hown : (history noop log view).nodes.get holder.node_id = some own)
    (hrow : (history noop log view).nodes.get row.node_id = some row)
    (hother : row.node_id ≠ holder.node_id)
    (h : Scanned noop log holder view beats own.heartbeats acc) :
    Scanned noop log holder view beats own.heartbeats
      (Liveness.observe own.heartbeats acc row) := by
  -- the clock of the row runs since it was first seen, which may be now
  have hsince : FirstSeen noop log holder view row
      ((acc.1.since.get (Liveness.seen row)).getD own.heartbeats) := by
    cases hget : acc.1.since.get (Liveness.seen row) with
    | none => exact ⟨view, row, own, le_rfl, hrow, rfl, rfl, hown, rfl⟩
    | some since => exact h.tracked row since hget
  refine ⟨h.same_beats, ?_, ?_, ?_⟩
  · intro row' since hget
    simp only [Liveness.observe, OrdMap.get_insert] at hget
    split_ifs at hget with hkey
    · cases hget
      obtain ⟨hid, hepoch, hbeats⟩ := seen_inj hkey
      obtain ⟨i, old, own', hi, hold, he, hb, hrest⟩ := hsince
      exact ⟨i, old, own', hi, hid ▸ hold, he.trans hepoch.symm, hb.trans hbeats.symm, hrest⟩
    · exact h.tracked row' since hget
  · intro row' hmem
    simp only [Liveness.observe] at hmem
    split_ifs at hmem with hlong
    · rcases List.mem_append.1 hmem with hmem | hmem
      · exact h.silent row' hmem
      · cases List.mem_singleton.1 hmem
        rw [h.same_beats] at hlong
        exact ⟨_, hsince, hlong⟩
    · exact h.silent row' hmem
  · intro row' hmem
    simp only [Liveness.observe] at hmem
    split_ifs at hmem with hlong
    · rcases List.mem_append.1 hmem with hmem | hmem
      · exact h.rows row' hmem
      · cases List.mem_singleton.1 hmem
        exact ⟨hother, hrow⟩
    · exact h.rows row' hmem

/-- A node is reported when the holder's count has gone up far enough since it was as it is. -/
theorem dead_scanned (htracked : ClocksRight noop log holder view liveness)
    (hown : (history noop log view).nodes.get holder.node_id = some own) :
    Scanned noop log holder view liveness.beats own.heartbeats
      (liveness.dead (history noop log view) holder) := by
  unfold Liveness.dead
  rw [hown]
  dsimp only
  refine List.foldl_invariant (fun acc row hmem h => ?_) ⟨rfl, ?_, by simp, by simp⟩
  · obtain ⟨hvalue, hrow⟩ := List.mem_filter.1 hmem
    obtain ⟨id, hget⟩ := OrdMap.mem_values.1 hvalue
    obtain ⟨hother, -⟩ := of_decide_eq_true hrow
    have hid := history_nodes_keyed hget
    exact observe_scanned hown (hid ▸ hget) hother h
  · intro row since hget
    rw [OrdMap.get_retain] at hget
    split_ifs at hget
    exact htracked row since hget

theorem tick_tracked (t : Tick) (h : ClocksRight noop log holder t.view liveness) :
    (tick noop log holder liveness t).1.beats = liveness.beats ∧
      ClocksRight noop log holder t.view (tick noop log holder liveness t).1 := by
  unfold tick
  dsimp only
  split_ifs with hskip
  · exact ⟨rfl, nofun⟩
  · cases hown : (history noop log t.view).nodes.get holder.node_id with
    | none =>
      simp only [Liveness.dead, hown]
      exact ⟨trivial, h⟩
    | some own =>
      have hscanned := dead_scanned h hown
      exact ⟨hscanned.same_beats, hscanned.tracked⟩

theorem clocks_tracked (noop : ℕ) (log : List MetadataCommand) (holder : Proposer)
    {ticks : List Tick} (hviews : ticks.Pairwise fun a b => a.view ≤ b.view) {k : ℕ} {t : Tick}
    (ht : ticks[k]? = some t) (liveness : Liveness) (hfresh : liveness.since = .empty) :
    (clocks noop log holder liveness ticks k).beats = liveness.beats ∧
      ClocksRight noop log holder t.view
        (clocks noop log holder liveness ticks k) := by
  induction k generalizing t with
  | zero =>
    refine ⟨rfl, fun row since hget => ?_⟩
    rw [show (clocks noop log holder liveness ticks 0).since = .empty from hfresh] at hget
    cases hget
  | succ k ih =>
    obtain ⟨hk, ht'⟩ := List.getElem?_eq_some_iff.1 ht
    have hprev : ticks[k]? = some (ticks.get ⟨k, by omega⟩) := List.getElem?_eq_getElem _
    obtain ⟨hbeats, htracked⟩ := ih hprev
    have hle : (ticks.get ⟨k, by omega⟩).view ≤ t.view := by
      rw [← ht']
      exact List.pairwise_iff_getElem.1 hviews k (k + 1) (by omega) hk (lt_succ_self k)
    have hstep := tick_tracked _ htracked
    rw [clocks, Run.after_succ hprev]
    exact ⟨hstep.1.trans hbeats, hstep.2.mono hle⟩

/-! ## Fences -/

theorem exists_lastHeard
    (hrow : (history noop log j).nodes.get n = some row) :
    ∃ m, LastHeard noop log n j m := by
  induction j generalizing row with
  | zero => cases hrow
  | succ j ih =>
    by_cases hheard : Heard noop log n j
    · exact ⟨j, hheard, lt_succ_self j, fun m' h1 h2 => by omega⟩
    · cases hold : (history noop log j).nodes.get n with
      | some old =>
        obtain ⟨m, hm, hlt, hlast⟩ := ih hold
        refine ⟨m, hm, Nat.lt_succ_of_lt hlt, fun m' h1 h2 => ?_⟩
        rcases Nat.lt_succ_iff_lt_or_eq.1 h2 with h2 | rfl
        · exact hlast m' h1 h2
        · exact hheard
      | none =>
        -- a row appears by a registration only
        exfalso
        cases hc : log[j]? with
        | none =>
          have hend : history noop log (j + 1) = history noop log j :=
            Run.after_succ_of_none hc
          rw [hend, hold] at hrow
          cases hrow
        | some c =>
          rw [history_succ hc] at hrow
          have hcases : step noop (history noop log j) c = _ ∨ _ :=
            step_effect (history noop log j) c
          rcases hcases with hsame | ⟨hok, -, heffect⟩
          · rw [hsame, hold] at hrow
            cases hrow
          · have hstep := heffect.nodeStep n
            rw [hold, hrow] at hstep
            cases hstep with
            | registered => exact hheard (.inr ⟨_, _, _, _, _, hc, hok⟩)

/-- A fence that another node proposes is accepted only while its target is as the fence says. -/
theorem fence_row
    (hother : row.node_id ≠ holder.node_id)
    (h : dispatch noop s (fence_of holder row) = .ok (s', r)) :
    ∃ node, s.nodes.get row.node_id = some node ∧ node.epoch = row.epoch ∧
      node.heartbeats = row.heartbeats := by
  simp only [fence_of, dispatch, fence_node] at h
  cases hnode : s.nodes.get row.node_id with
  | none => simp [hnode] at h
  | some node =>
    simp only [hnode] at h
    split_ifs at h with hstale
    simp only [not_or, not_and, not_not] at hstale
    obtain ⟨-, hepoch, hbeats⟩ := hstale
    refine ⟨node, rfl, hepoch, hbeats fun hleaving => hother ?_⟩
    rw [hleaving]

theorem le_new_beats {interval_ms timeout_ms : ℕ} (hinterval : 0 < interval_ms)
    (hfits : div_ceil timeout_ms interval_ms < 2 ^ 64) :
    div_ceil timeout_ms interval_ms ≤
      (Liveness.new (.from_millis interval_ms) (.from_millis timeout_ms)).beats := by
  have hmillis : ∀ ms, (Duration.from_millis ms).as_millis = ms := fun ms =>
    Nat.mul_div_cancel ms (by norm_num)
  have hmax : max interval_ms 1 = interval_ms := Nat.max_eq_left hinterval
  simp only [Liveness.new, hmillis, hmax, if_pos hfits]
  exact le_max_left _ _

/-- Every accepted fence of the lease holder against another node is preceded by a full timeout of
the holder's own accepted heartbeats since the log last heard of the target. -/
theorem fenced_after_silence (hrange : ∀ c ∈ log, c.EpochInRange)
    (hbelow : Run.Always (step noop) {} log EpochsBelowMax)
    {interval_ms timeout_ms : ℕ} (hinterval : 0 < interval_ms)
    (hfits : div_ceil timeout_ms interval_ms < 2 ^ 64) {ticks : List Tick}
    (hviews : ticks.Pairwise fun a b => a.view ≤ b.view) {view : ℕ} {row : NodeRow}
    (hreports : Reports noop log holder (.from_millis interval_ms)
      (.from_millis timeout_ms) ticks view row) (hview : view ≤ j)
    (haccepted : Accepted noop log j (fence_of holder row)) :
    row.node_id ≠ holder.node_id ∧ ∃ m, LastHeard noop log row.node_id j m ∧
      BeatsBetween noop log holder.node_id m j (div_ceil timeout_ms interval_ms) := by
  obtain ⟨k, t, ht, rfl, hmem⟩ := hreports
  obtain ⟨hbeats, htracked⟩ := clocks_tracked noop log holder hviews ht
    (.new (.from_millis interval_ms) (.from_millis timeout_ms)) rfl
  unfold tick at hmem
  dsimp only at hmem
  split_ifs at hmem with hskip
  · cases hmem
  cases hown : (history noop log t.view).nodes.get holder.node_id with
  | none => simp [Liveness.dead, hown] at hmem
  | some own =>
    have hscanned := dead_scanned htracked hown
    obtain ⟨since, ⟨i, old, before, hi, hold, hepoch, hcount, hbefore, rfl⟩, hlong⟩ :=
      hscanned.silent row hmem
    obtain ⟨hother, -⟩ := hscanned.rows row hmem
    obtain ⟨-, r, hd⟩ := haccepted.dispatch
    obtain ⟨node, hnode, hepoch', hcount'⟩ := fence_row hother hd
    obtain ⟨m, hm⟩ := exists_lastHeard hnode
    -- the target was not heard of since its clock started
    have hmi : m < i := by
      by_contra hle
      exact not_heard_between hrange hbelow hold hnode (hepoch'.trans hepoch.symm)
        (hcount'.trans hcount.symm) (not_lt.1 hle) hm.2.1 hm.1
    obtain ⟨positions, hcard, hpositions⟩ := beats_between hrange hbelow hi hbefore hown
    refine ⟨hother, m, hm, positions, ?_, fun p hp => ?_⟩
    · have hle := le_new_beats hinterval hfits
      omega
    · obtain ⟨hip, hpt, hbeat⟩ := hpositions p hp
      exact ⟨by omega, by omega, hbeat⟩

/-- Node 2 goes silent after one heartbeat; node 1 holds the lease and heartbeats on. -/
def silent_log : List MetadataCommand :=
  [.registerNode 1 10 "a" 1 .empty "wal", .registerNode 2 20 "b" 1 .empty "wal",
    .heartbeat ⟨2, 20⟩, .heartbeat ⟨1, 10⟩, .heartbeat ⟨1, 10⟩, .heartbeat ⟨1, 10⟩,
    .fenceNode ⟨1, 10⟩ 2 20 1]

/-- The row of node 2 in the view that reports it. -/
def silent_row : NodeRow := ⟨2, 20, "b", 1, .empty, "wal", 1, false⟩

theorem fenced_after_silence_of_node_2 :
    ∃ m, LastHeard 1000 silent_log 2 6 m ∧ BeatsBetween 1000 silent_log 1 m 6 2 := by
  have hreports : Reports 1000 silent_log ⟨1, 10⟩ (.from_millis 5000) (.from_millis 10000)
      [⟨true, 3⟩, ⟨true, 4⟩, ⟨true, 5⟩] 5 silent_row :=
    ⟨2, ⟨true, 5⟩, rfl, rfl, by decide +kernel⟩
  exact (fenced_after_silence (by decide) (Run.always_of_le_length (by decide +kernel)) (by decide)
    (by decide) (by decide) hreports (by decide) ⟨rfl, .unit, by decide +kernel⟩).2

/-- At the greatest epoch a registration wraps around, and a fence proposed before it still finds
the node. -/
def wrapping_log : List MetadataCommand :=
  [.registerNode 1 10 "a" 1 .empty "wal", .registerNode 2 (2 ^ 63 - 1) "b" 1 .empty "wal",
    .heartbeat ⟨1, 10⟩, .heartbeat ⟨1, 10⟩, .registerNode 2 (2 ^ 63 - 1) "b" 1 .empty "wal",
    .fenceNode ⟨1, 10⟩ 2 (2 ^ 63 - 1) 0]

theorem registered_node_fenced_at_greatest_epoch :
    ∃ row, Reports 1000 wrapping_log ⟨1, 10⟩ (.from_millis 5000) (.from_millis 10000)
        [⟨true, 2⟩, ⟨true, 4⟩] 4 row ∧
      Accepted 1000 wrapping_log 5 (fence_of ⟨1, 10⟩ row) ∧
      LastHeard 1000 wrapping_log row.node_id 5 4 ∧
      ¬BeatsBetween 1000 wrapping_log 1 4 5 (div_ceil 10000 5000) := by
  refine ⟨⟨2, 2 ^ 63 - 1, "b", 1, .empty, "wal", 0, false⟩,
    ⟨1, ⟨true, 4⟩, rfl, rfl, by decide +kernel⟩, ⟨rfl, .unit, by decide +kernel⟩,
    ⟨.inr ⟨_, _, _, _, _, rfl, .id (2 ^ 63 - 1), by decide +kernel⟩, by decide,
      fun m' h1 h2 => by omega⟩, ?_⟩
  rintro ⟨positions, hcard, hpositions⟩
  obtain ⟨p, hp⟩ := Finset.card_pos.1 (Nat.lt_of_lt_of_le (by decide) hcard)
  obtain ⟨h1, h2, -⟩ := hpositions p hp
  omega

end PicoMq.Server
