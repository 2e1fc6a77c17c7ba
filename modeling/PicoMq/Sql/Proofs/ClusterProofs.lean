import PicoMq.Sql.Proofs.SinkProofs

/-!
# Nodes sharing one store follow one log

What an action of one node keeps, for the node itself and for all others, and from it what every
run of the cluster keeps.
-/

namespace PicoMq.Sql

open Cluster List Metadata Option SharedLog

variable {Payload : Type} {noop : ℕ} {codec : Codec noop Payload}
  {rows : List Row} {store : MetaStore Payload} {clock : ℕ} {action : Action}
  {node : Node Payload}

/-! ## One node -/

theorem node_publishes {store' : MetaStore Payload} {node' : Node Payload}
    {published : Option (ℕ × MetadataView)} (hstore : StoreHolds codec rows store')
    (hle : store.covered ≤ store'.covered) (hnode : NodeInv codec rows store'.covered node')
    (hpublished : ∀ publication ∈ published,
      Reflects noop rows publication.2.applied_index publication.2.state) :
    NodeStepInv codec rows store.covered { store := store', node := node', published } := by
  have hrows : rows ++ (none : Option Row).toList = rows := append_nil rows
  refine ⟨?_, hle, ?_, ?_, ?_⟩
  · rw [hrows]
    exact hstore
  · rw [hrows]
    exact hnode
  · rw [hrows]
    exact hpublished
  · intro answer hanswered
    cases hanswered

theorem node_moves {store' : MetaStore Payload} {node' : Node Payload}
    (hstore : StoreHolds codec rows store') (hle : store.covered ≤ store'.covered)
    (hnode : NodeInv codec rows store'.covered node') :
    NodeStepInv codec rows store.covered { store := store', node := node' } := by
  refine node_publishes hstore hle hnode ?_
  intro publication hpublished
  cases hpublished

theorem start_inv {low : ℕ} {replay : Replay}
    (h : Reflects noop rows replay.applied replay.state) :
    SinkInv codec rows low (.start replay) where
  shared := {
    view := h
    last_seen_le := h.le
    unpoisoned := rfl
    registered := fun idx channel hget => by cases hget
    delivered := fun channel results hinbox => by cases hinbox }
  tailer := ⟨h, le_rfl⟩
  snapshotter := trivial
  flusher := trivial

/-- An action of a node keeps to the history. -/
theorem node_step_inv (clock : ℕ) (action : Action) (hstore : StoreHolds codec rows store)
    (h : NodeInv codec rows store.covered node) :
    NodeStepInv codec rows store.covered (node_step codec clock store action node) := by
  unfold node_step
  split
  · exact node_moves hstore le_rfl trivial
  · exact node_moves hstore le_rfl trivial
  · exact node_moves hstore le_rfl trivial
  · -- a step of a cold start
    rename_i fault boot config pc
    have hopened := open_step_inv config fault hstore h
    cases hstep : open_step codec config fault store pc with
    | running pc' =>
      rw [hstep] at hopened
      exact node_moves hstore le_rfl hopened
    | failed error =>
      rw [hstep] at hopened
      exact node_moves hstore le_rfl hopened
    | done replay =>
      rw [hstep] at hopened
      refine node_publishes hstore le_rfl ?_ ?_
      · exact start_inv hopened
      · intro publication hpublication
        cases hpublication
        exact hopened
  · -- a step of the tailer
    rename_i fault boot config sink
    have hnext := tailer_step_inv config fault hstore h.shared h.tailer
    refine node_publishes hstore le_rfl ?_ ?_
    · exact ⟨hnext.shared, hnext.tailer, h.snapshotter, h.flusher⟩
    · intro publication hpublication
      obtain ⟨view, hview, rfl⟩ := mem_map.1 hpublication
      rcases hnext.published with ⟨hnone, -⟩ | ⟨hsome, -⟩
      · rw [hnone] at hview
        cases hview
      · rw [hsome] at hview
        cases hview
        exact hnext.shared.view
  · -- a step of the snapshot task
    rename_i fault boot config sink
    obtain ⟨hholds, hle, hpc⟩ := snapshot_step_inv config fault hstore h.shared.view h.snapshotter
    refine node_moves hholds hle ⟨h.shared, ?_, hpc, h.flusher⟩
    have htailer := tailer_mono [] hle h.tailer
    rw [append_nil] at htailer
    exact htailer
  · -- a step of the flusher
    rename_i fault boot config sink
    have hnext := flusher_step_inv config fault hstore h.shared sink.tailer sink.queue clock
      h.flusher
    have hle : store.covered ≤ _ := hnext.covered.ge
    refine ⟨hnext.store, hle, ⟨hnext.shared, ?_, snapshot_mono hle h.snapshotter, hnext.flusher⟩,
      ?_, hnext.answered⟩
    · rw [hnext.view]
      exact tailer_mono _ hle h.tailer
    · intro publication hpublication
      cases hpublication
  · -- a proposal
    split_ifs
    · exact node_moves hstore le_rfl ⟨h.shared, h.tailer, h.snapshotter, h.flusher⟩
    · exact node_moves hstore le_rfl h
  · exact node_moves hstore le_rfl h

theorem node_step_view (clock : ℕ) (action : Action) (hstore : StoreHolds codec rows store)
    (h : NodeInv codec rows store.covered node) :
    ViewStep clock store action node (node_step codec clock store action node) := by
  unfold node_step
  split
  · exact .began rfl rfl rfl
  · exact .began rfl rfl rfl
  · exact .ended rfl rfl rfl
  · rename_i fault boot config pc
    cases hstep : open_step codec config fault store pc with
    | running pc' => exact .same rfl rfl rfl
    | failed error => exact .ended rfl rfl rfl
    | done replay =>
      obtain ⟨rfl, hread⟩ := open_step_done hstep
      refine .started boot ⟨replay.applied, replay.state⟩ rfl rfl rfl rfl rfl ?_
      intro htip
      simpa [opens_at_tip, hread] using htip
  · rename_i fault boot config sink
    have hnext := tailer_step_inv config fault hstore h.shared h.tailer
    rcases hnext.published with ⟨hnone, hview⟩ | ⟨hsome, hle⟩
    · refine .same (by simp only [hnone, map_none]) rfl ?_
      exact congrArg some hview
    · exact .forward boot sink.shared.view _ (by simp only [hsome, map_some]) rfl rfl rfl rfl
        hle
  · exact .same rfl rfl rfl
  · rename_i fault boot config sink
    have hnext := flusher_step_inv config fault hstore h.shared sink.tailer sink.queue clock
      h.flusher
    exact .same rfl rfl (congrArg some hnext.view)
  · split_ifs
    · exact .same rfl rfl rfl
    · exact .same rfl rfl rfl
  · exact .same rfl rfl rfl

theorem node_step_send (codec : Codec noop Payload) (clock : ℕ)
    (store : MetaStore Payload) (action : Action) (node : Node Payload) :
    SendStep clock node.unsent (node_step codec clock store action node).appended
      (node_step codec clock store action node).node.unsent := by
  unfold node_step
  split
  · exact .dropped rfl rfl
  · exact .dropped rfl rfl
  · exact .dropped rfl rfl
  · split <;> exact .dropped rfl rfl
  · exact .kept rfl rfl
  · exact .kept rfl rfl
  · exact flusher_step_unsent _ _ codec store _ _ _ clock _
  · split_ifs <;> exact .kept rfl rfl
  · exact .kept rfl rfl

/-! ## The cluster -/

section Steps

variable {cluster : Cluster Payload} {n : ℕ}

theorem step_nodes_self : (cluster.step codec (n, action)).nodes n =
    (node_step codec cluster.clock cluster.store action (cluster.nodes n)).node :=
  Function.update_self n _ cluster.nodes

theorem step_nodes_ne {m : ℕ} (h : m ≠ n) :
    (cluster.step codec (n, action)).nodes m = cluster.nodes m :=
  Function.update_of_ne h _ cluster.nodes

theorem Cluster.Inv.step (h : cluster.Inv codec) (input : ℕ × Action) :
    (cluster.step codec input).Inv codec := by
  obtain ⟨n, action⟩ := input
  have hnext := node_step_inv cluster.clock action h.store (h.nodes n)
  refine ⟨hnext.store, ?_, ?_, ?_⟩
  · intro m
    by_cases hm : m = n
    · subst hm
      rw [step_nodes_self]
      exact hnext.node
    · rw [step_nodes_ne hm]
      exact node_mono hnext.covered (h.nodes m)
  · intro p hp
    rcases mem_append.1 hp with hold | hnew
    · exact reflects_append (h.published p hold)
    · obtain ⟨publication, hpublication, rfl⟩ := mem_map.1 (mem_toList.1 hnew)
      exact hnext.published publication hpublication
  · intro answer hanswer idx hidx
    rcases mem_append.1 hanswer with hold | hnew
    · exact own_append (h.answers answer hold idx hidx)
    · exact hnext.answered answer (mem_toList.1 hnew) idx hidx

theorem Cluster.BatchInv.of_quiet {next : Cluster Payload} (h : cluster.BatchInv)
    (hclock : next.clock = cluster.clock + 1) (hrows : next.rows = cluster.rows)
    (hunsent : ∀ m, ∀ id ∈ (next.nodes m).unsent,
      id ∈ (cluster.nodes m).unsent ∨ (m = n ∧ id = cluster.clock)) : next.BatchInv := by
  refine ⟨?_, ?_, ?_, ?_, ?_⟩
  · rw [hrows]
    exact h.rows_nodup
  · intro row hrow
    rw [hrows] at hrow
    have hpast := h.rows_past row hrow
    omega
  · intro m id hid
    rcases hunsent m id hid with hold | ⟨-, hnew⟩
    · have hpast := h.unsent_past m id hold
      omega
    · omega
  · intro m id hid hrow
    rw [hrows] at hrow
    rcases hunsent m id hid with hold | ⟨-, hnew⟩
    · exact h.unsent_no_row m id hold hrow
    · obtain ⟨row, hmem, hbatch⟩ := mem_map.1 hrow
      have hpast := h.rows_past row hmem
      omega
  · intro a b id ha hb
    rcases hunsent a id ha with holda | ⟨hna, hnewa⟩ <;>
      rcases hunsent b id hb with holdb | ⟨hnb, hnewb⟩
    · exact h.unsent_one a b id holda holdb
    · have hpast := h.unsent_past a id holda
      omega
    · have hpast := h.unsent_past b id holdb
      omega
    · rw [hna, hnb]

theorem Cluster.BatchInv.of_sent {next : Cluster Payload} {row : Row} (h : cluster.BatchInv)
    (hclock : next.clock = cluster.clock + 1) (hrows : next.rows = cluster.rows ++ [row])
    (hbefore : row.batch ∈ (cluster.nodes n).unsent)
    (hunsent : ∀ m, ∀ id ∈ (next.nodes m).unsent, id ∈ (cluster.nodes m).unsent ∧ m ≠ n) :
    next.BatchInv := by
  have hmap : next.rows.map (·.batch) = cluster.rows.map (·.batch) ++ [row.batch] := by
    rw [hrows, map_append]
    rfl
  refine ⟨?_, ?_, ?_, ?_, ?_⟩
  · rw [hmap]
    refine h.rows_nodup.append (nodup_singleton _) ?_
    intro id hid hnew
    rw [mem_singleton.1 hnew] at hid
    exact h.unsent_no_row n row.batch hbefore hid
  · intro old hmem
    rw [hrows] at hmem
    rcases mem_append.1 hmem with hold | hnew
    · have hpast := h.rows_past old hold
      omega
    · have hpast := h.unsent_past n row.batch hbefore
      rw [mem_singleton.1 hnew]
      omega
  · intro m id hid
    have hpast := h.unsent_past m id (hunsent m id hid).1
    omega
  · intro m id hid hrow
    obtain ⟨hold, hm⟩ := hunsent m id hid
    rw [hmap] at hrow
    rcases mem_append.1 hrow with hrow | hnew
    · exact h.unsent_no_row m id hold hrow
    · rw [mem_singleton.1 hnew] at hold
      exact hm (h.unsent_one m n row.batch hold hbefore)
  · intro a b id ha hb
    exact h.unsent_one a b id (hunsent a id ha).1 (hunsent b id hb).1

theorem Cluster.BatchInv.step (h : cluster.BatchInv) (input : ℕ × Action) :
    (cluster.step codec input).BatchInv := by
  obtain ⟨n, action⟩ := input
  -- only the acting node's batch changes
  have hother : ∀ m, m ≠ n → ∀ id ∈ ((cluster.step codec (n, action)).nodes m).unsent,
      id ∈ (cluster.nodes m).unsent := by
    intro m hm id hid
    rw [step_nodes_ne hm] at hid
    exact hid
  have hquiet : ∀ unsent,
      (node_step codec cluster.clock cluster.store action (cluster.nodes n)).appended = none →
      (node_step codec cluster.clock cluster.store action (cluster.nodes n)).node.unsent = unsent →
      (∀ id ∈ unsent, id ∈ (cluster.nodes n).unsent ∨ id = cluster.clock) →
      (cluster.step codec (n, action)).BatchInv := by
    intro unsent happended hafter hcases
    refine h.of_quiet (n := n) rfl ?_ ?_
    · show cluster.rows ++ _ = _
      rw [happended]
      exact append_nil _
    · intro m id hid
      by_cases hm : m = n
      · subst hm
        rw [step_nodes_self, hafter] at hid
        rcases hcases id hid with hold | hnew
        · exact .inl hold
        · exact .inr ⟨rfl, hnew⟩
      · exact .inl (hother m hm id hid)
  cases node_step_send codec cluster.clock cluster.store action (cluster.nodes n) with
  | kept happended hafter => exact hquiet _ happended hafter fun id hid => .inl hid
  | dropped happended hafter =>
    refine hquiet none happended hafter ?_
    intro id hid
    cases hid
  | drained happended hafter =>
    refine hquiet _ happended hafter ?_
    intro id hid
    exact .inr (some.inj hid).symm
  | sent row happended hbefore hafter =>
    refine h.of_sent rfl ?_ hbefore ?_
    · show cluster.rows ++ _ = _
      rw [happended]
      rfl
    · intro m id hid
      by_cases hm : m = n
      · subst hm
        rw [step_nodes_self, hafter] at hid
        cases hid
      · exact ⟨hother m hm id hid, hm⟩

theorem mem_step_published {p : Publication}
    (hp : p ∈ (cluster.step codec (n, action)).published) :
    p ∈ cluster.published ∨ (p.node = n ∧
      (node_step codec cluster.clock cluster.store action (cluster.nodes n)).published =
        some (p.boot, p.view)) := by
  rcases mem_append.1 hp with hold | hnew
  · exact .inl hold
  · obtain ⟨publication, hpublication, rfl⟩ := mem_map.1 (mem_toList.1 hnew)
    exact .inr ⟨rfl, hpublication⟩

theorem ViewStep.of_published {next : NodeStep Payload} {boot : ℕ} {view : MetadataView}
    (h : ViewStep clock store action node next) (hpublished : next.published = some (boot, view)) :
    node.boot = some boot ∧ next.node.boot = some boot ∧ next.node.shown = some view ∧
      (node.shown = none → opens_at_tip store action node = true →
        store.last_idx ≤ view.applied_index) := by
  cases h with
  | same hnone _ _ =>
    rw [hnone] at hpublished
    cases hpublished
  | ended hnone _ _ =>
    rw [hnone] at hpublished
    cases hpublished
  | began hnone _ _ =>
    rw [hnone] at hpublished
    cases hpublished
  | started _ _ hsome hbefore _ hafter hshown hat =>
    rw [hsome] at hpublished
    cases hpublished
    exact ⟨hbefore, hafter, hshown, fun _ => hat⟩
  | forward _ _ _ hsome hbefore hshows hafter hshown _ =>
    rw [hsome] at hpublished
    cases hpublished
    refine ⟨hbefore, hafter, hshown, fun hnone => ?_⟩
    rw [hshows] at hnone
    cases hnone

theorem ViewStep.of_boot {next : NodeStep Payload} {boot : ℕ}
    (h : ViewStep clock store action node next) (hboot : next.node.boot = some boot) :
    (node.boot = some boot ∧ (node.shown ≠ none → next.node.shown ≠ none)) ∨ boot = clock := by
  cases h with
  | same _ hsame hshown =>
    rw [hsame] at hboot
    rw [hshown]
    exact .inl ⟨hboot, id⟩
  | ended _ hnone _ =>
    rw [hnone] at hboot
    cases hboot
  | began _ hnew _ =>
    rw [hnew] at hboot
    exact .inr (some.inj hboot).symm
  | started _ _ _ hbefore _ hafter hshown _ =>
    rw [hbefore, ← hafter, hshown]
    exact .inl ⟨hboot, fun _ => some_ne_none _⟩
  | forward _ _ _ _ hbefore _ hafter hshown _ =>
    rw [hbefore, ← hafter, hshown]
    exact .inl ⟨hboot, fun _ => some_ne_none _⟩

theorem Cluster.BootInv.step (h : cluster.BootInv) (hinv : cluster.Inv codec)
    (input : ℕ × Action) : (cluster.step codec input).BootInv := by
  obtain ⟨n, action⟩ := input
  have hview := node_step_view cluster.clock action hinv.store (hinv.nodes n)
  refine ⟨?_, ?_, ?_⟩
  · intro m boot hm
    by_cases heq : m = n
    · subst heq
      rw [step_nodes_self] at hm
      rcases hview.of_boot hm with ⟨hold, -⟩ | hnew
      · exact Nat.lt_succ_of_lt (h.boot_past m boot hold)
      · exact Nat.lt_succ_of_le hnew.le
    · rw [step_nodes_ne heq] at hm
      exact Nat.lt_succ_of_lt (h.boot_past m boot hm)
  · intro p hp
    rcases mem_step_published hp with hold | ⟨-, hnew⟩
    · exact Nat.lt_succ_of_lt (h.published_past p hold)
    · exact Nat.lt_succ_of_lt (h.boot_past n p.boot (hview.of_published hnew).1)
  · intro p hp hcurrent
    by_cases heq : p.node = n
    · subst heq
      rw [step_nodes_self] at hcurrent ⊢
      rcases mem_step_published hp with hold | ⟨-, hnew⟩
      · rcases hview.of_boot hcurrent with ⟨hbefore, hkept⟩ | hclock
        · exact hkept (h.opening_silent p hold hbefore)
        · have hpast := h.published_past p hold
          omega
      · rw [(hview.of_published hnew).2.2.1]
        exact some_ne_none _
    · rcases mem_step_published hp with hold | ⟨hnode, -⟩
      · rw [step_nodes_ne heq] at hcurrent ⊢
        exact h.opening_silent p hold hcurrent
      · exact absurd hnode heq

theorem Cluster.OrderInv.step {earlier : ℕ → ℕ → Publication → Prop} (h : cluster.OrderInv earlier)
    (hinv : cluster.Inv codec) (hnode : ∀ n boot p, earlier n boot p → p.node = n)
    (hstart : ∀ boot view,
      (node_step codec cluster.clock cluster.store action (cluster.nodes n)).published =
        some (boot, view) → (cluster.nodes n).shown = none →
      ∀ p ∈ cluster.published, earlier n boot p → p.view.applied_index ≤ view.applied_index) :
    (cluster.step codec (n, action)).OrderInv earlier := by
  have hview := node_step_view cluster.clock action hinv.store (hinv.nodes n)
  -- what is shown after the step is not below the earlier publications
  have hold : ∀ p ∈ cluster.published, ∀ boot view,
      (node_step codec cluster.clock cluster.store action (cluster.nodes n)).node.boot = some boot →
      (node_step codec cluster.clock cluster.store action (cluster.nodes n)).node.shown =
        some view →
      earlier n boot p → p.view.applied_index ≤ view.applied_index := by
    intro p hp boot view hboot hshown hearlier
    cases hview with
    | same _ hb hs => exact h.shown p hp n boot view (hb ▸ hboot) (hs ▸ hshown) hearlier
    | ended _ _ hs =>
      rw [hs] at hshown
      cases hshown
    | began _ _ hs =>
      rw [hs] at hshown
      cases hshown
    | started boot' view' hpublished _ hnone hb hs _ =>
      rw [hb] at hboot
      rw [hs] at hshown
      cases hboot
      cases hshown
      exact hstart boot view hpublished hnone p hp hearlier
    | forward boot' old view' _ hbefore hshows hb hs hle =>
      rw [hb] at hboot
      rw [hs] at hshown
      cases hboot
      cases hshown
      exact le_trans (h.shown p hp n boot old hbefore hshows hearlier) hle
  refine ⟨?_, ?_⟩
  · intro p hp m boot view hboot hshown hearlier
    by_cases heq : m = n
    · subst heq
      rw [step_nodes_self] at hboot hshown
      rcases mem_step_published hp with hmem | ⟨-, hnew⟩
      · exact hold p hmem boot view hboot hshown hearlier
      · rw [(hview.of_published hnew).2.2.1] at hshown
        cases hshown
        exact le_rfl
    · rw [step_nodes_ne heq] at hboot hshown
      rcases mem_step_published hp with hmem | ⟨hn, -⟩
      · exact h.shown p hmem m boot view hboot hshown hearlier
      · exact absurd ((hnode m boot p hearlier).symm.trans hn) heq
  · refine pairwise_append.2 ⟨h.ordered, ?_, ?_⟩
    · cases (node_step codec cluster.clock cluster.store action (cluster.nodes n)).published with
      | none => exact List.Pairwise.nil
      | some publication => exact pairwise_singleton _ _
    · intro p hp q hq hearlier
      obtain ⟨⟨boot, view⟩, hnew, rfl⟩ := mem_map.1 (mem_toList.1 hq)
      obtain ⟨-, hboot, hshown, -⟩ := hview.of_published hnew
      exact hold p hp boot view hboot hshown hearlier

end Steps

/-! ## Runs -/

theorem indexes_eq_range (h : ∀ idx row, entry rows idx = some row → row.idx = idx) :
    rows.map (·.idx) = range' 1 rows.length := by
  refine ext_getElem? fun i => ?_
  rw [getElem?_map]
  by_cases hi : i < rows.length
  · have hrow : rows[i]? = some rows[i] := getElem?_eq_getElem hi
    have hidx : rows[i].idx = i + 1 := h (i + 1) rows[i] hrow
    rw [hrow, getElem?_range' hi]
    simp only [map_some, hidx]
    congr 1
    omega
  · rw [getElem?_eq_none (by omega), getElem?_eq_none (by simp; omega)]
    rfl

section Runs

variable (codec) (inputs : List (ℕ × Action))

theorem inv_of_run : (run codec inputs).Inv codec := by
  refine Run.invariant ?_ (fun cluster input h => h.step input) inputs
  refine ⟨.empty, fun _ => trivial, ?_, ?_⟩
  · intro p hp
    cases hp
  · intro answer hanswer
    cases hanswer

theorem batchInv_of_run : (run codec inputs).BatchInv := by
  refine Run.invariant ?_ (fun cluster input h => h.step input) inputs
  refine ⟨nodup_nil, ?_, ?_, ?_, ?_⟩
  · intro row hrow
    cases hrow
  · intro n id hid
    cases hid
  · intro n id hid
    cases hid
  · intro n m id hid
    cases hid

theorem orderInv_initial (earlier : ℕ → ℕ → Publication → Prop) :
    ({} : Cluster Payload).OrderInv earlier := by
  refine ⟨?_, List.Pairwise.nil⟩
  intro p hp
  cases hp

theorem bootOrder_of_run : (run codec inputs).OrderInv same_boot := by
  have hall : (run codec inputs).Inv codec ∧
      (run codec inputs).BootInv ∧
      (run codec inputs).OrderInv same_boot := by
    refine Run.invariant (P := fun cluster : Cluster Payload =>
      cluster.Inv codec ∧ cluster.BootInv ∧ cluster.OrderInv same_boot) ?_ ?_ inputs
    · refine ⟨inv_of_run codec [], ⟨?_, ?_, ?_⟩, orderInv_initial _⟩
      · intro n boot hboot
        cases hboot
      · intro p hp
        cases hp
      · intro p hp
        cases hp
    · rintro cluster ⟨n, action⟩ ⟨hinv, hboot, horder⟩
      refine ⟨hinv.step _, hboot.step hinv _, horder.step hinv (fun n boot p h => h.1) ?_⟩
      -- a node that is still opening has published nothing in this incarnation
      intro boot view hpublished hnone p hp hearlier
      obtain ⟨rfl, rfl⟩ := hearlier
      have hview := node_step_view cluster.clock action hinv.store (hinv.nodes p.node)
      exact absurd hnone (hboot.opening_silent p hp (hview.of_published hpublished).1)
  exact hall.2.2

/-- A node publishes in order, also over its restarts, when its cold starts end at the tip. -/
theorem nodeOrder_of_run
    (htip : Run.EachStep (step codec) {} inputs fun cluster input =>
      opens_at_tip cluster.store input.2 (cluster.nodes input.1) = true) :
    (run codec inputs).OrderInv same_node := by
  have hall := Run.always_of_eachStep
    (P := fun cluster : Cluster Payload => cluster.Inv codec ∧ cluster.OrderInv same_node)
    ⟨inv_of_run codec [], orderInv_initial _⟩ ?_ htip inputs.length
  · rw [Run.after_length] at hall
    exact hall.2
  · rintro cluster ⟨n, action⟩ ⟨hinv, horder⟩ htip
    refine ⟨hinv.step _, horder.step hinv (fun n boot p h => h) ?_⟩
    -- nothing ever published is ahead of the tip
    intro boot view hpublished hnone p hp hearlier
    have hle := (hinv.published p hp).le
    rw [← hinv.store.last_idx_eq] at hle
    have hview := node_step_view cluster.clock action hinv.store (hinv.nodes n)
    exact le_trans hle ((hview.of_published hpublished).2.2.2 hnone htip)

/-- In any order and with any crash or store failure: every view published is the state of the first
rows of the log; rows get the indexes from 1 on, each once; nothing is poisoned, and no cold start
misses a snapshot. Within an incarnation a node's published index never decreases; over restarts it
does not if every cold start that ends has reached the last index of the store. -/
theorem nodes_follow_one_log :
    (∀ p ∈ (Cluster.run codec inputs).published,
      p.view.applied_index ≤ (Cluster.run codec inputs).rows.length ∧
      p.view.state = replayed noop (Cluster.run codec inputs).rows
        p.view.applied_index) ∧
    (Cluster.run codec inputs).rows.map (·.idx) =
      List.range' 1 (Cluster.run codec inputs).rows.length ∧
    (∀ n boot config sink, (Cluster.run codec inputs).nodes n = .up boot config sink →
      sink.shared.pending.poisoned = false) ∧
    (∀ n idx, (Cluster.run codec inputs).nodes n ≠
      .failed (.truncatedWithoutSnapshot idx)) ∧
    (Cluster.run codec inputs).published.Pairwise (fun p q =>
      p.node = q.node → p.boot = q.boot → p.view.applied_index ≤ q.view.applied_index) ∧
    (Run.EachStep (Cluster.step codec) {} inputs (fun cluster input =>
        opens_at_tip cluster.store input.2 (cluster.nodes input.1) = true) →
      (Cluster.run codec inputs).published.Pairwise fun p q =>
        p.node = q.node → p.view.applied_index ≤ q.view.applied_index) := by
  have hinv := inv_of_run codec inputs
  refine ⟨?_, ?_, ?_, ?_, ?_, ?_⟩
  · intro p hp
    have hreflects := hinv.published p hp
    exact ⟨hreflects.le, hreflects.eq⟩
  · exact indexes_eq_range hinv.store.indexes
  · intro n boot config sink hup
    have hnode := hinv.nodes n
    rw [hup] at hnode
    exact hnode.shared.unpoisoned
  · intro n idx hfailed
    have hnode := hinv.nodes n
    rw [hfailed] at hnode
    obtain ⟨cause, hcause⟩ := hnode
    cases hcause
  · exact (bootOrder_of_run codec inputs).ordered.imp fun h hnode hboot => h ⟨hnode, hboot⟩
  · intro htip
    exact (nodeOrder_of_run codec inputs htip).ordered

/-- Payloads that are the encoded values themselves. -/
def plain_codec (noop : ℕ) :
    Codec noop (List MetadataCommand ⊕ MetadataState) where
  encode_batch := .inl
  decode_batch
    | .inl commands => .ok commands
    | .inr _ => .error "not a batch"
  encode := .inr
  decode
    | .inl _ => .error "not a snapshot"
    | .inr state => .ok state
  decode_encode_batch := fun _ => rfl
  decode_encode := fun _ => rfl

/-- Node `n` takes the same action `k` times. -/
def times (n k : ℕ) (action : Action) : List (ℕ × Action) := replicate k (n, action)

/-- Node 0 starts on an empty store, appends a row and publishes it. -/
def first_row : List (ℕ × Action) :=
  flatten [times 0 1 (.boot {}), times 0 2 (.opening none),
    times 0 1 (.propose ⟨.registerNode 0 1 "" 1 .empty "", 0⟩), times 0 5 (.flusher none),
    times 0 4 (.tailer none)]

/-- Node 0 restarts and replays the row. -/
def restart : List (ℕ × Action) :=
  flatten [first_row, times 0 1 .crash, times 0 1 (.boot {}), times 0 5 (.opening none)]

/-- Between node 0's load of the snapshot and its fetch, node 1 stores the first snapshot and
truncates the log. -/
def restart_across_snapshot : List (ℕ × Action) :=
  flatten [first_row, times 1 1 (.boot { snapshot_every := 1 }), times 1 5 (.opening none),
    times 0 1 .crash, times 0 1 (.boot {}), times 0 1 (.opening none),
    times 1 3 (.snapshotter none), times 0 1 (.opening none)]

theorem nodes_follow_one_log_over_restart :
    (Cluster.run (plain_codec 1000) restart).published.length = 3 ∧
    (Cluster.run (plain_codec 1000) restart).published.Pairwise (fun p q =>
      p.node = q.node → p.view.applied_index ≤ q.view.applied_index) :=
  ⟨by decide +kernel, (nodes_follow_one_log (plain_codec 1000) restart).2.2.2.2.2 (by decide +kernel)⟩

/-- The restarted node takes an empty tail for the tip, and publishes 0 after 1. -/
theorem restarted_node_publishes_older_view :
    ¬(Cluster.run (plain_codec 1000) restart_across_snapshot).published.Pairwise
      (fun p q => p.node = q.node → p.view.applied_index ≤ q.view.applied_index) := by
  decide +kernel

/-- Every drained batch is in the log at most once, and its proposers are told only the results of
their own commands, at the index it occupies, when the view has them. -/
theorem batches_answered_with_own_results :
    ((Cluster.run codec inputs).rows.map (·.batch)).Nodup ∧
    ∀ answer ∈ (Cluster.run codec inputs).answers, ∀ idx, answer.index = some idx →
      answer.Own noop (Cluster.run codec inputs).rows idx :=
  ⟨(batchInv_of_run codec inputs).rows_nodup, (inv_of_run codec inputs).answers⟩

/-- Node 0 wins the first slot. Node 1's tailer sends the foreign results to the registration,
before its flusher goes on to the next slot. -/
def lost_slot : List (ℕ × Action) :=
  flatten [times 0 1 (.boot {}), times 0 2 (.opening none), times 1 1 (.boot {}),
    times 1 2 (.opening none), times 0 1 (.propose ⟨.registerNode 0 1 "" 1 .empty "", 0⟩),
    times 1 1 (.propose ⟨.registerNode 1 1 "" 1 .empty "", 1⟩), times 1 4 (.flusher none),
    times 0 5 (.flusher none), times 1 1 (.flusher none), times 1 6 (.tailer none),
    times 1 5 (.flusher none), times 1 7 (.tailer none), times 1 1 (.flusher none)]

theorem own_results_after_lost_slot :
    (Cluster.run (plain_codec 1000) lost_slot).answers.map
      (fun answer => (answer.index, answer.view_index)) = [(some 2, 2)] ∧
    ∀ answer ∈ (Cluster.run (plain_codec 1000) lost_slot).answers, ∀ idx,
      answer.index = some idx →
      answer.Own 1000 (Cluster.run (plain_codec 1000) lost_slot).rows idx :=
  ⟨by decide +kernel, (batches_answered_with_own_results (plain_codec 1000) lost_slot).2⟩

end Runs

end PicoMq.Sql
