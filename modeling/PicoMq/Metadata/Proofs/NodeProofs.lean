import PicoMq.Metadata.Proofs.StepProofs

/-!
# Proofs: node incarnations

An incarnation that was fenced or whose node registered again never acts again.
-/

namespace PicoMq.Metadata

open MetadataState Option

variable {s : MetadataState} {c : MetadataCommand} {log : List MetadataCommand} {i j : ℕ}
variable {noop : ℕ} {n epoch : ℤ} {p : Proposer}

/-! ## Epoch arithmetic -/

theorem wrapI64_eq {x : ℤ} (h : -2 ^ 63 ≤ x) (h' : x < 2 ^ 63) : wrapI64 x = x :=
  Int.bmod_eq_of_le (by omega) (by omega)

theorem asU64_injective {x y : ℤ} (hx : -2 ^ 63 ≤ x ∧ x < 2 ^ 63) (hy : -2 ^ 63 ≤ y ∧ y < 2 ^ 63)
    (h : asU64 x = asU64 y) : x = y := by
  unfold asU64 at h
  omega

/-- Every stored node epoch leaves room for a registration. -/
structure EpochsInRange (s : MetadataState) : Prop where
  lower : ∀ n row, s.nodes.get n = some row → -2 ^ 63 ≤ row.epoch
  upper : ∀ n row, s.nodes.get n = some row → row.epoch < 2 ^ 63 - 1

theorem epochsBelowMax_iff :
    EpochsBelowMax s ↔ ∀ n row, s.nodes.get n = some row → row.epoch < 2 ^ 63 - 1 := by
  simp only [EpochsBelowMax, OrdMap.mem_values]
  exact ⟨fun h n row hrow => h row ⟨n, hrow⟩, fun h row ⟨n, hrow⟩ => h n row hrow⟩

/-! ## One step -/

theorem lt_registered_epoch (hs : EpochsInRange s) {old : NodeRow}
    (hold : s.nodes.get n = some old) (node_epoch : ℤ) :
    old.epoch < max node_epoch (wrapI64 (old.epoch + 1)) := by
  have h1 := hs.lower n old hold
  have h2 := hs.upper n old hold
  rw [wrapI64_eq (by omega) (by omega)]
  omega

/-- No step takes an epoch or a heartbeat count back, and fencing holds within an epoch. -/
theorem node_row_step (hs : EpochsInRange s) {old : NodeRow} (hold : s.nodes.get n = some old)
    (c : MetadataCommand) :
    ∃ row, (step noop s c).nodes.get n = some row ∧ old.heartbeats ≤ row.heartbeats ∧
      (row.epoch = old.epoch ∧ (old.fenced = true → row.fenced = true) ∨ old.epoch < row.epoch) := by
  have hstep := step_nodeStep noop s c n
  rw [hold] at hstep
  generalize (step noop s c).nodes.get n = o at hstep
  cases hstep with
  | same => exact ⟨old, rfl, le_rfl, .inl ⟨rfl, fun h => h⟩⟩
  | kept _ _ row hepoch hfenced hbeats =>
    exact ⟨row, rfl, by omega, .inl ⟨hepoch, fun h => hfenced.trans h⟩⟩
  | registered node_epoch _ _ _ _ _ row hepoch hfenced hbeats =>
    refine ⟨row, rfl, hbeats.ge, .inr ?_⟩
    rw [hepoch]
    exact lt_registered_epoch hs hold node_epoch
  | fenced _ _ _ row hepoch hlive hfenced hbeats =>
    exact ⟨row, rfl, hbeats.ge, .inl ⟨hepoch, fun _ => hfenced⟩⟩

/-- The incarnation was fenced, or its node has registered again. -/
def Retired (s : MetadataState) (p : Proposer) : Prop :=
  ∃ row, s.nodes.get p.node_id = some row ∧
    (p.node_epoch < row.epoch ∨ row.epoch = p.node_epoch ∧ row.fenced = true)

theorem Retired.not_acts (h : Retired s p) : ¬Acts s p := by
  obtain ⟨row, hrow, hcase⟩ := h
  rintro ⟨row', hrow', hepoch, hlive⟩
  rw [hrow] at hrow'
  cases hrow'
  rcases hcase with hlt | ⟨-, hfenced⟩
  · omega
  · simp [hfenced] at hlive

theorem retired_step (hs : EpochsInRange s) (h : Retired s p) (c : MetadataCommand) :
    Retired (step noop s c) p := by
  obtain ⟨old, hold, hcase⟩ := h
  obtain ⟨row, hrow, -, ⟨hepoch, hfenced⟩ | hlt⟩ := node_row_step hs hold c
  · exact ⟨row, hrow, hepoch ▸ hcase.imp_right fun h => ⟨h.1, hfenced h.2⟩⟩
  · exact ⟨row, hrow, .inl (by omega)⟩

theorem fence_node_fences {s' : MetadataState} {r : MetadataResult} {heartbeats : ℕ}
    (h : dispatch noop s (.fenceNode p n epoch heartbeats) = .ok (s', r)) :
    ∃ row, s'.nodes.get n = some row ∧ row.epoch = epoch ∧ row.fenced = true := by
  simp only [dispatch, fence_node] at h
  cases hnode : s.nodes.get n with
  | none => simp [hnode] at h
  | some node =>
    simp only [hnode] at h
    split_ifs at h with hstale
    cases h
    simp only [not_or, not_not] at hstale
    exact ⟨{ node with fenced := true }, by simp, hstale.2.1, rfl⟩

theorem epoch_step (hs : EpochsInRange s) (h : ∃ row, s.nodes.get n = some row ∧ epoch ≤ row.epoch)
    (c : MetadataCommand) :
    ∃ row, (step noop s c).nodes.get n = some row ∧ epoch ≤ row.epoch := by
  obtain ⟨old, hold, hle⟩ := h
  obtain ⟨row, hrow, -, hgrows⟩ := node_row_step hs hold c
  exact ⟨row, hrow, by omega⟩

theorem epochs_lower_step (hlower : ∀ n row, s.nodes.get n = some row → -2 ^ 63 ≤ row.epoch)
    (hc : c.EpochInRange) {row : NodeRow}
    (hrow : (step noop s c).nodes.get n = some row) : -2 ^ 63 ≤ row.epoch := by
  have hstep := step_nodeStep noop s c n
  rw [hrow] at hstep
  generalize hold : s.nodes.get n = o at hstep
  cases hstep with
  | same => exact hlower n row hold
  | kept _ old _ hepoch hfenced => rw [hepoch]; exact hlower n old hold
  | registered node_epoch _ _ _ _ _ _ hepoch hfenced =>
    have := (hc node_epoch rfl).1
    rw [hepoch]
    cases o with
    | none => exact this
    | some old => exact this.trans (le_max_left _ _)
  | fenced _ _ old _ hepoch hlive hfenced => rw [hepoch]; exact hlower n old hold

/-! ## Whole runs -/

theorem history_nodes_keyed {row : NodeRow}
    (h : (history noop log i).nodes.get n = some row) : row.node_id = n := by
  have hkeyed : ∀ n row, (history noop log i).nodes.get n = some row →
      row.node_id = n := by
    refine Run.after_invariant (P := fun s : MetadataState => ∀ n row,
      s.nodes.get n = some row → row.node_id = n) (by simp) (fun s c hs n row hrow => ?_) i
    have hstep := step_nodeStep noop s c n
    rw [hrow] at hstep
    generalize hold : s.nodes.get n = o at hstep
    cases hstep with
    | same => exact hs n row hold
    | kept _ old _ _ _ _ hid => rw [hid]; exact hs n old hold
    | registered _ _ _ _ _ _ _ _ _ _ hid => exact hid
    | fenced _ _ old _ _ _ _ _ hid => rw [hid]; exact hs n old hold
  exact hkeyed n row h

section Runs

variable (hrange : ∀ c ∈ log, c.EpochInRange)
  (hbelow : Run.Always (step noop) {} log EpochsBelowMax)

include hrange hbelow

theorem history_epochsInRange (i : ℕ) : EpochsInRange (history noop log i) where
  lower := Run.after_of_le (P := fun s : MetadataState => ∀ n row, s.nodes.get n = some row →
      -2 ^ 63 ≤ row.epoch) (Nat.zero_le i) (by simp) fun k c _ _ hc hP n row hrow =>
      epochs_lower_step hP (hrange c (List.mem_of_getElem? hc)) hrow
  upper := epochsBelowMax_iff.1 (hbelow i)

theorem retired_history (h : Retired (history noop log i) p) (hij : i ≤ j) :
    Retired (history noop log j) p :=
  Run.after_of_le (P := fun s => Retired s p) hij h fun k c _ _ _ hP =>
    retired_step (history_epochsInRange hrange hbelow k) hP c

theorem retired_silenced (h : Retired (history noop log i) p) :
    SilencedFrom noop log i p := fun _ _ hij _ hp =>
  apply_of_not_acts hp (retired_history hrange hbelow h hij).not_acts

section

variable (h : Registration noop log i n epoch)
include h

omit hrange hbelow in
theorem Registration.stored :
    ∃ row, (history noop log (i + 1)).nodes.get n = some row ∧ row.epoch = epoch := by
  obtain ⟨_, _, _, _, _, -, hmap⟩ := h
  exact map_eq_some_iff.1 hmap

theorem registration_inRange :
    -2 ^ 63 ≤ epoch ∧ epoch < 2 ^ 63 := by
  obtain ⟨row, hrow, rfl⟩ := h.stored
  have hs := history_epochsInRange hrange hbelow (i + 1)
  have := hs.upper n row hrow
  exact ⟨hs.lower n row hrow, by omega⟩

omit hrange hbelow in
theorem Registration.assigned :
    ∃ c node_epoch, log[i]? = some c ∧
      epoch = ((history noop log i).nodes.get n).elim node_epoch
        (fun old => max node_epoch (wrapI64 (old.epoch + 1))) ∧
      (apply noop (history noop log i) c).2 = .ok (.id (asU64 epoch)) := by
  obtain ⟨node_epoch, http_address, slots, protocol_addresses, wal, hc, hrow⟩ := h
  refine ⟨_, node_epoch, hc, ?_⟩
  rw [history_succ hc] at hrow
  simp only [step, apply, apply_inner, MetadataCommand.proposer, dispatch, register_node,
    OrdMap.get_insert, if_true, map_some, some.injEq] at hrow ⊢
  rw [← hrow]
  constructor
  · cases (history noop log i).nodes.get n <;> rfl
  · rfl

end

theorem registration_lt {epoch' : ℤ} (hij : i < j)
    (h : Registration noop log i n epoch)
    (h' : Registration noop log j n epoch') : epoch < epoch' := by
  obtain ⟨row, hrow, rfl⟩ := h.stored
  have hbefore : ∃ old, (history noop log j).nodes.get n = some old ∧
      row.epoch ≤ old.epoch :=
    Run.after_of_le (P := fun s : MetadataState => ∃ old, s.nodes.get n = some old ∧
      row.epoch ≤ old.epoch) hij ⟨row, hrow, le_rfl⟩ fun k c _ _ _ hP =>
        epoch_step (history_epochsInRange hrange hbelow k) hP c
  obtain ⟨old, hold, hle⟩ := hbefore
  obtain ⟨c, node_epoch, -, rfl, -⟩ := h'.assigned
  rw [hold, elim_some]
  exact hle.trans_lt (lt_registered_epoch (history_epochsInRange hrange hbelow j) hold node_epoch)

end Runs

/-- Registrations of one node get increasing epochs and different answers; of an incarnation that
was fenced or superseded every later command is refused. -/
theorem incarnations_retire_for_good (noop : ℕ) (log : List MetadataCommand)
    (hrange : ∀ c ∈ log, c.EpochInRange)
    (hbelow : Run.Always (step noop) {} log EpochsBelowMax) :
    (∀ i j n e e', i < j → Registration noop log i n e →
      Registration noop log j n e' → e < e') ∧
    (∀ i j n e e' c c', i ≠ j → Registration noop log i n e →
      Registration noop log j n e' → log[i]? = some c → log[j]? = some c' →
      (apply noop (history noop log i) c).2 = .ok (.id (asU64 e)) ∧
      (apply noop (history noop log i) c).2 ≠
        (apply noop (history noop log j) c').2) ∧
    (∀ i p n e heartbeats, Accepted noop log i (.fenceNode p n e heartbeats) →
      SilencedFrom noop log (i + 1) ⟨n, e⟩) ∧
    (∀ i j n e e', i < j → Registration noop log i n e →
      Registration noop log j n e' →
      SilencedFrom noop log (j + 1) ⟨n, e⟩) := by
  refine ⟨fun i j n e e' hij h h' => registration_lt hrange hbelow hij h h',
    fun i j n e e' c c' hij h h' hc hc' => ?_, fun i p n e heartbeats h => ?_,
    fun i j n e e' hij h h' => ?_⟩
  · obtain ⟨c, _, hc₁, -, hanswer⟩ := h.assigned
    obtain ⟨c', _, hc₁', -, hanswer'⟩ := h'.assigned
    rw [hc] at hc₁
    rw [hc'] at hc₁'
    cases hc₁
    cases hc₁'
    refine ⟨hanswer, fun heq => ?_⟩
    rw [hanswer, hanswer'] at heq
    have hcast : asU64 e = asU64 e' := by simpa using heq
    have hsame := asU64_injective (registration_inRange hrange hbelow h)
      (registration_inRange hrange hbelow h') hcast
    rcases Nat.lt_or_gt_of_ne hij with hlt | hlt
    · exact absurd hsame (registration_lt hrange hbelow hlt h h').ne
    · exact absurd hsame (registration_lt hrange hbelow hlt h' h).ne'
  · refine retired_silenced hrange hbelow ?_
    obtain ⟨-, r, hd⟩ := h.dispatch
    obtain ⟨row, hrow, hepoch, hfenced⟩ := fence_node_fences hd
    exact ⟨row, hrow, .inr ⟨hepoch, hfenced⟩⟩
  · refine retired_silenced hrange hbelow ?_
    obtain ⟨row, hrow, rfl⟩ := h'.stored
    exact ⟨row, hrow, .inl (registration_lt hrange hbelow hij h h')⟩

/-- Node 1 registers twice and is then fenced by node 2. -/
def retiring_log : List MetadataCommand :=
  [.registerNode 1 5 "a" 1 .empty "wal", .registerNode 1 0 "a" 1 .empty "wal",
    .registerNode 2 0 "b" 1 .empty "wal", .fenceNode ⟨2, 0⟩ 1 6 0, .heartbeat ⟨1, 6⟩,
    .registerNode 1 6 "a" 1 .empty "wal", .heartbeat ⟨1, 6⟩, .createStream ⟨1, 5⟩]

theorem incarnations_retire_in_retiring_log :
    (∀ c ∈ retiring_log, c.EpochInRange) ∧
    Run.Always (step 1000) {} retiring_log EpochsBelowMax ∧
    SilencedFrom 1000 retiring_log 4 ⟨1, 6⟩ ∧ SilencedFrom 1000 retiring_log 2 ⟨1, 5⟩ := by
  have hrange : ∀ c ∈ retiring_log, c.EpochInRange := by decide
  have hbelow : Run.Always (step 1000) {} retiring_log EpochsBelowMax :=
    Run.always_of_le_length (by decide)
  obtain ⟨-, -, hfenced, hsuperseded⟩ := incarnations_retire_for_good 1000 retiring_log hrange hbelow
  refine ⟨hrange, hbelow, hfenced 3 ⟨2, 0⟩ 1 6 0 ⟨rfl, .unit, by decide⟩,
    hsuperseded 0 1 1 5 6 (by decide) ?_ ?_⟩
  · exact ⟨_, _, _, _, _, rfl, by decide⟩
  · exact ⟨_, _, _, _, _, rfl, by decide⟩

end PicoMq.Metadata
