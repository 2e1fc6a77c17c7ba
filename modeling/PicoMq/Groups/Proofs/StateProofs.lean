import PicoMq.Groups.Proofs.AssignProofs
import PicoMq.Groups.State

/-!
# Departures and completions keep a group sound

What a change takes out of the parked requests it answers, and the sets of a rebalance stay nested.
-/

namespace PicoMq.Groups

open Function List Option OrdMap Prod

namespace Group

variable {g : Group} {now t : ℕ} {id : String} {error : GroupError} {rebalance : Rebalance}
variable {offsets : OffsetTable} {epoch : ℤ}

/-! ## Senders -/

theorem count_tokens (g : Group) (t : ℕ) :
    g.tokens.count t = g.join_waiters.values.count t + g.sync_waiters.values.count t +
      (g.sent.map fst).count t + g.dropped.count t := by
  simp only [tokens, pending, count_append]

theorem join_waiters_none (h : g.rebalance = none) : g.join_waiters = OrdMap.empty := by
  rw [join_waiters, h]

theorem join_waiters_some (h : g.rebalance = some rebalance) :
    g.join_waiters = rebalance.waiters := by
  rw [join_waiters, h]

theorem map_fst_refuse_joins (waiters : OrdMap String ℕ) (error : GroupError) :
    (refuse_joins waiters error).map fst = waiters.values := by
  simp [refuse_joins, OrdMap.values, comp_def]

theorem map_fst_refuse_syncs (waiters : OrdMap String ℕ) (error : GroupError) :
    (refuse_syncs waiters error).map fst = waiters.values := by
  simp [refuse_syncs, OrdMap.values, comp_def]

theorem map_fst_departure_answers :
    (g.departure_answers id error).map fst =
      (g.sync_waiters.get id).toList ++ (g.join_waiters.get id).toList := by
  simp [departure_answers, comp_def]

theorem join_waiters_depart : (g.depart id error).join_waiters = g.join_waiters.remove id := by
  cases h : g.rebalance with
  | none =>
    rw [join_waiters_none h, join_waiters_none (by rw [depart, h]; rfl)]
    rfl
  | some rebalance =>
    have hremoved : (g.depart id error).rebalance = some (rebalance.remove id) := by
      rw [depart, h]; rfl
    rw [join_waiters_some h, join_waiters_some hremoved]
    rfl

theorem tokens_depart : (g.depart id error).tokens.count t = g.tokens.count t := by
  have hjoin := count_values_remove g.join_waiters id t
  have hsync := count_values_remove g.sync_waiters id t
  rw [count_tokens, count_tokens, join_waiters_depart]
  show (g.join_waiters.remove id).values.count t + (g.sync_waiters.remove id).values.count t +
    ((g.sent ++ g.departure_answers id error).map fst).count t + g.dropped.count t = _
  rw [map_append, map_fst_departure_answers, count_append, count_append]
  omega

theorem tokens_depart_all (ids : List String) :
    (g.depart_all ids error).tokens.count t = g.tokens.count t := by
  induction ids generalizing g with
  | nil => rfl
  | cons id ids ih => exact ih.trans tokens_depart

theorem tokens_answer_syncs : (g.answer_syncs error).tokens.count t = g.tokens.count t := by
  rw [count_tokens, count_tokens]
  show g.join_waiters.values.count t + 0 +
    ((g.sent ++ refuse_syncs g.sync_waiters error).map fst).count t + g.dropped.count t = _
  rw [map_append, map_fst_refuse_syncs, count_append]
  omega

theorem tokens_next_round (h : g.rebalance = some rebalance) :
    g.next_round.tokens.count t + rebalance.waiters.values.count t = g.tokens.count t := by
  rw [next_round, tokens_answer_syncs, count_tokens, count_tokens, join_waiters_some h]
  show 0 + g.sync_waiters.values.count t + (g.sent.map fst).count t + g.dropped.count t + _ = _
  omega

theorem tokens_send (answers : List (ℕ × Answer)) :
    (g.send answers).tokens.count t = g.tokens.count t + (answers.map fst).count t := by
  rw [count_tokens, count_tokens]
  show _ + ((g.sent ++ answers).map fst).count t + _ = _
  rw [map_append, count_append]
  show g.join_waiters.values.count t + g.sync_waiters.values.count t + _ + g.dropped.count t = _
  omega

theorem tokens_panic (panic : Panic) (dropped : List ℕ) :
    (g.panic panic dropped).tokens.count t = g.tokens.count t + dropped.count t := by
  rw [count_tokens, count_tokens]
  show _ + (g.dropped ++ dropped).count t = _
  rw [count_append, ← Nat.add_assoc]
  rfl

theorem tokens_complete_subscribed :
    (g.complete_subscribed rebalance now).tokens.count t =
      g.tokens.count t + rebalance.waiters.values.count t := by
  unfold complete_subscribed
  split
  · exact tokens_panic ..
  · refine (tokens_send _).trans ?_
    show g.tokens.count t + _ = _
    simp [OrdMap.values, comp_def]

theorem tokens_complete_client {protocol_type leader : String} :
    (g.complete_client rebalance protocol_type leader now).tokens.count t =
      g.tokens.count t + rebalance.waiters.values.count t := by
  unfold complete_client
  dsimp only
  split
  · refine (tokens_send _).trans ?_
    rw [map_fst_refuse_joins]
    rfl
  · refine (tokens_send _).trans ?_
    show g.tokens.count t + _ = _
    simp [OrdMap.values, comp_def]

theorem tokens_complete_rebalance :
    (g.complete_rebalance now).tokens.count t = g.tokens.count t := by
  unfold complete_rebalance
  split
  · rfl
  · rename_i rebalance h
    rw [← tokens_next_round h]
    split
    · exact tokens_complete_subscribed
    · exact tokens_complete_client
    · exact tokens_panic ..

theorem tokens_settle : (g.settle now).tokens.count t = g.tokens.count t := by
  unfold settle
  split
  · rw [count_tokens, count_tokens]
    show 0 + g.sync_waiters.values.count t + (g.sent.map fst).count t +
      (g.dropped ++ g.join_waiters.values).count t = _
    rw [count_append]
    omega
  · dsimp only
    split
    · split
      · exact tokens_complete_rebalance
      · rfl
    · split
      · exact tokens_answer_syncs
      · rfl

theorem tokens_expire_members : (g.expire_members now).tokens.count t = g.tokens.count t := by
  unfold expire_members
  split
  · rfl
  · rw [tokens_settle, tokens_depart_all]

theorem tokens_unload : g.unload.tokens.count t = g.tokens.count t := by
  rw [unload, tokens_answer_syncs, tokens_send, map_fst_refuse_joins, count_tokens, count_tokens]
  show 0 + g.sync_waiters.values.count t + (g.sent.map fst).count t + g.dropped.count t + _ = _
  omega

theorem tokens_reload {replayed : ℕ} :
    (g.reload epoch offsets replayed now).tokens.count t = g.tokens.count t := by
  rw [← tokens_unload (g := g), count_tokens, count_tokens]
  show 0 + 0 + (g.unload.sent.map fst).count t +
    (g.unload.dropped ++ g.unload.pending).count t = _
  rw [count_append, pending, count_append]
  omega

/-! ## Members -/

theorem depart_all_invariant {P : Group → Prop} (hdepart : ∀ g id, P g → P (g.depart id error))
    (h : P g) (ids : List String) : P (g.depart_all ids error) := by
  induction ids generalizing g with
  | nil => exact h
  | cons id ids ih => exact ih (hdepart g id h)

@[simp] theorem mode_depart_all (ids : List String) : (g.depart_all ids error).mode = g.mode :=
  depart_all_invariant (P := fun g' => g'.mode = g.mode) (fun _ _ h => h) rfl ids

@[simp] theorem phase_depart_all (ids : List String) : (g.depart_all ids error).phase = g.phase :=
  depart_all_invariant (P := fun g' => g'.phase = g.phase) (fun _ _ h => h) rfl ids

theorem get_members_depart_all (ids : List String) (id' : String) :
    (g.depart_all ids error).members.get id' =
      if id' ∈ ids then none else g.members.get id' := by
  induction ids generalizing g with
  | nil => rfl
  | cons id ids ih =>
    refine ih.trans ?_
    show (if id' ∈ ids then none else (g.members.remove id).get id') = _
    rw [get_remove]
    by_cases hid : id' = id <;> simp [hid]

/-! ## Soundness -/

/-- The sets are nested, and nothing has gone wrong. -/
structure Sound (g : Group) : Prop extends Nested g where
  no_panic : g.panics = []
  none_dropped : g.dropped = []

theorem Nested.of_none_pending (hrebalance : g.rebalance = none)
    (hsync : g.sync_waiters = OrdMap.empty) : Nested g where
  waiters_joined r hr := by rw [hrebalance] at hr; cases hr
  joined_expected r hr := by rw [hrebalance] at hr; cases hr
  expected_members r hr := by rw [hrebalance] at hr; cases hr
  syncs_members := by rw [hsync]; exact nil_subset _
  has_mode r hr := by rw [hrebalance] at hr; cases hr
  preparing r hr := by rw [hrebalance] at hr; cases hr

theorem Sound.of_none_pending (hrebalance : g.rebalance = none)
    (hsync : g.sync_waiters = OrdMap.empty) (hpanics : g.panics = []) (hdropped : g.dropped = []) :
    Sound g :=
  ⟨.of_none_pending hrebalance hsync, hpanics, hdropped⟩

theorem Sound.frame {g' : Group} (h : Sound g) (hmembers : g.members.keys ⊆ g'.members.keys)
    (hsync : g'.sync_waiters = g.sync_waiters) (hrebalance : g'.rebalance = g.rebalance)
    (hmode : g'.mode = g.mode) (hphase : g'.phase = g.phase) (hpanics : g'.panics = g.panics)
    (hdropped : g'.dropped = g.dropped) : Sound g' where
  waiters_joined := by rw [hrebalance]; exact h.waiters_joined
  joined_expected := by rw [hrebalance]; exact h.joined_expected
  expected_members := by
    rw [hrebalance]
    exact fun r hr => List.Subset.trans (h.expected_members r hr) hmembers
  syncs_members := by rw [hsync]; exact List.Subset.trans h.syncs_members hmembers
  has_mode := by rw [hrebalance, hmode]; exact h.has_mode
  preparing := by rw [hrebalance, hphase]; exact h.preparing
  no_panic := hpanics.trans h.no_panic
  none_dropped := hdropped.trans h.none_dropped

theorem Sound.loaded {appends : ℕ} : Sound (loaded epoch offsets appends now) :=
  .of_none_pending rfl rfl rfl rfl

theorem keys_remove_subset {V W : Type*} {m : OrdMap String V} {m' : OrdMap String W}
    (h : m.keys ⊆ m'.keys) (id : String) : (m.remove id).keys ⊆ (m'.remove id).keys := by
  intro id' hid'
  rw [mem_keys_remove] at hid' ⊢
  exact ⟨hid'.1, h hid'.2⟩

theorem Sound.depart (h : Sound g) (id : String) (error : GroupError) :
    Sound (g.depart id error) where
  waiters_joined r hr := by
    obtain ⟨r₀, hr₀, rfl⟩ := map_eq_some_iff.1 hr
    exact keys_remove_subset (h.waiters_joined r₀ hr₀) id
  joined_expected r hr := by
    obtain ⟨r₀, hr₀, rfl⟩ := map_eq_some_iff.1 hr
    exact keys_remove_subset (h.joined_expected r₀ hr₀) id
  expected_members r hr := by
    obtain ⟨r₀, hr₀, rfl⟩ := map_eq_some_iff.1 hr
    exact keys_remove_subset (h.expected_members r₀ hr₀) id
  syncs_members := keys_remove_subset h.syncs_members id
  has_mode r hr := by
    obtain ⟨r₀, hr₀, rfl⟩ := map_eq_some_iff.1 hr
    exact h.has_mode r₀ hr₀
  preparing r hr := by
    obtain ⟨r₀, hr₀, rfl⟩ := map_eq_some_iff.1 hr
    exact h.preparing r₀ hr₀
  no_panic := h.no_panic
  none_dropped := h.none_dropped

theorem Sound.depart_all (h : Sound g) (ids : List String) (error : GroupError) :
    Sound (g.depart_all ids error) :=
  depart_all_invariant (fun _ id h => h.depart id error) h ids

theorem Sound.complete_subscribed (hrebalance : g.rebalance = none)
    (hsync : g.sync_waiters = OrdMap.empty) (hpanics : g.panics = []) (hdropped : g.dropped = []) :
    Sound (g.complete_subscribed rebalance now) := by
  obtain ⟨assignments, hassign, -⟩ := exists_assign g.members
  unfold Group.complete_subscribed
  rw [hassign]
  exact .of_none_pending hrebalance hsync hpanics hdropped

theorem Sound.complete_client {protocol_type leader : String} (hrebalance : g.rebalance = none)
    (hsync : g.sync_waiters = OrdMap.empty) (hpanics : g.panics = []) (hdropped : g.dropped = []) :
    Sound (g.complete_client rebalance protocol_type leader now) := by
  unfold Group.complete_client
  dsimp only
  split
  · exact .of_none_pending hrebalance hsync hpanics hdropped
  · exact .of_none_pending hrebalance hsync hpanics hdropped

theorem Sound.complete_rebalance (h : Sound g) : Sound (g.complete_rebalance now) := by
  unfold Group.complete_rebalance
  split
  · exact h
  · rename_i rebalance hrebalance
    split
    · exact .complete_subscribed rfl rfl h.no_panic h.none_dropped
    · exact .complete_client rfl rfl h.no_panic h.none_dropped
    · -- a pending rebalance has a mode
      rename_i hmode
      have hsome := h.has_mode rebalance hrebalance
      rw [hmode] at hsome
      cases hsome

theorem Sound.settle (h : Sound g) : Sound (g.settle now) := by
  unfold Group.settle
  split
  · rename_i hempty
    have hmembers : g.members.keys = [] := by
      rw [is_empty_iff.1 hempty, keys_empty]
    have hwaiters : g.join_waiters.values = [] := by
      cases hrebalance : g.rebalance with
      | none => rw [join_waiters_none hrebalance]; rfl
      | some r =>
        have hnone : r.waiters.keys ⊆ [] := hmembers ▸ List.Subset.trans
          (List.Subset.trans (h.waiters_joined r hrebalance) (h.joined_expected r hrebalance))
          (h.expected_members r hrebalance)
        rw [join_waiters_some hrebalance]
        have hentries : r.waiters.entries = [] :=
          map_eq_nil_iff.1 (subset_nil.1 hnone)
        rw [OrdMap.values, hentries, map_nil]
    exact
      { waiters_joined := fun r hr => by cases hr
        joined_expected := fun r hr => by cases hr
        expected_members := fun r hr => by cases hr
        syncs_members := h.syncs_members
        has_mode := fun r hr => by cases hr
        preparing := fun r hr => by cases hr
        no_panic := h.no_panic
        none_dropped := by
          show g.dropped ++ g.join_waiters.values = []
          rw [hwaiters, append_nil, h.none_dropped] }
  · have hsweep : Sound g.sweep := h.frame (List.Subset.refl _) rfl rfl rfl rfl rfl rfl
    dsimp only
    split
    · split
      · exact hsweep.complete_rebalance
      · exact hsweep
    · rename_i hrebalance
      split
      · exact .of_none_pending hrebalance rfl h.no_panic h.none_dropped
      · exact hsweep

theorem Sound.expire_members (h : Sound g) : Sound (g.expire_members now) := by
  unfold Group.expire_members
  split
  · exact h
  · exact (h.depart_all _ _).settle

theorem Sound.reload (h : Sound g) {replayed : ℕ} :
    Sound (g.reload epoch offsets replayed now) := by
  refine .of_none_pending rfl rfl h.no_panic ?_
  show g.dropped ++ g.unload.pending = []
  rw [h.none_dropped]
  rfl

end Group

end PicoMq.Groups
