import PicoMq.Groups.Requests

/-!
# Proofs: what leaves the offsets alone

Joins, departures and rebalances leave the table of offsets as it is.
-/

namespace PicoMq.Groups.Group

/-- The table, the epoch it was loaded at and the count of appends are the same. -/
structure SameTable (g g' : Group) : Prop where
  loaded_epoch : g'.loaded_epoch = g.loaded_epoch
  offsets : g'.offsets = g.offsets
  appends : g'.appends_since_snapshot = g.appends_since_snapshot

variable {g g' g'' : Group}

theorem SameTable.rfl : SameTable g g := ⟨.refl _, .refl _, .refl _⟩

theorem SameTable.trans (h : SameTable g g') (h' : SameTable g' g'') : SameTable g g'' where
  loaded_epoch := h'.loaded_epoch.trans h.loaded_epoch
  offsets := h'.offsets.trans h.offsets
  appends := h'.appends.trans h.appends

variable (g)

theorem sameTable_complete_subscribed (rebalance : Rebalance) (now : ℕ) :
    SameTable g (g.complete_subscribed rebalance now) := by
  unfold complete_subscribed
  split
  · exact ⟨rfl, rfl, rfl⟩
  · exact ⟨rfl, rfl, rfl⟩

theorem sameTable_complete_client (rebalance : Rebalance) (protocol_type previous_leader : String)
    (now : ℕ) : SameTable g (g.complete_client rebalance protocol_type previous_leader now) := by
  unfold complete_client
  dsimp only
  split
  · exact ⟨rfl, rfl, rfl⟩
  · exact ⟨rfl, rfl, rfl⟩

theorem sameTable_complete_rebalance (now : ℕ) : SameTable g (g.complete_rebalance now) := by
  have hround : SameTable g g.next_round := ⟨rfl, rfl, rfl⟩
  unfold complete_rebalance
  split
  · exact .rfl
  · split
    · exact hround.trans (sameTable_complete_subscribed ..)
    · exact hround.trans (sameTable_complete_client ..)
    · exact hround.trans ⟨rfl, rfl, rfl⟩

theorem sameTable_settle (now : ℕ) : SameTable g (g.settle now) := by
  have hsweep : SameTable g g.sweep := ⟨rfl, rfl, rfl⟩
  unfold settle
  dsimp only
  split
  · exact ⟨rfl, rfl, rfl⟩
  · split
    · split
      · exact hsweep.trans (sameTable_complete_rebalance ..)
      · exact hsweep
    · split
      · exact hsweep.trans ⟨rfl, rfl, rfl⟩
      · exact hsweep

theorem sameTable_depart_all (member_ids : List String) (error : GroupError) :
    SameTable g (g.depart_all member_ids error) := by
  unfold depart_all
  induction member_ids generalizing g with
  | nil => exact .rfl
  | cons id ids ih =>
    have hdepart : SameTable g (g.depart id error) := ⟨rfl, rfl, rfl⟩
    exact hdepart.trans (ih _)

theorem sameTable_expire_members (now : ℕ) : SameTable g (g.expire_members now) := by
  unfold expire_members
  split
  · exact .rfl
  · exact (sameTable_depart_all ..).trans (sameTable_settle ..)

theorem sameTable_refresh (now : ℕ) : SameTable g (g.refresh now) :=
  (sameTable_expire_members g now).trans ⟨rfl, rfl, rfl⟩

end PicoMq.Groups.Group
