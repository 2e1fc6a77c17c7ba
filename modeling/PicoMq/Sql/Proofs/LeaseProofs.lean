import PicoMq.Sql.Lease
import PicoMq.Sql.Proofs.StoreProofs

/-!
# Proofs: the maintenance lease

The row always belongs to the latest grant, and its epoch only moves on with a new one.
-/

namespace PicoMq.Sql

open Metadata (wrapI64)

/-! ## Statements -/

theorem renew_eq_some {row row' : LeaseRow} {holder : String} {epoch epoch' : ℕ}
    {now_ms ttl_ms : ℤ}
    (h : acquire_lease row holder (some epoch) now_ms ttl_ms = .ok (row', some epoch')) :
    row.holder = holder ∧ row.epoch = epoch ∧ now_ms ≤ row.expires_at_ms ∧
      row' = { row with expires_at_ms := wrapI64 (now_ms + ttl_ms) } ∧ epoch' = epoch := by
  obtain ⟨epoch_i, hepoch, h⟩ := Except.bind_eq_ok_iff.1 h
  obtain rfl := to_i64_eq_ok hepoch
  split_ifs at h with howns
  · cases h
    exact ⟨howns.1, howns.2.1, howns.2.2, rfl, rfl⟩
  · cases h

theorem acquire_eq_some {row row' : LeaseRow} {holder : String} {epoch : ℕ} {now_ms ttl_ms : ℤ}
    (h : acquire_lease row holder none now_ms ttl_ms = .ok (row', some epoch)) :
    (row.expires_at_ms < now_ms ∨ row.holder = holder) ∧
      row' = ⟨holder, row.epoch + 1, wrapI64 (now_ms + ttl_ms)⟩ ∧ epoch = row.epoch + 1 := by
  rw [acquire_lease] at h
  split_ifs at h with hfree
  · cases h
    exact ⟨hfree, rfl, rfl⟩
  · cases h

namespace Lease

variable {s s' : Lease} {c : LeaseCall}

inductive StepEnd (s : Lease) : LeaseCall → Lease → Prop
  | kept (c : LeaseCall) : StepEnd s c s
  | granted (holder : String) (now_ms ttl_ms : ℤ)
      (hfree : s.row.expires_at_ms < now_ms ∨ s.row.holder = holder) :
      StepEnd s (.acquire holder none now_ms ttl_ms)
        { row := ⟨holder, s.row.epoch + 1, wrapI64 (now_ms + ttl_ms)⟩
          grants := ⟨holder, s.row.epoch + 1, [wrapI64 (now_ms + ttl_ms)], false⟩ :: s.grants }
  | renewed (now_ms ttl_ms : ℤ) (hlive : now_ms ≤ s.row.expires_at_ms) :
      StepEnd s (.acquire s.row.holder (some s.row.epoch) now_ms ttl_ms)
        { row := { s.row with expires_at_ms := wrapI64 (now_ms + ttl_ms) }
          grants := promise s.grants (wrapI64 (now_ms + ttl_ms)) }
  | released :
      StepEnd s (.release s.row.holder s.row.epoch)
        { row := { s.row with expires_at_ms := 0 }
          grants := s.grants.modifyHead fun grant => { grant with released := true } }

theorem step_end (s : Lease) (c : LeaseCall) : StepEnd s c (s.step c) := by
  cases c with
  | acquire holder prev_epoch now_ms ttl_ms =>
    rw [step]
    cases hcall : acquire_lease s.row holder prev_epoch now_ms ttl_ms with
    | error e => exact .kept _
    | ok answer =>
      obtain ⟨row, _ | epoch⟩ := answer
      · exact .kept _
      · cases prev_epoch with
        | none =>
          obtain ⟨hfree, rfl, rfl⟩ := acquire_eq_some hcall
          exact .granted holder now_ms ttl_ms hfree
        | some prev_epoch =>
          obtain ⟨rfl, rfl, hlive, rfl, rfl⟩ := renew_eq_some hcall
          exact .renewed now_ms ttl_ms hlive
  | release holder epoch =>
    rw [step]
    cases hcall : release_lease s.row holder epoch with
    | error e => exact .kept _
    | ok row =>
      obtain ⟨epoch_i, hepoch, h⟩ := Except.bind_eq_ok_iff.1 hcall
      obtain rfl := to_i64_eq_ok hepoch
      dsimp only
      split_ifs at h ⊢ with howns
      · cases h
        obtain ⟨rfl, rfl⟩ := howns
        exact .released
      · cases h
        exact .kept _

/-! ## The invariant -/

/-- The row is of the latest grant: expired once released, otherwise with the latest promised
expiry. -/
structure OwnedBy (row : LeaseRow) (g : Grant) : Prop where
  holder : g.holder = row.holder
  epoch : g.epoch = row.epoch
  released : g.released = true → row.expires_at_ms = 0
  promised : g.released = false → g.promised.head? = some row.expires_at_ms ∧
    ∀ expiry ∈ g.promised, expiry ≤ row.expires_at_ms

structure Sound (s : Lease) : Prop where
  epochs : ∀ g ∈ s.grants, g.epoch ≤ s.row.epoch
  unowned : s.grants = [] → s.row.expires_at_ms = 0
  owned : ∀ g rest, s.grants = g :: rest → OwnedBy s.row g

theorem Sound.seed : Sound {} where
  epochs g hg := by cases hg
  unowned _ := rfl
  owned g rest h := by cases h

theorem Sound.granted (h : Sound s) (holder : String) (expiry : ℤ) :
    Sound { row := ⟨holder, s.row.epoch + 1, expiry⟩
            grants := ⟨holder, s.row.epoch + 1, [expiry], false⟩ :: s.grants } where
  epochs g hg := by
    rcases List.mem_cons.1 hg with rfl | hg
    · exact le_rfl
    · exact (h.epochs g hg).trans (Nat.le_succ _)
  unowned hnil := by cases hnil
  owned g rest hcons := by
    cases hcons
    exact ⟨rfl, rfl, nofun, fun _ => ⟨rfl, by simp⟩⟩

theorem Sound.modify {f : Grant → Grant} {expires_at_ms : ℤ} (h : Sound s)
    (hunowned : s.grants = [] → expires_at_ms = 0) (hepoch : ∀ g, (f g).epoch = g.epoch)
    (howned : ∀ g rest, s.grants = g :: rest → OwnedBy { s.row with expires_at_ms } (f g)) :
    Sound { row := { s.row with expires_at_ms }, grants := s.grants.modifyHead f } := by
  obtain ⟨row, grants⟩ := s
  cases grants with
  | nil => exact ⟨nofun, hunowned, nofun⟩
  | cons g rest =>
    refine ⟨fun g' hg' => ?_, nofun, fun g' rest' hcons => ?_⟩
    · rcases List.mem_cons.1 hg' with rfl | hg'
      · rw [hepoch]
        exact h.epochs g List.mem_cons_self
      · exact h.epochs g' (List.mem_cons_of_mem _ hg')
    · cases hcons
      exact howned g rest rfl

theorem Sound.step (h : Sound s) (hc : s.Prolongs c) : Sound (s.step c) := by
  have hend := s.step_end c
  generalize s.step c = s' at hend
  cases hend with
  | kept => exact h
  | granted holder now_ms ttl_ms => exact h.granted holder _
  | renewed now_ms ttl_ms hlive =>
    obtain ⟨hpositive, hlater⟩ := hc
    have hexpiry : s.row.expires_at_ms ≤ wrapI64 (now_ms + ttl_ms) := hlater rfl rfl
    refine h.modify (fun hnil => ?_) (fun g => rfl) fun g rest hcons => ?_
    · have hzero := h.unowned hnil
      omega
    · have howned := h.owned g rest hcons
      cases hreleased : g.released with
      | true =>
        have hzero := howned.released hreleased
        omega
      | false =>
        refine ⟨howned.holder, howned.epoch, fun htrue => ?_, fun _ => ⟨rfl, fun expiry he => ?_⟩⟩
        · cases htrue
        · rcases List.mem_cons.1 he with rfl | he
          · exact le_rfl
          · exact ((howned.promised hreleased).2 expiry he).trans hexpiry
  | released =>
    refine h.modify (fun _ => rfl) (fun g => rfl) fun g rest hcons => ?_
    have howned := h.owned g rest hcons
    exact ⟨howned.holder, howned.epoch, fun _ => rfl, nofun⟩

/-! ## Safety -/

theorem Sound.safe (h : Sound s) (hc : s.Prolongs c) : s.Safe c where
  increasing epoch hnone hgrants g hg := by
    cases c with
    | release holder epoch' => cases hgrants
    | acquire holder prev_epoch now_ms ttl_ms =>
      cases hnone
      obtain ⟨row, hrow⟩ := hgrants
      obtain ⟨-, -, rfl⟩ := acquire_eq_some hrow
      exact Nat.lt_succ_of_le (h.epochs g hg)
  renews holder epoch now_ms ttl_ms epoch' heq hgrants := by
    subst heq
    obtain ⟨row, hrow⟩ := hgrants
    obtain ⟨rfl, rfl, hlive, -, rfl⟩ := renew_eq_some hrow
    refine ⟨rfl, ?_⟩
    have hpositive : 0 < now_ms := hc.1
    cases hgrants : s.grants with
    | nil =>
      have hzero := h.unowned hgrants
      omega
    | cons g rest =>
      have howned := h.owned g rest hgrants
      have hnot : g.released = false := by
        cases hreleased : g.released with
        | false => rfl
        | true =>
          have hzero := howned.released hreleased
          omega
      exact ⟨g, rest, rfl, howned.holder, howned.epoch, hnot, _, (howned.promised hnot).1, hlive⟩
  stale g rest epoch hcons hnamed hlt := by
    have hepoch := (h.owned g rest hcons).epoch
    have hend := s.step_end c
    generalize s.step c = s' at hend
    cases hend with
    | kept => rfl
    | granted => cases hnamed
    | renewed =>
      cases hnamed
      omega
    | released =>
      cases hnamed
      omega
  takeover holder now_ms ttl_ms epoch g rest heq hgrants hcons hne := by
    subst heq
    obtain ⟨row, hrow⟩ := hgrants
    obtain ⟨hfree, -, -⟩ := acquire_eq_some hrow
    have howned := h.owned g rest hcons
    have hexpired : s.row.expires_at_ms < now_ms := by
      rcases hfree with hexpired | hown
      · exact hexpired
      · exact absurd (howned.holder.trans hown) hne
    cases hreleased : g.released with
    | true => exact .inl rfl
    | false =>
      refine .inr fun expiry he => ?_
      exact ((howned.promised hreleased).2 expiry he).trans_lt hexpired

/-- If renewals read positive clocks and the owner's do not bring the expiry forward, every call is
safe. -/
theorem lease_over_runs (calls : List LeaseCall) (h : Run.EachStep step {} calls Prolongs) :
    Run.EachStep step {} calls Safe := by
  have hsound : Run.Always step {} calls Sound :=
    Run.always_of_eachStep Sound.seed (fun s c hs hc => hs.step hc) h
  intro i c hc
  exact (hsound i).safe (h i c hc)

/-- A lease that is renewed, expires and is taken by another holder. -/
def taken_over : List LeaseCall :=
  [.acquire "a" none 100 50, .acquire "a" (some 1) 120 50, .acquire "b" none 180 50,
    .acquire "a" (some 1) 190 50, .release "b" 2]

theorem lease_taken_over :
    Run.EachStep step {} taken_over Prolongs ∧ Run.EachStep step {} taken_over Safe :=
  have h : Run.EachStep step {} taken_over Prolongs := by decide +kernel
  ⟨h, lease_over_runs taken_over h⟩

/-- A renewal by a clock that runs behind. -/
def brought_forward : List LeaseCall :=
  [.acquire "a" none 100 50, .acquire "a" (some 1) 10 50, .acquire "b" none 100 50]

/-- The holder was promised the lease until 150, and another one has it at 100. -/
theorem lease_brought_forward :
    (Run.after step {} brought_forward 2).grants = [⟨"a", 1, [60, 150], false⟩] ∧
      (Run.after step {} brought_forward 2).Grants (.acquire "b" none 100 50) 2 ∧
      ¬ (Run.after step {} brought_forward 2).Safe (.acquire "b" none 100 50) := by
  have hgrants : (Run.after step {} brought_forward 2).grants = [⟨"a", 1, [60, 150], false⟩] := by
    decide +kernel
  have hanswer : (Run.after step {} brought_forward 2).Grants (.acquire "b" none 100 50) 2 :=
    ⟨⟨"b", 2, 150⟩, by decide +kernel⟩
  refine ⟨hgrants, hanswer, fun hsafe => ?_⟩
  rcases hsafe.takeover "b" 100 50 2 _ [] rfl hanswer hgrants (by decide) with hreleased | hbefore
  · cases hreleased
  · have hlt := hbefore 150 (by simp)
    omega

end Lease

end PicoMq.Sql
