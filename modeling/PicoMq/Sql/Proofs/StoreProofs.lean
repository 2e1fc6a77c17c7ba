import PicoMq.Library.Proofs.FoldProofs
import PicoMq.Library.Proofs.RunProofs
import PicoMq.Library.Proofs.SharedLogProofs
import PicoMq.Sql.Invariants

/-!
# The store holds the history

What each statement does to a store that holds the history, whatever fault its call meets.
-/

namespace PicoMq.Sql

open Except Metadata SharedLog

/-! ## Calls -/

theorem to_i64_eq_ok {value idx : ℕ} {what : String} (h : to_i64 value what = .ok idx) :
    idx = value := by
  unfold to_i64 at h
  split_ifs at h
  exact (ok.inj h).symm

theorem read_eq_ok {T : Type} {fault : Option Fault} {answer : Except StoreError T} {value : T}
    (h : read fault answer = .ok value) : answer = .ok value := by
  cases fault with
  | none => exact h
  | some fault => cases h

theorem call_cases {Payload T : Type} (fault : Option Fault) (store : MetaStore Payload)
    (statement : MetaStore Payload → Except StoreError (MetaStore Payload × T)) :
    ((call fault store statement).store = store ∧ (call fault store statement).executed = none ∧
      ∃ error, (call fault store statement).answer = .error error) ∨
    ∃ next done, statement store = .ok (next, done) ∧
      (call fault store statement).store = next ∧
      (call fault store statement).executed = some done ∧
      ((call fault store statement).answer = .ok done ∨
        ∃ error, (call fault store statement).answer = .error error) := by
  unfold call
  cases hs : statement store with
  | error error =>
    left
    rcases fault with _ | message | message <;> exact ⟨rfl, rfl, _, rfl⟩
  | ok result =>
    obtain ⟨next, done⟩ := result
    rcases fault with _ | message | message
    · exact .inr ⟨next, done, rfl, rfl, rfl, .inl rfl⟩
    · exact .inl ⟨rfl, rfl, _, rfl⟩
    · exact .inr ⟨next, done, rfl, rfl, rfl, .inr ⟨_, rfl⟩⟩

/-! ## States of the history -/

section History

variable {noop : ℕ} {rows more : List Row} {idx : ℕ} {state : MetadataState}

theorem replayed_append (h : idx ≤ rows.length) :
    replayed noop (rows ++ more) idx = replayed noop rows idx := by
  unfold replayed
  rw [List.take_append_of_le_length h]

theorem replayed_succ {row : Row} (h : entry rows (idx + 1) = some row) :
    replayed noop rows (idx + 1) =
      Run.run (step noop) (replayed noop rows idx) row.commands := by
  have hrow : rows[idx]? = some row := h
  unfold replayed Run.run
  rw [List.take_add_one, hrow]
  simp

theorem reflects_zero : Reflects noop rows 0 {} where
  le := Nat.zero_le _
  eq := by simp [replayed, Run.run]

theorem reflects_append (h : Reflects noop rows idx state) :
    Reflects noop (rows ++ more) idx state where
  le := by
    have := h.le
    simp only [List.length_append]
    omega
  eq := by rw [replayed_append h.le, h.eq]

theorem results_append {results : BatchResults} (h : ResultsOf noop rows idx results) :
    ResultsOf noop (rows ++ more) idx results := by
  obtain ⟨row, hrow, hresults⟩ := h
  have hle := entry_le hrow
  refine ⟨row, entry_append hrow more, ?_⟩
  rw [replayed_append (by omega)]
  exact hresults

theorem own_append {answer : Answer} (h : answer.Own noop rows idx) :
    answer.Own noop (rows ++ more) idx where
  occupies := entry_append h.occupies more
  replies := h.replies
  reply := by
    have hle := entry_le h.occupies
    rw [replayed_append (by omega)]
    exact h.reply
  visible := h.visible

end History

/-! ## What a statement did -/

section Statements

variable {Payload : Type} {store store' : MetaStore Payload} {idx : ℕ} {payload : Payload}

theorem append_cases {won : Bool} (h : store.append idx payload = .ok (store', won)) :
    (won = true ∧ store.covered < idx ∧ store.meta_log.get idx = none ∧
      store' = { store with meta_log := store.meta_log.insert idx payload }) ∨
    (won = false ∧ store' = store) := by
  obtain ⟨i, hi, hput⟩ := bind_eq_ok_iff.1 h
  have hidx := to_i64_eq_ok hi
  subst hidx
  by_cases hslot : store.covered < i ∧ (!store.meta_log.contains_key i) = true
  · rw [if_pos hslot] at hput
    have hkey : store.meta_log.contains_key i = false := by simpa using hslot.2
    cases hput
    exact .inl ⟨rfl, hslot.1, OrdMap.contains_key_eq_false.1 hkey, rfl⟩
  · rw [if_neg hslot] at hput
    cases hput
    exact .inr ⟨rfl, rfl⟩

theorem covered_eq (h : store.meta_snapshot = some (idx, payload)) : store.covered = idx := by
  simp [MetaStore.covered, h]

theorem store_snapshot_cases (h : store.store_snapshot idx payload = .ok (store', ())) :
    (store.covered ≤ idx ∧ store' = { store with meta_snapshot := some (idx, payload) }) ∨
    (idx ≤ store.covered ∧ store' = store) := by
  obtain ⟨i, hi, hput⟩ := bind_eq_ok_iff.1 h
  have hidx := to_i64_eq_ok hi
  subst hidx
  cases hold : store.meta_snapshot with
  | none =>
    rw [hold] at hput
    cases hput
    have hcovered : store.covered = 0 := by simp [MetaStore.covered, hold]
    exact .inl ⟨by omega, rfl⟩
  | some stored =>
    obtain ⟨stored, old⟩ := stored
    rw [hold] at hput
    have hcovered := covered_eq hold
    simp only at hput
    by_cases hlt : stored < i
    · rw [if_pos hlt] at hput
      cases hput
      exact .inl ⟨by omega, rfl⟩
    · rw [if_neg hlt] at hput
      cases hput
      exact .inr ⟨by omega, rfl⟩

theorem truncate_log_eq {up_to : ℕ} (h : store.truncate_log up_to = .ok (store', ())) :
    store' = { store with meta_log := store.meta_log.retain fun idx => decide (up_to < idx) } := by
  obtain ⟨i, hi, hput⟩ := bind_eq_ok_iff.1 h
  have hidx := to_i64_eq_ok hi
  subst hidx
  cases hput
  rfl

theorem fetch_after_eq {applied limit : ℕ} {fetched : List (ℕ × Payload)}
    (h : store.fetch_after applied limit = .ok fetched) :
    fetched = (store.meta_log.scan fun idx => decide (applied < idx)).take limit := by
  obtain ⟨i, hi, hrows⟩ := bind_eq_ok_iff.1 h
  have hidx := to_i64_eq_ok hi
  subst hidx
  cases hrows
  rfl

end Statements

/-! ## The history in the store -/

namespace StoreHolds

variable {Payload : Type} {noop : ℕ} {codec : Codec noop Payload}
  {rows : List Row} {store store' : MetaStore Payload} {fault : Option Fault}

theorem empty : StoreHolds codec [] ({} : MetaStore Payload) where
  log := {
    low_le := le_rfl
    sound := fun idx b h => by cases h
    kept := fun idx hlow hle => by
      have : idx ≤ 0 := hle
      omega }
  snapshot := fun idx payload h => by cases h
  indexes := fun idx row h => by
    cases idx with
    | zero => cases h
    | succ i => cases h

theorem decode_snapshot (h : StoreHolds codec rows store) {idx : ℕ} {payload : Payload}
    (hs : store.meta_snapshot = some (idx, payload)) :
    ∃ state, codec.decode payload = .ok state ∧ Reflects noop rows idx state := by
  refine ⟨replayed noop rows idx, ?_, ?_, rfl⟩
  · rw [h.snapshot idx payload hs]
    exact codec.decode_encode _
  · have hle := h.log.low_le
    rw [covered_eq hs] at hle
    exact hle

theorem exists_snapshot {applied : ℕ} (h : applied < store.covered) :
    ∃ payload, store.meta_snapshot = some (store.covered, payload) := by
  cases hs : store.meta_snapshot with
  | none =>
    have hcovered : store.covered = 0 := by simp [MetaStore.covered, hs]
    omega
  | some stored =>
    obtain ⟨idx, payload⟩ := stored
    exact ⟨payload, by rw [covered_eq hs]⟩

section

variable (h : StoreHolds codec rows store)
include h

theorem fetch_tail {applied limit : ℕ} {fetched : List (ℕ × Payload)}
    (hf : read fault (store.fetch_after applied limit) = .ok fetched) :
    Tail (encode_row codec) rows store.covered applied fetched := by
  rw [fetch_after_eq (read_eq_ok hf)]
  exact h.log.tail_scan applied limit

theorem last_idx_eq : store.last_idx = rows.length :=
  le_antisymm h.log.max_le_length h.log.length_le_max

theorem append_won (id : ℕ) {next : ℕ}
    {commands : List MetadataCommand} (hnext : next ≤ rows.length + 1)
    (ha : store.append next (codec.encode_batch commands) = .ok (store', true)) :
    next = rows.length + 1 ∧ StoreHolds codec (rows ++ [⟨next, id, commands⟩]) store' ∧
      store'.covered = store.covered := by
  rcases append_cases ha with ⟨-, hlow, hfree, rfl⟩ | ⟨hwon, -⟩
  · have hlast : next = rows.length + 1 := h.log.slot_eq hfree hlow hnext
    refine ⟨hlast, ⟨?_, ?_, ?_⟩, rfl⟩
    · have happend := h.log.append ⟨next, id, commands⟩
      rw [← hlast] at happend
      exact happend
    · intro snap payload hs
      have hs' : store.meta_snapshot = some (snap, payload) := hs
      have hle := h.log.low_le
      rw [covered_eq hs'] at hle
      rw [replayed_append hle]
      exact h.snapshot snap payload hs'
    · intro i row hrow
      rcases entry_append_cases hrow with hold | ⟨hi, hrow⟩
      · exact h.indexes i row hold
      · rw [hrow, hi, ← hlast]
  · cases hwon

theorem store_snapshot {idx : ℕ} {state : MetadataState} (hr : Reflects noop rows idx state)
    (hs : store.store_snapshot idx (codec.encode state) = .ok (store', ())) :
    StoreHolds codec rows store' ∧ store.covered ≤ store'.covered ∧ idx ≤ store'.covered := by
  rcases store_snapshot_cases hs with ⟨hle, rfl⟩ | ⟨hle, rfl⟩
  · refine ⟨⟨h.log.raise hle hr.le, ?_, h.indexes⟩, hle, le_rfl⟩
    intro snap payload hsnap
    obtain ⟨hsnap, hpayload⟩ := Prod.mk.inj (Option.some.inj hsnap)
    rw [← hpayload, ← hsnap, hr.eq]
  · exact ⟨h, le_rfl, hle⟩

theorem truncate_log {up_to : ℕ} (hle : up_to ≤ store.covered)
    (ht : store.truncate_log up_to = .ok (store', ())) :
    StoreHolds codec rows store' ∧ store'.covered = store.covered := by
  rw [truncate_log_eq ht]
  exact ⟨⟨h.log.truncate hle, h.snapshot, h.indexes⟩, rfl⟩

end

end StoreHolds

end PicoMq.Sql
