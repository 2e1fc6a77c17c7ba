import PicoMq.Metadata.Proofs.EpochProofs
import PicoMq.Server.LeaderEpochs

/-!
# Leader epochs are answered consistently

Both scans rest on the order of the recorded epochs: those that begin at or before an offset come
first, and so do those up to a wanted one.
-/

namespace PicoMq.Server

open List Metadata

/-- Later entries have later epochs and later first offsets, or the same. -/
def Ascends (epochs : List (ℤ × ℕ)) : Prop :=
  epochs.Pairwise fun a b => a.1 ≤ b.1 ∧ a.2 ≤ b.2

variable {epochs : List (ℤ × ℕ)} {current wanted : ℤ} {offset high_watermark : ℕ}

/-- The last entry up to the offset has the greatest epoch of them. -/
theorem last_le_iff {d : ℤ} (h : Ascends epochs) (hd : ∀ e ∈ epochs, d ≤ e.1) :
    ((epochs.takeWhile fun e => e.2 ≤ offset).getLast?).elim d Prod.fst ≤ wanted ↔
      d ≤ wanted ∧ ∀ e ∈ epochs, e.2 ≤ offset → e.1 ≤ wanted := by
  induction epochs generalizing d with
  | nil => simp
  | cons e epochs ih =>
    obtain ⟨hfirst, hrest⟩ := pairwise_cons.1 h
    by_cases hle : e.2 ≤ offset
    · have hlast : ∀ l : List (ℤ × ℕ), (e :: l).getLast?.elim d Prod.fst =
          l.getLast?.elim e.1 Prod.fst := by
        intro l
        cases l with
        | nil => rfl
        | cons a l => rw [getLast?_cons_cons]; rfl
      rw [takeWhile_cons_of_pos (by simpa using hle), hlast,
        ih hrest fun e' he' => (hfirst e' he').1]
      have hde := hd e mem_cons_self
      constructor
      · rintro ⟨hwanted, hall⟩
        refine ⟨hde.trans hwanted, fun e' he' hle' => ?_⟩
        rcases mem_cons.1 he' with rfl | he'
        · exact hwanted
        · exact hall e' he' hle'
      · rintro ⟨-, hall⟩
        exact ⟨hall e mem_cons_self hle, fun e' he' => hall e' (mem_cons_of_mem _ he')⟩
    · rw [takeWhile_cons_of_neg (by simpa using hle)]
      refine ⟨fun hd' => ⟨hd', fun e' he' hle' => ?_⟩, And.left⟩
      -- no later entry begins before this one
      rcases mem_cons.1 he' with rfl | he'
      · exact absurd hle' hle
      · exact absurd ((hfirst e' he').2.trans hle') hle

theorem epoch_at_le_iff (h : Ascends epochs) (hepochs : ∀ e ∈ epochs, 0 ≤ e.1)
    (hwanted : 0 ≤ wanted) :
    epoch_at epochs offset ≤ wanted ↔ ∀ e ∈ epochs, e.2 ≤ offset → e.1 ≤ wanted := by
  unfold epoch_at
  rw [last_le_iff h fun e he => by have := hepochs e he; omega]
  exact and_iff_right (by omega)

theorem epoch_end_cases (hdefined : epoch_end epochs current high_watermark wanted ≠ UNDEFINED) :
    0 ≤ wanted ∧ (wanted = current ∧
        (epoch_end epochs current high_watermark wanted).2 = asI64 high_watermark ∨
      ∃ before next after, epochs = before ++ next :: after ∧ (∀ e ∈ before, e.1 ≤ wanted) ∧
        wanted < next.1 ∧ (epoch_end epochs current high_watermark wanted).2 = asI64 next.2) := by
  by_cases hneg : wanted < 0
  · rw [epoch_end, if_pos hneg] at hdefined
    exact absurd rfl hdefined
  refine ⟨by omega, ?_⟩
  rw [epoch_end, if_neg hneg] at hdefined ⊢
  by_cases hcurrent : wanted = current
  · rw [if_pos hcurrent]
    exact .inl ⟨hcurrent, by dsimp only⟩
  · rw [if_neg hcurrent] at hdefined ⊢
    cases hfind : epochs.find? fun e => e.1 > wanted with
    | none =>
      rw [hfind] at hdefined
      exact absurd rfl hdefined
    | some next =>
      obtain ⟨hnext, before, after, heq, hbefore⟩ := find?_eq_some_iff_append.1 hfind
      refine .inr ⟨before, next, after, heq, fun e he => ?_, ?_, by dsimp only⟩
      · simpa using hbefore e he
      · simpa using hnext

section Answers

variable {s : MetadataState} {sid : ℕ} {row : StreamRow} {w : LeaderWatermarks} {answer : ℤ × ℤ}

theorem leader_epoch_mono {a b : ℕ} (h : a ≤ b) : leader_epoch a ≤ leader_epoch b := by
  unfold leader_epoch
  split_ifs <;> omega

theorem mem_leader_epochs {e : ℤ × ℕ} : e ∈ leader_epochs s sid ↔
    ∃ recorded ∈ s.stream_epochs sid, e = (leader_epoch (max recorded.1 0).toNat, recorded.2) := by
  simp [leader_epochs, Server.epochs, eq_comm]

theorem leader_epochs_ascends (h : EpochsOrdered s sid) : Ascends (leader_epochs s sid) := by
  unfold Ascends leader_epochs Server.epochs
  rw [map_map, pairwise_map]
  refine (h.epochs.and h.firsts).imp fun hab => ⟨leader_epoch_mono ?_, hab.2⟩
  exact Int.toNat_le_toNat (max_le_max_right 0 hab.1.le)

theorem epoch_end_of_end_offset (h : end_offset s sid w current wanted = .ok answer) :
    epoch_end (leader_epochs s sid) (leader_epoch w.epoch) w.high_watermark wanted = answer := by
  unfold end_offset leader_watermarks at h
  dsimp only at h
  split_ifs at h
  · cases h
    rfl
  · cases h
  · cases h

theorem asI64_of_lt {n : ℕ} (h : n < 2 ^ 63) : asI64 n = n := by
  unfold asI64 wrapI64
  exact Int.bmod_eq_of_le (by omega) (by omega)

theorem leader_epochs_bound (h : Recorded s) (hrow : s.streams.get sid = some row)
    (hepoch : row.epoch = w.epoch) (hend : row.end_offset ≤ w.high_watermark)
    {e : ℤ × ℕ} (he : e ∈ leader_epochs s sid) :
    0 ≤ e.1 ∧ e.1 ≤ leader_epoch w.epoch ∧ e.2 ≤ w.high_watermark := by
  obtain ⟨recorded, hmem, rfl⟩ := mem_leader_epochs.1 he
  obtain ⟨row', hrow', hle, hfirst⟩ := h.bound sid _ _ (mem_stream_epochs.1 hmem)
  obtain ⟨row'', hrow'', rfl⟩ := StreamTables.exists_of_control hrow'
  cases hrow.symm.trans hrow''
  refine ⟨?_, leader_epoch_mono ?_, hfirst.trans hend⟩
  · unfold leader_epoch
    split_ifs <;> omega
  · have hle' : recorded.1 ≤ row.epoch := hle
    omega

theorem leaderEpochsAgree_of_recorded (h : Recorded s) (hrow : s.streams.get sid = some row)
    (hepoch : row.epoch = w.epoch) (hend : row.end_offset ≤ w.high_watermark)
    (hoffsets : w.high_watermark < 2 ^ 63) : LeaderEpochsAgree s sid w := by
  have hascends := leader_epochs_ascends (h.ordered sid)
  have hbound := fun e he => leader_epochs_bound h hrow hepoch hend (e := e) he
  have hcast : ∀ e ∈ leader_epochs s sid, asI64 e.2 = e.2 :=
    fun e he => asI64_of_lt ((hbound e he).2.2.trans_lt hoffsets)
  constructor
  · intro current wanted answer hanswer hdefined offset _ hlt
    rw [← epoch_end_of_end_offset hanswer] at hdefined ⊢
    obtain ⟨hwanted, ⟨rfl, hlast⟩ | ⟨before, next, after, heq, hbefore, hnext, hlast⟩⟩ :=
      epoch_end_cases hdefined
    · rw [hlast, asI64_of_lt hoffsets, epoch_at_le_iff hascends (fun e he => (hbound e he).1) hwanted]
      exact ⟨fun _ => by exact_mod_cast hlt, fun _ e he _ => (hbound e he).2.1⟩
    · have hmem : next ∈ leader_epochs s sid := by simp [heq]
      rw [hlast, hcast next hmem, epoch_at_le_iff hascends (fun e he => (hbound e he).1) hwanted]
      constructor
      · intro hall
        by_contra hge
        have := hall next hmem (by omega)
        omega
      · intro hlt' e he hle
        rw [heq] at he hascends
        rcases mem_append.1 he with he | he
        · exact hbefore e he
        · have hge : next.2 ≤ e.2 := by
            rcases mem_cons.1 he with rfl | he
            · exact le_rfl
            · exact ((pairwise_cons.1 (pairwise_append.1 hascends).2.1).1 e he).2
          omega
  · intro current wanted answer current' wanted' answer' hanswer hdefined hanswer' hdefined' hle
    rw [← epoch_end_of_end_offset hanswer] at hdefined ⊢
    rw [← epoch_end_of_end_offset hanswer'] at hdefined' ⊢
    obtain ⟨-, ⟨rfl, hlast⟩ | ⟨before, next, after, heq, hbefore, hnext, hlast⟩⟩ :=
      epoch_end_cases hdefined
    · obtain ⟨-, ⟨rfl, hlast'⟩ | ⟨before, next, after, heq, hbefore, hnext, hlast'⟩⟩ :=
        epoch_end_cases hdefined'
      · exact le_rfl
      · have := (hbound next (by simp [heq])).2.1
        omega
    · have hmem : next ∈ leader_epochs s sid := by simp [heq]
      obtain ⟨-, ⟨rfl, hlast'⟩ | ⟨before', next', after', heq', hbefore', hnext', hlast'⟩⟩ :=
        epoch_end_cases hdefined'
      · rw [hlast, hlast', hcast next hmem, asI64_of_lt hoffsets]
        exact_mod_cast (hbound next hmem).2.2
      · have hmem' : next' ∈ leader_epochs s sid := by simp [heq']
        rw [hlast, hlast', hcast next hmem, hcast next' hmem']
        -- the entry above the later epoch is not among those before the other one
        rw [heq] at hmem' hascends
        rcases mem_append.1 hmem' with hin | hin
        · have := hbefore next' hin
          omega
        · rcases mem_cons.1 hin with rfl | hin
          · exact le_rfl
          · exact_mod_cast
              ((pairwise_cons.1 (pairwise_append.1 hascends).2.1).1 next' hin).2

end Answers

/-- If plain commits do not end before they start, the ends answered for the epochs of a stream that
is held open agree with the epochs reported for its live offsets. -/
theorem leader_epochs_agree {noop : ℕ} {log : List MetadataCommand}
    (h : EachAccepted noop log fun _ c => CommitsForward noop c) (i sid : ℕ)
    (row : StreamRow) (w : LeaderWatermarks)
    (hrow : (history noop log i).streams.get sid = some row)
    (hepoch : row.epoch = w.epoch) (hend : row.end_offset ≤ w.high_watermark)
    (hoffsets : w.high_watermark < 2 ^ 63) :
    LeaderEpochsAgree (history noop log i) sid w :=
  leaderEpochsAgree_of_recorded (history_recorded h i).2 hrow hepoch hend hoffsets

theorem leader_epochs_agree_of_reopened :
    LeaderEpochsAgree (history 1000 (reopened_stream 10) 8) 0 ⟨⟨0, 12⟩, 3⟩ :=
  leader_epochs_agree (forward_reopened 10) 8 0 ⟨0, 3, 0, 10, .opened, 1, 100⟩ ⟨⟨0, 12⟩, 3⟩
    (by decide +kernel) rfl (by decide) (by decide)

/-- A commit under epoch 2, which begins at 10, moves the end back to 5, where epoch 3 begins. -/
def moved_back : List MetadataCommand :=
  [.registerNode 1 0 "a" 1 .empty "wal", .createStream ⟨1, 0⟩, .openStream ⟨1, 0⟩ 0 1,
    .commitStreamSetObject ⟨1, 0⟩ ⟨0, 100, 0, [⟨0, 1, 0, 10, 100⟩], [], []⟩ 100,
    .closeStream ⟨1, 0⟩ 0 1, .openStream ⟨1, 0⟩ 0 2,
    .commitStreamSetObject ⟨1, 0⟩ ⟨1, 100, 0, [⟨0, 2, 10, 5, 100⟩], [], []⟩ 100,
    .closeStream ⟨1, 0⟩ 0 2, .openStream ⟨1, 0⟩ 0 3]

/-- Epoch 2 is answered to end at 5, and offset 6 is reported under epoch 1. -/
theorem moved_back_disagrees :
    (history 1000 moved_back 9).streams.get 0 = some ⟨0, 3, 0, 5, .opened, 1, 200⟩ ∧
      ¬ LeaderEpochsAgree (history 1000 moved_back 9) 0 ⟨⟨0, 7⟩, 3⟩ := by
  refine ⟨by decide +kernel, fun h => ?_⟩
  have hiff := h.separates (-1) 2 (2, 5) (by decide +kernel) (by decide) 6 (by decide) (by decide)
  have hat : epoch_at (leader_epochs (history 1000 moved_back 9) 0) 6 = 1 := by decide +kernel
  rw [hat] at hiff
  exact absurd (hiff.1 (by decide)) (by decide)

end PicoMq.Server
