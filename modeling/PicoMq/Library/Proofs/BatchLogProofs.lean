import Mathlib.Order.Nat
import PicoMq.Library.BatchLog

/-!
# Lemmas about logs of batches
-/

namespace BatchLog

open List

variable {α : Type*} {log : BatchLog α} {b : Batch α} {c d n : ℕ} {a : α} {l : List (Batch α)}
variable {count : ℕ}

/-! ## Offsets -/

section

variable (h : Contiguous n l)
include h

theorem base_lt_last (hb : b ∈ l) : b.base_offset < b.last_offset := by
  induction l generalizing n with
  | nil => simp at hb
  | cons hd tl ih =>
    obtain ⟨-, hpos, htl⟩ := h
    rcases mem_cons.1 hb with rfl | hb
    · unfold Batch.last_offset
      omega
    · exact ih htl hb

theorem le_foldl_last : n ≤ l.foldl (fun _ b => b.last_offset) n := by
  induction l generalizing n with
  | nil => exact le_refl n
  | cons hd tl ih =>
    obtain ⟨hbase, hpos, htl⟩ := h
    have hle := ih htl
    rw [foldl_cons]
    unfold Batch.last_offset at hle ⊢
    omega

theorem pairwise_last_le_base :
    l.Pairwise fun b b' => b.last_offset ≤ b'.base_offset := by
  induction l generalizing n with
  | nil => exact List.Pairwise.nil
  | cons hd tl ih =>
    obtain ⟨-, -, htl⟩ := h
    exact pairwise_cons.2 ⟨fun b' hb' => le_base_offset htl hb', ih htl⟩

theorem last_le_foldl (hb : b ∈ l) :
    b.last_offset ≤ l.foldl (fun _ b => b.last_offset) n := by
  induction l generalizing n with
  | nil => simp at hb
  | cons hd tl ih =>
    obtain ⟨-, -, htl⟩ := h
    rw [foldl_cons]
    rcases mem_cons.1 hb with rfl | hb
    · exact le_foldl_last htl
    · exact ih htl hb

end

theorem base_lt_next (hb : b ∈ log.batches) : b.base_offset < log.next_offset :=
  lt_of_lt_of_le (base_lt_last log.contiguous hb) (last_le_foldl log.contiguous hb)

/-! ## Parts of a log -/

@[simp]
theorem mem_below : b ∈ log.below c ↔ b ∈ log.batches ∧ b.base_offset < c := by
  simp [below]

@[simp]
theorem mem_since : b ∈ log.since c ↔ b ∈ log.batches ∧ c ≤ b.base_offset := by
  simp [since]

theorem below_append_since (log : BatchLog α) (c : ℕ) :
    log.below c ++ log.since c = log.batches := by
  have h := log.contiguous
  unfold below since
  generalize log.batches = l at h
  generalize 0 = n at h
  induction l generalizing n with
  | nil => rfl
  | cons hd tl ih =>
    have hmem := fun b => le_base_offset (b := b) h
    obtain ⟨hbase, -, htl⟩ := h
    by_cases hc : hd.base_offset < c
    · have hge : ¬ c ≤ hd.base_offset := by omega
      simp only [filter_cons, hc, hge, decide_true, decide_false, if_true]
      simp [ih _ htl]
    · have hnone : ((hd :: tl).filter fun b => b.base_offset < c) = [] := by
        refine filter_eq_nil_iff.2 fun b hb => ?_
        have := hmem b hb
        simp only [decide_eq_true_eq]
        omega
      have hall : ((hd :: tl).filter fun b => c ≤ b.base_offset) = hd :: tl := by
        refine filter_eq_self.2 fun b hb => ?_
        have := hmem b hb
        simp only [decide_eq_true_eq]
        omega
      rw [hnone, hall, nil_append]

theorem below_of_next_le (h : log.next_offset ≤ c) : log.below c = log.batches := by
  refine filter_eq_self.2 fun b hb => ?_
  have hlt := base_lt_next hb
  simp only [decide_eq_true_eq]
  omega

theorem below_below (h : c ≤ d) : (log.truncate d).below c = log.below c := by
  unfold truncate below
  rw [filter_filter]
  refine filter_congr fun b _ => ?_
  simp only [← Bool.decide_and, decide_eq_decide]
  omega

theorem fetch_of_boundary (h : log.IsBoundary c) :
    log.fetch c d = (log.since c).filter fun b => b.base_offset < d := by
  unfold fetch since
  rw [filter_filter]
  refine filter_congr fun b hb => ?_
  have hlt := base_lt_last log.contiguous hb
  have hle := h.2 b hb
  simp only [← Bool.decide_and, decide_eq_decide]
  omega

theorem foldl_last_of_getLast? (h : l.getLast? = some b) :
    l.foldl (fun _ b => b.last_offset) n = b.last_offset := by
  obtain ⟨init, rfl⟩ := getLast?_eq_some_iff.1 h
  rw [foldl_append]
  rfl

theorem exists_cons_of_filter (h : Contiguous n l) (hn : n ≤ c)
    (hc : c < l.foldl (fun _ b => b.last_offset) n) :
    ∃ b rest, (l.filter fun b => c < b.last_offset) = b :: rest ∧
      b.base_offset ≤ c ∧ c < b.last_offset ∧ Contiguous b.base_offset (b :: rest) := by
  induction l generalizing n with
  | nil => exact absurd hc (not_lt.2 hn)
  | cons hd tl ih =>
    obtain ⟨hbase, hpos, htl⟩ := h
    by_cases hlast : c < hd.last_offset
    · -- every batch after the one that holds `c` lies above `c`
      have hfilter : (tl.filter fun b => c < b.last_offset) = tl := by
        refine filter_eq_self.2 fun b hb => ?_
        have hle := le_base_offset htl hb
        have hlt := base_lt_last htl hb
        simp only [decide_eq_true_eq]
        omega
      refine ⟨hd, tl, ?_, by omega, hlast, rfl, hpos, htl⟩
      rw [filter_cons, if_pos (decide_eq_true hlast), hfilter]
    · rw [filter_cons, if_neg (by rwa [decide_eq_true_eq])]
      exact ih htl (not_lt.1 hlast) hc

theorem exists_cons_of_fetch (hcd : c < d) (hc : c < log.next_offset) :
    ∃ b rest, log.fetch c d = b :: rest ∧ b.base_offset ≤ c ∧ c < b.last_offset ∧
      Contiguous b.base_offset (b :: rest) := by
  obtain ⟨b, rest, hfilter, hbase, hlast, hcont⟩ :=
    exists_cons_of_filter log.contiguous (Nat.zero_le c) hc
  have hfetch : log.fetch c d = (b :: rest).filter fun b => b.base_offset < d := by
    rw [← hfilter, filter_filter]
    refine filter_congr fun b _ => ?_
    rw [Bool.and_comm, Bool.decide_and]
  have hb : b.base_offset < d := by omega
  refine ⟨b, rest.filter fun b => b.base_offset < d, ?_, hbase, hlast, ?_⟩
  · rw [hfetch, filter_cons, if_pos (decide_eq_true hb)]
  · have hcut := contiguous_filter hcont d
    rwa [filter_cons, if_pos (decide_eq_true hb)] at hcut

theorem contiguous_of_prefix {l m : List (Batch α)} (hm : Contiguous n m) (h : l <+: m) :
    Contiguous n l := by
  obtain ⟨rest, rfl⟩ := h
  exact (contiguous_append_iff.1 hm).1

theorem isPrefix_of_subset {l m : List (Batch α)} (hl : Contiguous n l) (hm : Contiguous n m)
    (h : ∀ b ∈ l, b ∈ m) : l <+: m := by
  induction l generalizing n m with
  | nil => exact nil_prefix
  | cons b l ih =>
    obtain ⟨hbase, hpos, htl⟩ := hl
    cases m with
    | nil => exact absurd (h b (mem_cons_self ..)) not_mem_nil
    | cons b' m =>
      obtain ⟨hbase', hpos', htl'⟩ := hm
      have hhead : b = b' := by
        rcases mem_cons.1 (h b (mem_cons_self ..)) with heq | hmem
        · exact heq
        · have hle := le_base_offset htl' hmem
          unfold Batch.last_offset at hle
          omega
      subst hhead
      refine cons_prefix_cons.2 ⟨rfl, ih htl htl' fun x hx => ?_⟩
      rcases mem_cons.1 (h x (mem_cons_of_mem _ hx)) with rfl | hmem
      · have hle := le_base_offset htl hx
        unfold Batch.last_offset at hle
        omega
      · exact hmem

theorem mem_fetch (h : log.IsBoundary c) :
    b ∈ log.fetch c d ↔ b ∈ log.batches ∧ c ≤ b.base_offset ∧ b.base_offset < d := by
  rw [fetch_of_boundary h]
  simp [and_assoc]

theorem below_append_fetch (h : log.IsBoundary c) (hcd : c ≤ d) :
    log.below c ++ log.fetch c d = log.below d := by
  rw [fetch_of_boundary h]
  conv_rhs => unfold below
  rw [← below_append_since log c, filter_append]
  congr 1
  refine (filter_eq_self.2 fun b hb => ?_).symm
  have := (mem_below.1 hb).2
  simp only [decide_eq_true_eq]
  omega

/-! ## Appending and cutting off -/

theorem append_of_pos (h : 0 < count) :
    (log.append count a).batches = log.batches ++ [⟨log.next_offset, count, a⟩] := by
  simp [append, h]

theorem next_offset_append (h : 0 < count) :
    (log.append count a).next_offset = log.next_offset + count := by
  unfold next_offset
  rw [append_of_pos h, foldl_append]
  rfl

theorem below_append (h : 0 < count) (hc : c ≤ log.next_offset) :
    (log.append count a).below c = log.below c := by
  have hge : ¬ log.next_offset < c := by omega
  unfold below
  rw [append_of_pos h, filter_append]
  simp [hge]

theorem isBoundary_next : log.IsBoundary log.next_offset :=
  ⟨le_refl _, fun _ hb _ => last_le_foldl log.contiguous hb⟩

theorem isBoundary_zero : log.IsBoundary 0 := ⟨Nat.zero_le _, fun _ _ h => by omega⟩

theorem last_le_base_or (h : b ∈ log.batches) {b' : Batch α} (h' : b' ∈ log.batches) :
    b = b' ∨ b.last_offset ≤ b'.base_offset ∨ b'.last_offset ≤ b.base_offset := by
  have hpair := pairwise_last_le_base log.contiguous
  rw [pairwise_iff_getElem] at hpair
  obtain ⟨i, hi, rfl⟩ := getElem_of_mem h
  obtain ⟨j, hj, rfl⟩ := getElem_of_mem h'
  rcases Nat.lt_trichotomy i j with hij | rfl | hij
  · exact .inr (.inl (hpair i j hi hj hij))
  · exact .inl rfl
  · exact .inr (.inr (hpair j i hj hi hij))

theorem isBoundary_last (h : b ∈ log.batches) : log.IsBoundary b.last_offset := by
  refine ⟨last_le_foldl log.contiguous h, fun b' h' hlt => ?_⟩
  have hpos := base_lt_last log.contiguous h
  rcases last_le_base_or h h' with rfl | hle | hle
  · exact le_refl _
  · omega
  · omega

theorem of_since_eq_cons {rest : List (Batch α)} (h : log.since c = b :: rest) :
    b ∈ log.batches ∧ c ≤ b.base_offset ∧ c < b.last_offset := by
  have hmem : b ∈ log.since c := by
    rw [h]
    exact mem_cons_self
  obtain ⟨hin, hge⟩ := mem_since.1 hmem
  exact ⟨hin, hge, lt_of_le_of_lt hge (base_lt_last log.contiguous hin)⟩

theorem IsBoundary.append (h : 0 < count) (hc : log.IsBoundary c) :
    (log.append count a).IsBoundary c := by
  refine ⟨?_, fun b hb hlt => ?_⟩
  · rw [next_offset_append h]
    have := hc.1
    omega
  · rw [append_of_pos h] at hb
    rcases mem_append.1 hb with hb | hb
    · exact hc.2 b hb hlt
    · have := hc.1
      simp only [mem_singleton] at hb
      subst hb
      simp only at hlt
      omega

theorem next_offset_truncate (h : log.IsBoundary c) : (log.truncate c).next_offset = c := by
  obtain ⟨hle, hacross⟩ := h
  have hcont := log.contiguous
  unfold next_offset at hle
  unfold next_offset truncate below
  simp only
  have hzero : 0 ≤ c := Nat.zero_le c
  generalize log.batches = l at hle hacross hcont
  generalize 0 = n at hle hcont hzero
  induction l generalizing n with
  | nil => exact le_antisymm hzero hle
  | cons hd tl ih =>
    have hmem := fun b => le_base_offset (b := b) hcont
    obtain ⟨hbase, hpos, htl⟩ := hcont
    by_cases hc : hd.base_offset < c
    · have hlast := hacross hd mem_cons_self hc
      simp only [filter_cons, hc, decide_true, if_true, foldl_cons]
      exact ih (fun b hb => hacross b (mem_cons_of_mem _ hb)) hd.last_offset hle htl hlast
    · have hnone : ((hd :: tl).filter fun b => b.base_offset < c) = [] := by
        refine filter_eq_nil_iff.2 fun b hb => ?_
        have := hmem b hb
        simp only [decide_eq_true_eq]
        omega
      rw [hnone]
      simp only [foldl_nil]
      omega

theorem IsBoundary.truncate (h : log.IsBoundary c) (hd : log.IsBoundary d) (hcd : c ≤ d) :
    (log.truncate d).IsBoundary c := by
  refine ⟨?_, fun b hb hlt => h.2 b (mem_below.1 hb).1 hlt⟩
  rw [next_offset_truncate hd]
  exact hcd

end BatchLog
