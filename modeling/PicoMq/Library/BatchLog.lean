import Mathlib.Data.List.Basic

/-!
# Logs of batches

Each batch takes as many offsets as it has records, from where the one before it ended.
-/

/-- One append: `record_count` records from `base_offset` on. -/
structure Batch (α : Type*) where
  base_offset : ℕ
  record_count : ℕ
  payload : α
deriving DecidableEq, Repr

namespace Batch

variable {α : Type*}

def last_offset (b : Batch α) : ℕ := b.base_offset + b.record_count

end Batch

/-- The batches follow each other from offset `n` on, and none is empty. -/
def Contiguous {α : Type*} : ℕ → List (Batch α) → Prop
  | _, [] => True
  | n, b :: l => b.base_offset = n ∧ 0 < b.record_count ∧ Contiguous b.last_offset l

/-- A log from offset 0 on. -/
structure BatchLog (α : Type*) where
  batches : List (Batch α)
  /-- Every batch starts where the one before it ended. -/
  contiguous : Contiguous 0 batches

namespace BatchLog

variable {α : Type*}

theorem contiguous_append_iff {n : ℕ} {l m : List (Batch α)} :
    Contiguous n (l ++ m) ↔
      Contiguous n l ∧ Contiguous (l.foldl (fun _ b => b.last_offset) n) m := by
  induction l generalizing n with
  | nil => simp [Contiguous]
  | cons b l ih =>
    simp only [List.cons_append, Contiguous, ih, List.foldl_cons]
    tauto

theorem le_base_offset {n : ℕ} {l : List (Batch α)} (h : Contiguous n l) {b : Batch α}
    (hb : b ∈ l) : n ≤ b.base_offset := by
  induction l generalizing n with
  | nil => simp at hb
  | cons hd tl ih =>
    obtain ⟨hbase, -, htl⟩ := h
    rcases List.mem_cons.1 hb with rfl | hb
    · omega
    · have hle := ih htl hb
      unfold Batch.last_offset at hle
      omega

theorem contiguous_filter {n : ℕ} {l : List (Batch α)} (h : Contiguous n l) (c : ℕ) :
    Contiguous n (l.filter fun b => b.base_offset < c) := by
  induction l generalizing n with
  | nil => trivial
  | cons b l ih =>
    have hmem := fun b' => le_base_offset (b := b') h
    obtain ⟨hb, hpos, hl⟩ := h
    by_cases hc : b.base_offset < c
    · simp only [List.filter_cons, hc, decide_true, if_true]
      exact ⟨hb, hpos, ih hl⟩
    · -- the first batch at `c` or above ends the part below `c`
      have hnone : ((b :: l).filter fun b => b.base_offset < c) = [] := by
        refine List.filter_eq_nil_iff.2 fun b' hb' => ?_
        have hle := hmem b' hb'
        simp only [decide_eq_true_eq]
        omega
      rw [hnone]
      trivial

def empty : BatchLog α := ⟨[], trivial⟩

variable (log : BatchLog α)

def next_offset : ℕ := log.batches.foldl (fun _ b => b.last_offset) 0

/-- The log with one more batch; a batch without records is not appended. -/
def append (record_count : ℕ) (a : α) : BatchLog α :=
  if h : 0 < record_count then
    ⟨log.batches ++ [⟨log.next_offset, record_count, a⟩],
      contiguous_append_iff.2 ⟨log.contiguous, rfl, h, trivial⟩⟩
  else log

variable (c : ℕ)

def below : List (Batch α) :=
  log.batches.filter fun b => b.base_offset < c

def since : List (Batch α) :=
  log.batches.filter fun b => c ≤ b.base_offset

/-- The batches with records in `[c, d)`, as a read of that range returns them. -/
def fetch (c d : ℕ) : List (Batch α) :=
  log.batches.filter fun b => c < b.last_offset ∧ b.base_offset < d

/-- The log without the batches that start at `c` or above. -/
def truncate : BatchLog α :=
  ⟨log.below c, contiguous_filter log.contiguous c⟩

/-- No batch reaches across `c`. -/
def IsBoundary : Prop :=
  c ≤ log.next_offset ∧ ∀ b ∈ log.batches, b.base_offset < c → b.last_offset ≤ c

instance : Decidable (log.IsBoundary c) :=
  inferInstanceAs (Decidable (_ ∧ ∀ b ∈ log.batches, b.base_offset < c → b.last_offset ≤ c))

end BatchLog
