import PicoMq.Library.Proofs.OrdMapProofs
import PicoMq.Library.SharedLog

/-!
# Facts about truncated copies of an append-only log

What appending, truncating and raising the mark keep, and that reading the table in order gives a
tail of the history.
-/

namespace SharedLog

open List OrdMap

variable {α β : Type*} {enc : α → β} {history : List α} {low low' idx applied : ℕ}
  {table : OrdMap ℕ β} {a : α}
variable {rows : List (ℕ × β)}

/-! ## Entries -/

theorem entry_le (h : entry history idx = some a) : 1 ≤ idx ∧ idx ≤ history.length := by
  cases idx with
  | zero => cases h
  | succ i =>
    have hi : i < history.length := (List.getElem?_eq_some_iff.1 h).1
    omega

theorem entry_append (h : entry history idx = some a) (more : List α) :
    entry (history ++ more) idx = some a := by
  cases idx with
  | zero => cases h
  | succ i =>
    have hi : i < history.length := (List.getElem?_eq_some_iff.1 h).1
    show (history ++ more)[i]? = some a
    rw [getElem?_append_left hi]
    exact h

theorem entry_last (history : List α) (a : α) :
    entry (history ++ [a]) (history.length + 1) = some a := by
  show (history ++ [a])[history.length]? = some a
  simp

theorem entry_append_cases {b : α} (h : entry (history ++ [b]) idx = some a) :
    entry history idx = some a ∨ (idx = history.length + 1 ∧ a = b) := by
  cases idx with
  | zero => cases h
  | succ i =>
    have h' : (history ++ [b])[i]? = some a := h
    rcases Nat.lt_trichotomy i history.length with hi | rfl | hi
    · rw [getElem?_append_left hi] at h'
      exact .inl h'
    · rw [getElem?_concat_length] at h'
      exact .inr ⟨rfl, (Option.some.inj h').symm⟩
    · rw [getElem?_eq_none (by simp; omega)] at h'
      cases h'

/-! ## Tails -/

theorem tail_mono (more : List α) (hlow : low ≤ low')
    (h : Tail enc history low applied rows) : Tail enc (history ++ more) low' applied rows := by
  induction rows generalizing applied with
  | nil => trivial
  | cons row rest ih =>
    obtain ⟨idx, b⟩ := row
    obtain ⟨hlt, hgap, ⟨a, ha, hb⟩, hrest⟩ := h
    refine ⟨hlt, ?_, ⟨a, entry_append ha more, hb⟩, ih hrest⟩
    rcases hgap with heq | hbelow
    · exact .inl heq
    · exact .inr (lt_of_lt_of_le hbelow hlow)

theorem tail_take (h : Tail enc history low applied rows) (n : ℕ) :
    Tail enc history low applied (rows.take n) := by
  induction rows generalizing applied n with
  | nil => simpa using h
  | cons row rest ih =>
    cases n with
    | zero => trivial
    | succ n =>
      obtain ⟨idx, b⟩ := row
      obtain ⟨hlt, hgap, hentry, hrest⟩ := h
      exact ⟨hlt, hgap, hentry, ih hrest n⟩

/-! ## The table -/

namespace Stores

section

variable (h : Stores enc history low table)
include h

theorem idx_le {b : β} (hget : table.get idx = some b) : idx ≤ history.length := by
  obtain ⟨a, ha, -⟩ := h.sound idx b hget
  exact (entry_le ha).2

theorem slot_eq (hfree : table.get idx = none)
    (hlow : low < idx) (hle : idx ≤ history.length + 1) : idx = history.length + 1 := by
  by_contra hne
  obtain ⟨b, hb⟩ := h.kept idx hlow (by omega)
  rw [hfree] at hb
  cases hb

theorem append (a : α) :
    Stores enc (history ++ [a]) low (table.insert (history.length + 1) (enc a)) where
  low_le := by
    have := h.low_le
    simp only [length_append, length_singleton]
    omega
  sound := by
    intro idx b hget
    rw [get_insert] at hget
    split_ifs at hget with hidx
    · subst hidx
      exact ⟨a, entry_last history a, (Option.some.inj hget).symm⟩
    · obtain ⟨a', ha', hb⟩ := h.sound idx b hget
      exact ⟨a', entry_append ha' [a], hb⟩
  kept := by
    intro idx hlow hle
    simp only [length_append, length_singleton] at hle
    rw [get_insert]
    split_ifs with hidx
    · exact ⟨enc a, rfl⟩
    · exact h.kept idx hlow (by omega)

theorem truncate {upTo : ℕ} (hle : upTo ≤ low) :
    Stores enc history low (table.retain fun idx => decide (upTo < idx)) where
  low_le := h.low_le
  sound := by
    intro idx b hget
    rw [get_retain] at hget
    split_ifs at hget with hidx
    exact h.sound idx b hget
  kept := by
    intro idx hlow hidx
    rw [get_retain, if_pos (by simp; omega)]
    exact h.kept idx hlow hidx

theorem raise (hlow : low ≤ low')
    (hle : low' ≤ history.length) : Stores enc history low' table where
  low_le := hle
  sound := h.sound
  kept := fun idx hidx => h.kept idx (by omega)

theorem tail_of_all (hsorted : rows.Pairwise fun a b => a.1 < b.1)
    (hsound : ∀ e ∈ rows, applied < e.1 ∧ table.get e.1 = some e.2)
    (hall : ∀ idx b, applied < idx → table.get idx = some b → (idx, b) ∈ rows) :
    Tail enc history low applied rows := by
  induction rows generalizing applied with
  | nil => trivial
  | cons row rest ih =>
    obtain ⟨idx, b⟩ := row
    obtain ⟨hfirst, hrest⟩ := pairwise_cons.1 hsorted
    obtain ⟨hlt, hget⟩ := hsound (idx, b) mem_cons_self
    refine ⟨hlt, ?_, h.sound idx b hget, ?_⟩
    · -- above the mark the next index is stored, and `idx` is the least stored one
      by_cases hbelow : applied < low
      · exact .inr hbelow
      · have hidx := h.idx_le hget
        obtain ⟨b', hb'⟩ := h.kept (applied + 1) (by omega) (by simp only at hlt; omega)
        have hmem := hall (applied + 1) b' (by omega) hb'
        rcases mem_cons.1 hmem with heq | hmem
        · exact .inl (Prod.mk.inj heq).1.symm
        · have := hfirst _ hmem
          simp only at this hlt
          omega
    · refine ih hrest (fun e he => ⟨hfirst e he, (hsound e (.tail _ he)).2⟩) ?_
      intro idx' b' hlt' hget'
      have hmem := hall idx' b' (lt_trans hlt hlt') hget'
      rcases mem_cons.1 hmem with heq | hmem
      · have := (Prod.mk.inj heq).1
        omega
      · exact hmem

theorem tail_scan (applied limit : ℕ) :
    Tail enc history low applied ((table.scan fun idx => decide (applied < idx)).take limit) := by
  have hsorted : (table.scan fun idx => decide (applied < idx)).Pairwise fun a b => a.1 < b.1 :=
    table.sorted.sublist filter_sublist
  refine tail_take (h.tail_of_all hsorted ?_ ?_) limit
  · rintro ⟨idx, b⟩ he
    obtain ⟨hget, hidx⟩ := mem_scan.1 he
    exact ⟨by simpa using hidx, hget⟩
  · intro idx b hlt hget
    exact mem_scan.2 ⟨hget, by simpa using hlt⟩

theorem length_le_max : history.length ≤ max (table.keys.max?.getD 0) low := by
  by_cases hlow : low < history.length
  · obtain ⟨b, hb⟩ := h.kept history.length hlow le_rfl
    have hmem : history.length ∈ table.keys := mem_keys.2 ⟨b, hb⟩
    exact le_max_of_le_left (le_max?_getD_of_mem hmem)
  · exact le_max_of_le_right (by omega)

theorem max_le_length : max (table.keys.max?.getD 0) low ≤ history.length := by
  refine max_le ?_ h.low_le
  cases hmax : table.keys.max? with
  | none => simp
  | some m =>
    obtain ⟨b, hb⟩ := mem_keys.1 (max?_mem hmax)
    exact h.idx_le hb

end

end Stores

end SharedLog
