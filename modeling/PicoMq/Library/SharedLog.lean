import PicoMq.Library.OrdMap

/-!
# Truncated copies of an append-only log

A table that holds an encoded part of a history; entries up to a mark may be missing.
-/

namespace SharedLog

variable {α β : Type*}

/-- The entry with index `idx`; indexes count from 1. -/
def entry (history : List α) : ℕ → Option α
  | 0 => none
  | i + 1 => history[i]?

/-- The table holds encoded entries of the history, and all of them above the mark `low`. -/
structure Stores (enc : α → β) (history : List α) (low : ℕ) (table : OrdMap ℕ β) : Prop where
  low_le : low ≤ history.length
  sound : ∀ idx b, table.get idx = some b → ∃ a, entry history idx = some a ∧ b = enc a
  kept : ∀ idx, low < idx → idx ≤ history.length → ∃ b, table.get idx = some b

/-- Encoded entries in order from after `applied`, with gaps only where the last one taken is below
the mark. -/
def Tail (enc : α → β) (history : List α) (low : ℕ) : ℕ → List (ℕ × β) → Prop
  | _, [] => True
  | applied, (idx, b) :: rest =>
    applied < idx ∧ (idx = applied + 1 ∨ applied < low) ∧
      (∃ a, entry history idx = some a ∧ b = enc a) ∧ Tail enc history low idx rest

end SharedLog
