import PicoMq.Library.Proofs.OrdMapProofs
import PicoMq.Metadata.State

/-!
# Proofs: the stream rows and their node indexes

What each method does to the rows, and that the three node indexes stay derived from them.
-/

namespace PicoMq.Metadata

open Option OrdMap StreamTables

/-- The row without its byte count: what the stream commands read and write. -/
def StreamRow.control (row : StreamRow) : StreamRow := { row with stored_bytes := 0 }

/-- A row counts towards the load of node `n` when the stream is opened or placed there. -/
def StreamRow.On (row : StreamRow) (n : ℤ) : Prop :=
  row.node_id = n ∧ (row.state = .opened ∨ row.node_id ≠ -1)

instance (row : StreamRow) (n : ℤ) : Decidable (row.On n) :=
  inferInstanceAs (Decidable (_ ∧ _))

namespace StreamTables

variable {t : StreamTables} {row row' : StreamRow} {sid : ℕ}

/-- The row of a stream without its byte count. -/
def control (t : StreamTables) (sid : ℕ) : Option StreamRow :=
  (t.streams.get sid).map StreamRow.control

/-! ## Rows -/

@[simp] theorem index_streams (row : StreamRow) :
    (t.index row).streams = t.streams := by
  unfold index count_stream
  split
  · rfl
  · split_ifs <;> rfl

@[simp] theorem unindex_streams (row : StreamRow) :
    (t.unindex row).streams = t.streams := by
  unfold unindex uncount_stream
  dsimp only
  split_ifs
  · rfl
  · split
    · split_ifs <;> rfl
    · rfl

theorem put_stream_streams (row : StreamRow) :
    (t.put_stream row).streams = t.streams.insert row.stream_id
      { row with stored_bytes := (t.streams.get row.stream_id).elim 0 StreamRow.stored_bytes } := by
  unfold put_stream
  dsimp only
  split
  · split_ifs <;> simp
  · simp

theorem remove_stream_streams (sid : ℕ) :
    (t.remove_stream sid).streams = t.streams.remove sid := by
  unfold remove_stream
  cases h : t.streams.get sid with
  | some previous => simp
  | none => simp [remove_of_get_eq_none h]

@[simp] theorem control_put_stream (row : StreamRow) (sid : ℕ) :
    (t.put_stream row).control sid =
      if sid = row.stream_id then some row.control else t.control sid := by
  simp only [control, put_stream_streams, get_insert]
  split_ifs <;> rfl

@[simp] theorem control_remove_stream (sid' sid : ℕ) :
    (t.remove_stream sid').control sid = if sid = sid' then none else t.control sid := by
  simp only [control, remove_stream_streams, get_remove]
  split_ifs <;> rfl

theorem get_add_stream_bytes (sid' bytes sid : ℕ) :
    (t.add_stream_bytes sid' bytes).streams.get sid = (t.streams.get sid).map fun row =>
      { row with stored_bytes := row.stored_bytes + if sid = sid' then bytes else 0 } := by
  unfold add_stream_bytes
  cases h : t.streams.get sid' with
  | none =>
    dsimp only
    by_cases hs : sid = sid'
    · simp [hs, h]
    · simp [hs]
  | some row =>
    dsimp only
    rw [get_insert]
    by_cases hs : sid = sid'
    · simp [hs, h]
    · simp [hs]

theorem get_remove_stream_bytes (sid' bytes sid : ℕ) :
    (t.remove_stream_bytes sid' bytes).streams.get sid = (t.streams.get sid).map fun row =>
      { row with stored_bytes := row.stored_bytes - if sid = sid' then bytes else 0 } := by
  unfold remove_stream_bytes
  cases h : t.streams.get sid' with
  | none =>
    dsimp only
    by_cases hs : sid = sid'
    · simp [hs, h]
    · simp [hs]
  | some row =>
    dsimp only
    rw [get_insert]
    by_cases hs : sid = sid'
    · simp [hs, h]
    · simp [hs]

@[simp] theorem control_add_stream_bytes (sid' bytes sid : ℕ) :
    (t.add_stream_bytes sid' bytes).control sid = t.control sid := by
  rw [control, get_add_stream_bytes, map_map]; rfl

@[simp] theorem control_remove_stream_bytes (sid' bytes sid : ℕ) :
    (t.remove_stream_bytes sid' bytes).control sid = t.control sid := by
  rw [control, get_remove_stream_bytes, map_map]; rfl

theorem control_eq_some {row : StreamRow}
    (h : t.streams.get sid = some row) : t.control sid = some row.control := by
  rw [control, h]; rfl

theorem control_eq_none_iff : t.control sid = none ↔ t.streams.get sid = none :=
  map_eq_none_iff

theorem exists_of_control {row : StreamRow}
    (h : t.control sid = some row) : ∃ r, t.streams.get sid = some r ∧ r.control = row :=
  map_eq_some_iff.1 h

/-! ## The node indexes -/

/-- The number of streams opened or placed on a node. -/
def streams_on (streams : OrdMap ℕ StreamRow) (n : ℤ) : ℕ :=
  streams.sumBy fun _ row => if row.On n then 1 else 0

/-- Rows are stored under their own id, and the three node indexes are those of the rows. -/
structure Indexed (t : StreamTables) : Prop where
  keyed : ∀ sid row, t.streams.get sid = some row → row.stream_id = sid
  opening : ∀ n sid, t.opening_by_node.get (toLex (n, sid)) = some () ↔
    ∃ row, t.streams.get sid = some row ∧ row.state = .opened ∧ row.node_id = n
  placed : ∀ n sid, t.placed_by_node.get (toLex (n, sid)) = some () ↔
    ∃ row, t.streams.get sid = some row ∧ row.state = .closed ∧ row.node_id = n ∧ n ≠ -1
  loads : ∀ n, t.streams_by_node.get n =
    if streams_on t.streams n = 0 then none else some (streams_on t.streams n)

theorem streams_on_insert (m : OrdMap ℕ StreamRow) (sid : ℕ) (row : StreamRow) (n : ℤ) :
    streams_on (m.insert sid row) n + (m.get sid).elim 0 (fun r => if r.On n then 1 else 0) =
      streams_on m n + if row.On n then 1 else 0 :=
  sumBy_insert m _ sid row

theorem streams_on_remove (m : OrdMap ℕ StreamRow) (sid : ℕ) (n : ℤ) :
    streams_on (m.remove sid) n + (m.get sid).elim 0 (fun r => if r.On n then 1 else 0) =
      streams_on m n :=
  sumBy_remove m _ sid

theorem Indexed.insert_same (h : t.Indexed) (hrow : t.streams.get sid = some row)
    (hid : row'.stream_id = sid) (hstate : row'.state = row.state)
    (hnode : row'.node_id = row.node_id) :
    Indexed { t with streams := t.streams.insert sid row' } := by
  have hon : ∀ n, row'.On n ↔ row.On n := fun n => by simp only [StreamRow.On, hstate, hnode]
  constructor
  · intro sid' r hr
    rw [get_insert] at hr
    split_ifs at hr with hs
    · cases hr; rw [hid, hs]
    · exact h.keyed sid' r hr
  · intro n sid'
    rw [h.opening]
    simp only [get_insert]
    by_cases hs : sid' = sid
    · subst hs; simp [hrow, hstate, hnode]
    · simp [hs]
  · intro n sid'
    rw [h.placed]
    simp only [get_insert]
    by_cases hs : sid' = sid
    · subst hs; simp [hrow, hstate, hnode]
    · simp [hs]
  · intro n
    have hl := streams_on_insert t.streams sid row' n
    rw [hrow, elim_some] at hl
    simp only [hon] at hl
    have heq : streams_on (t.streams.insert sid row') n = streams_on t.streams n := by omega
    simp only [heq]
    exact h.loads n

theorem unindex_set_streams (m : OrdMap ℕ StreamRow) (row : StreamRow) :
    unindex { t with streams := m } row = { t.unindex row with streams := m } := by
  unfold unindex uncount_stream
  dsimp only
  split_ifs
  · rfl
  · split
    · split_ifs <;> rfl
    · rfl

theorem get_uncount_stream (n n' : ℤ) :
    (t.uncount_stream n).streams_by_node.get n' =
      if n' = n then
        (t.streams_by_node.get n).bind fun count => if count > 1 then some (count - 1) else none
      else t.streams_by_node.get n' := by
  unfold uncount_stream
  cases h : t.streams_by_node.get n with
  | none =>
    simp only [get_remove]
    split_ifs <;> rfl
  | some count =>
    dsimp only
    split_ifs with h1 h2 h2 <;> simp [h1, h2]

theorem unindex_by_node (row : StreamRow) :
    (t.unindex row).opening_by_node =
      t.opening_by_node.remove (toLex (row.node_id, row.stream_id)) ∧
    (t.unindex row).placed_by_node =
      t.placed_by_node.remove (toLex (row.node_id, row.stream_id)) := by
  unfold unindex uncount_stream
  dsimp only
  split_ifs
  · exact ⟨rfl, rfl⟩
  · split
    · split_ifs <;> exact ⟨rfl, rfl⟩
    · exact ⟨rfl, rfl⟩

theorem Indexed.counted_iff (h : t.Indexed) (hrow : t.streams.get row.stream_id = some row) :
    (t.opening_by_node.contains_key (toLex (row.node_id, row.stream_id)) = true ∨
        t.placed_by_node.contains_key (toLex (row.node_id, row.stream_id)) = true) ↔
      row.On row.node_id := by
  simp only [contains_key_iff, Unique.exists_iff, h.opening, h.placed,
    hrow, some.injEq, exists_eq_left', StreamRow.On]
  cases row.state <;> simp

theorem Indexed.unindex (h : t.Indexed) (hrow : t.streams.get sid = some row) :
    Indexed (unindex { t with streams := t.streams.remove sid } row) := by
  have hid : row.stream_id = sid := h.keyed sid row hrow
  subst hid
  constructor
  · intro sid' r hr
    rw [unindex_streams] at hr
    exact h.keyed sid' r (of_get_remove hr).2
  · intro n sid'
    rw [unindex_streams, (unindex_by_node _).1]
    simp only [get_remove]
    by_cases hs : sid' = row.stream_id
    · subst hs
      have := h.opening n row.stream_id
      simp [hrow] at this ⊢
      grind
    · simp [hs, h.opening]
  · intro n sid'
    rw [unindex_streams, (unindex_by_node _).2]
    simp only [get_remove]
    by_cases hs : sid' = row.stream_id
    · subst hs
      have := h.placed n row.stream_id
      simp [hrow] at this ⊢
      grind
    · simp [hs, h.placed]
  · intro n
    have hl := streams_on_remove t.streams row.stream_id n
    rw [hrow, elim_some] at hl
    have hcount := h.counted_iff hrow
    have hloads := h.loads n
    have hon : row.On n ↔ row.On row.node_id ∧ n = row.node_id := by
      unfold StreamRow.On
      grind
    rw [unindex_streams]
    unfold unindex
    dsimp only
    by_cases hc : row.On row.node_id
    · rw [if_neg (by have := hcount.2 hc; grind)]
      rw [get_uncount_stream]
      by_cases hn : n = row.node_id
      · subst hn
        simp only [hc, if_true] at hl ⊢
        simp only [hloads]
        grind
      · have hno : ¬row.On n := fun h' => hn (hon.1 h').2
        simp only [hno, if_false, Nat.add_zero] at hl
        simp [hn, hl, hloads]
    · have hno : ¬row.On n := fun h' => hc (hon.1 h').1
      simp only [hno, if_false, Nat.add_zero] at hl
      rw [if_pos (by have := mt hcount.1 hc; grind)]
      simp [hl, hloads]

theorem get_index_opening (row : StreamRow) (key : ℤ ×ₗ ℕ) :
    (t.index row).opening_by_node.get key =
      if row.state = .opened ∧ key = toLex (row.node_id, row.stream_id) then some ()
      else t.opening_by_node.get key := by
  unfold index count_stream
  cases row.state with
  | opened => simp
  | closed => dsimp only; split_ifs <;> simp_all

theorem get_index_placed (row : StreamRow) (key : ℤ ×ₗ ℕ) :
    (t.index row).placed_by_node.get key =
      if row.state = .closed ∧ row.node_id ≠ -1 ∧ key = toLex (row.node_id, row.stream_id) then
        some ()
      else t.placed_by_node.get key := by
  unfold index count_stream
  cases row.state with
  | opened => simp
  | closed => dsimp only; split_ifs <;> simp_all

theorem get_index_loads (row : StreamRow) (n : ℤ) :
    (t.index row).streams_by_node.get n =
      if row.On n then some ((t.streams_by_node.get n).getD 0 + 1)
      else t.streams_by_node.get n := by
  unfold index count_stream
  cases hstate : row.state with
  | opened =>
    by_cases hn : n = row.node_id
    · simp [hn, hstate, StreamRow.On]
    · simp [hn, Ne.symm hn, StreamRow.On]
  | closed =>
    dsimp only
    by_cases hn : n = row.node_id
    · split_ifs <;> simp_all [StreamRow.On]
    · split_ifs <;> simp_all [StreamRow.On]

section

variable (h : t.Indexed)
include h

theorem Indexed.index (row : StreamRow)
    (hrow : t.streams.get row.stream_id = none) :
    Indexed (index { t with streams := t.streams.insert row.stream_id row } row) := by
  constructor
  · intro sid' r hr
    rw [index_streams, get_insert] at hr
    split_ifs at hr with hs
    · cases hr; exact hs.symm
    · exact h.keyed sid' r hr
  · intro n sid'
    have := h.opening n sid'
    rw [index_streams, get_index_opening]
    simp only [get_insert, toLex_inj, Prod.mk.injEq]
    by_cases hs : sid' = row.stream_id
    · subst hs
      simp [hrow] at this
      simp [this]
      grind
    · simp [hs, this]
  · intro n sid'
    have := h.placed n sid'
    rw [index_streams, get_index_placed]
    simp only [get_insert, toLex_inj, Prod.mk.injEq]
    by_cases hs : sid' = row.stream_id
    · subst hs
      simp [hrow] at this
      simp [this]
      grind
    · simp [hs, this]
  · intro n
    have hl := streams_on_insert t.streams row.stream_id row n
    rw [hrow, elim_none, Nat.add_zero] at hl
    rw [index_streams, get_index_loads]
    simp only [hl, h.loads n]
    by_cases hon : row.On n
    · simp only [hon, if_true]
      split_ifs <;> simp_all
    · simp [hon]

/-- An index entry moves exactly when the state or the node of the row changes. -/
theorem Indexed.put_stream (row : StreamRow) : (t.put_stream row).Indexed := by
  unfold StreamTables.put_stream
  dsimp only
  cases hrow : t.streams.get row.stream_id with
  | none => exact h.index { row with stored_bytes := 0 } hrow
  | some previous =>
    dsimp only
    split_ifs with hsame
    · obtain ⟨hstate, hnode⟩ := Prod.mk.inj hsame
      exact h.insert_same hrow rfl hstate.symm hnode.symm
    · -- the index entries of the old row go and those of the new one come
      have hput := (h.unindex hrow).index { row with stored_bytes := previous.stored_bytes }
        (by simp)
      simp only [unindex_set_streams, insert_remove] at hput ⊢
      exact hput

theorem Indexed.remove_stream (sid : ℕ) : (t.remove_stream sid).Indexed := by
  unfold StreamTables.remove_stream
  cases hrow : t.streams.get sid with
  | none => exact h
  | some previous => exact h.unindex hrow

theorem Indexed.add_stream_bytes (sid bytes : ℕ) :
    (t.add_stream_bytes sid bytes).Indexed := by
  unfold StreamTables.add_stream_bytes
  cases hrow : t.streams.get sid with
  | none => exact h
  | some row => exact h.insert_same hrow (h.keyed sid row hrow) rfl rfl

theorem Indexed.remove_stream_bytes (sid bytes : ℕ) :
    (t.remove_stream_bytes sid bytes).Indexed := by
  unfold StreamTables.remove_stream_bytes
  cases hrow : t.streams.get sid with
  | none => exact h
  | some row => exact h.insert_same hrow (h.keyed sid row hrow) rfl rfl

end

end StreamTables

end PicoMq.Metadata
