import PicoMq.Library.Proofs.FoldProofs
import PicoMq.Metadata.Derived
import PicoMq.Metadata.Proofs.StreamTablesProofs

/-!
# Proofs: what the state methods do

For each method of the state, the table groups it leaves alone and what it does to the others.
-/

namespace PicoMq.Metadata

open List StreamTables

namespace StreamTables

variable {t : StreamTables} {slices : List (StreamOffsetRange × ℕ)}

/-! ## Slices and stream rows -/

def remove_slices (t : StreamTables) (slices : List (StreamOffsetRange × ℕ)) : StreamTables :=
  slices.foldl (fun t slice => t.remove_stream_bytes slice.1.stream_id slice.2) t

def add_slices (t : StreamTables) (slices : List (StreamOffsetRange × ℕ)) : StreamTables :=
  slices.foldl (fun t slice => t.add_stream_bytes slice.1.stream_id slice.2) t

/-- Whether `remove_slices` meets a row that holds too few bytes. -/
def slices_underflow : StreamTables → List (StreamOffsetRange × ℕ) → Bool
  | _, [] => false
  | t, slice :: slices => t.bytes_underflow slice.1.stream_id slice.2 ||
      (t.remove_stream_bytes slice.1.stream_id slice.2).slices_underflow slices

theorem get_remove_slices (sid : ℕ) :
    (t.remove_slices slices).streams.get sid = (t.streams.get sid).map fun row =>
      { row with stored_bytes := row.stored_bytes - slice_bytes slices sid } := by
  induction slices generalizing t with
  | nil => simp [remove_slices, slice_bytes]
  | cons slice slices ih =>
    rw [remove_slices, foldl_cons, ← remove_slices, ih, get_remove_stream_bytes,
      Option.map_map]
    simp only [Function.comp_def, slice_bytes, map_cons, sum_cons, Nat.sub_sub,
      eq_comm (a := sid)]

theorem get_add_slices (sid : ℕ) :
    (t.add_slices slices).streams.get sid = (t.streams.get sid).map fun row =>
      { row with stored_bytes := row.stored_bytes + slice_bytes slices sid } := by
  induction slices generalizing t with
  | nil => simp [add_slices, slice_bytes]
  | cons slice slices ih =>
    rw [add_slices, foldl_cons, ← add_slices, ih, get_add_stream_bytes, Option.map_map]
    simp only [Function.comp_def, slice_bytes, map_cons, sum_cons, Nat.add_assoc,
      eq_comm (a := sid)]

@[simp] theorem control_remove_slices
    (sid : ℕ) : (t.remove_slices slices).control sid = t.control sid := by
  rw [control, get_remove_slices, Option.map_map]; rfl

@[simp] theorem control_add_slices
    (sid : ℕ) : (t.add_slices slices).control sid = t.control sid := by
  rw [control, get_add_slices, Option.map_map]; rfl

theorem Indexed.remove_slices (h : t.Indexed) (slices : List (StreamOffsetRange × ℕ)) :
    (t.remove_slices slices).Indexed :=
  foldl_invariant (fun _ slice _ h => h.remove_stream_bytes slice.1.stream_id slice.2) h

theorem Indexed.add_slices (h : t.Indexed) (slices : List (StreamOffsetRange × ℕ)) :
    (t.add_slices slices).Indexed :=
  foldl_invariant (fun _ slice _ h => h.add_stream_bytes slice.1.stream_id slice.2) h

theorem slices_underflow_eq_false
    (h : ∀ sid row, t.streams.get sid = some row → slice_bytes slices sid ≤ row.stored_bytes) :
    t.slices_underflow slices = false := by
  induction slices generalizing t with
  | nil => rfl
  | cons slice slices ih =>
    rw [slices_underflow, Bool.or_eq_false_iff]
    constructor
    · unfold bytes_underflow
      cases hrow : t.streams.get slice.1.stream_id with
      | none => rfl
      | some row =>
        have := h _ row hrow
        simp only [slice_bytes, map_cons, sum_cons, if_true] at this
        simp only [Option.any_some, decide_eq_false_iff_not]
        omega
    · refine ih fun sid row hrow => ?_
      rw [get_remove_stream_bytes] at hrow
      obtain ⟨row', hrow', rfl⟩ := Option.map_eq_some_iff.1 hrow
      have := h sid row' hrow'
      simp only [slice_bytes, map_cons, sum_cons] at this ⊢
      split_ifs at * <;> omega

end StreamTables

namespace MetadataState

variable {s : MetadataState} {id : ℕ}

/-! ## Methods on one table group -/

@[simp] theorem put_stream_frame (row : StreamRow) :
    (s.put_stream row).toClusterTables = s.toClusterTables ∧
    (s.put_stream row).toStreamTables = s.toStreamTables.put_stream row ∧
    (s.put_stream row).toLeaseTables = s.toLeaseTables ∧
    (s.put_stream row).toObjectTables = s.toObjectTables ∧
    (s.put_stream row).toDestroyTables = s.toDestroyTables ∧
    (s.put_stream row).toKvTables = s.toKvTables :=
  ⟨rfl, rfl, rfl, rfl, rfl, rfl⟩

/-! ## Stream-set objects -/

theorem remove_slices_eq (object_id : ℕ) (slices : List (StreamOffsetRange × ℕ))
    (s : MetadataState) :
    slices.foldl (remove_slice object_id) s = { s with
      toStreamTables := s.toStreamTables.remove_slices slices
      sso_ranges := slices.foldl (fun m slice => m.remove (slice_key object_id slice)) s.sso_ranges
      underflowed := s.underflowed || s.toStreamTables.slices_underflow slices } := by
  induction slices generalizing s with
  | nil => simp [remove_slices, slices_underflow]
  | cons slice slices ih =>
    rw [foldl_cons, ih]
    simp [remove_slice, remove_stream_bytes, remove_slices, slice_key,
      slices_underflow, Bool.or_assoc]

theorem put_slices_eq (object_id : ℕ) (slices : List (StreamOffsetRange × ℕ))
    (s : MetadataState) :
    slices.foldl (put_slice object_id) s = { s with
      toStreamTables := s.toStreamTables.add_slices slices
      sso_ranges := slices.foldl (fun m slice =>
        m.insert (slice_key object_id slice) (slice.1.end_offset, slice.2)) s.sso_ranges } := by
  induction slices generalizing s with
  | nil => simp [add_slices]
  | cons slice slices ih =>
    rw [foldl_cons, ih]
    simp [put_slice, add_stream_bytes, add_slices, slice_key]

theorem remove_stream_set_object_of_none (h : s.stream_set_objects.get id = none) :
    s.remove_stream_set_object id = s := by
  simp only [remove_stream_set_object, h]

theorem remove_stream_set_object_of_some {row : StreamSetObjectRow}
    (h : s.stream_set_objects.get id = some row) :
    s.remove_stream_set_object id = { s with
      toStreamTables := s.toStreamTables.remove_slices row.slices
      stream_set_objects := s.stream_set_objects.remove id
      sso_ranges := row.slices.foldl (fun m slice => m.remove (slice_key id slice)) s.sso_ranges
      sso_by_node := s.sso_by_node.remove (toLex (row.node_id, id))
      stored_bytes := s.stored_bytes - row.object.object_size
      underflowed := (s.underflowed || s.toStreamTables.slices_underflow row.slices) ||
        decide (s.stored_bytes < row.object.object_size) } := by
  simp only [remove_stream_set_object, h, remove_slices_eq, sub_stored_bytes]

theorem put_stream_set_object_eq (row : StreamSetObjectRow) :
    s.put_stream_set_object row =
      { s.remove_stream_set_object row.object.object_id with
        toStreamTables := (s.remove_stream_set_object
          row.object.object_id).toStreamTables.add_slices row.slices
        stream_set_objects := (s.remove_stream_set_object
          row.object.object_id).stream_set_objects.insert row.object.object_id row
        sso_ranges := row.slices.foldl (fun m slice =>
          m.insert (slice_key row.object.object_id slice) (slice.1.end_offset, slice.2))
          (s.remove_stream_set_object row.object.object_id).sso_ranges
        sso_by_node := (s.remove_stream_set_object row.object.object_id).sso_by_node.insert
          (toLex (row.node_id, row.object.object_id)) ()
        stored_bytes := (s.remove_stream_set_object row.object.object_id).stored_bytes +
          row.object.object_size } := by
  simp only [put_stream_set_object, put_slices_eq]

@[simp] theorem remove_stream_set_object_frame (id : ℕ) :
    (s.remove_stream_set_object id).toClusterTables = s.toClusterTables ∧
    (s.remove_stream_set_object id).toLeaseTables = s.toLeaseTables ∧
    (s.remove_stream_set_object id).toDestroyTables = s.toDestroyTables ∧
    (s.remove_stream_set_object id).toKvTables = s.toKvTables ∧
    (s.remove_stream_set_object id).stream_objects = s.stream_objects ∧
    (s.remove_stream_set_object id).stream_object_ids = s.stream_object_ids := by
  cases h : s.stream_set_objects.get id with
  | none => simp [remove_stream_set_object_of_none h]
  | some row => simp [remove_stream_set_object_of_some h]

@[simp] theorem put_stream_set_object_frame (row : StreamSetObjectRow) :
    (s.put_stream_set_object row).toClusterTables = s.toClusterTables ∧
    (s.put_stream_set_object row).toLeaseTables = s.toLeaseTables ∧
    (s.put_stream_set_object row).toDestroyTables = s.toDestroyTables ∧
    (s.put_stream_set_object row).toKvTables = s.toKvTables ∧
    (s.put_stream_set_object row).stream_objects = s.stream_objects ∧
    (s.put_stream_set_object row).stream_object_ids = s.stream_object_ids := by
  simp [put_stream_set_object_eq]

@[simp] theorem remove_stream_set_object_objects (id : ℕ) :
    (s.remove_stream_set_object id).stream_set_objects = s.stream_set_objects.remove id := by
  cases h : s.stream_set_objects.get id with
  | none => rw [remove_stream_set_object_of_none h, OrdMap.remove_of_get_eq_none h]
  | some row => rw [remove_stream_set_object_of_some h]

@[simp] theorem put_stream_set_object_objects (row : StreamSetObjectRow) :
    (s.put_stream_set_object row).stream_set_objects =
      s.stream_set_objects.insert row.object.object_id row := by
  simp [put_stream_set_object_eq]

@[simp] theorem control_remove_stream_set_object (id sid : ℕ) :
    (s.remove_stream_set_object id).toStreamTables.control sid = s.toStreamTables.control sid := by
  cases h : s.stream_set_objects.get id with
  | none => rw [remove_stream_set_object_of_none h]
  | some row => simp [remove_stream_set_object_of_some h]

@[simp] theorem control_put_stream_set_object (row : StreamSetObjectRow)
    (sid : ℕ) :
    (s.put_stream_set_object row).toStreamTables.control sid = s.toStreamTables.control sid := by
  simp [put_stream_set_object_eq]

/-! ## Stream objects -/

theorem remove_stream_object_of_none (h : s.stream_object_ids.get id = none) :
    s.remove_stream_object id = s := by
  simp only [remove_stream_object, h]

theorem remove_stream_object_of_dangling {key : StreamOffsetKey}
    (h : s.stream_object_ids.get id = some key) (hrow : s.stream_objects.get key = none) :
    s.remove_stream_object id = { s with stream_object_ids := s.stream_object_ids.remove id } := by
  simp only [remove_stream_object, h, hrow]

theorem remove_stream_object_of_some {key : StreamOffsetKey} {row : StreamObjectRow}
    (h : s.stream_object_ids.get id = some key) (hrow : s.stream_objects.get key = some row) :
    s.remove_stream_object id = { s with
      toStreamTables := s.toStreamTables.remove_stream_bytes key.stream_id row.object.object_size
      stream_objects := s.stream_objects.remove key
      stream_object_ids := s.stream_object_ids.remove id
      stored_bytes := s.stored_bytes - row.object.object_size
      underflowed := (s.underflowed ||
          s.toStreamTables.bytes_underflow key.stream_id row.object.object_size) ||
        decide (s.stored_bytes < row.object.object_size) } := by
  simp only [remove_stream_object, h, hrow, remove_stream_bytes, sub_stored_bytes]
  rfl

theorem put_stream_object_eq (row : StreamObjectRow) :
    s.put_stream_object row =
      { s.remove_stream_object row.object.object_id with
        toStreamTables := (s.remove_stream_object
          row.object.object_id).toStreamTables.add_stream_bytes row.range.stream_id
          row.object.object_size
        stream_objects := (s.remove_stream_object row.object.object_id).stream_objects.insert
          row.key row
        stream_object_ids := (s.remove_stream_object row.object.object_id).stream_object_ids.insert
          row.object.object_id row.key
        stored_bytes := (s.remove_stream_object row.object.object_id).stored_bytes +
          row.object.object_size } :=
  rfl

@[simp] theorem remove_stream_object_frame (id : ℕ) :
    (s.remove_stream_object id).toClusterTables = s.toClusterTables ∧
    (s.remove_stream_object id).toLeaseTables = s.toLeaseTables ∧
    (s.remove_stream_object id).toDestroyTables = s.toDestroyTables ∧
    (s.remove_stream_object id).toKvTables = s.toKvTables ∧
    (s.remove_stream_object id).stream_set_objects = s.stream_set_objects ∧
    (s.remove_stream_object id).sso_ranges = s.sso_ranges ∧
    (s.remove_stream_object id).sso_by_node = s.sso_by_node := by
  cases h : s.stream_object_ids.get id with
  | none => simp [remove_stream_object_of_none h]
  | some key =>
    cases hrow : s.stream_objects.get key with
    | none => simp [remove_stream_object_of_dangling h hrow]
    | some row => simp [remove_stream_object_of_some h hrow]

@[simp] theorem put_stream_object_frame (row : StreamObjectRow) :
    (s.put_stream_object row).toClusterTables = s.toClusterTables ∧
    (s.put_stream_object row).toLeaseTables = s.toLeaseTables ∧
    (s.put_stream_object row).toDestroyTables = s.toDestroyTables ∧
    (s.put_stream_object row).toKvTables = s.toKvTables ∧
    (s.put_stream_object row).stream_set_objects = s.stream_set_objects ∧
    (s.put_stream_object row).sso_ranges = s.sso_ranges ∧
    (s.put_stream_object row).sso_by_node = s.sso_by_node := by
  simp [put_stream_object_eq]

@[simp] theorem remove_stream_object_ids (id : ℕ) :
    (s.remove_stream_object id).stream_object_ids = s.stream_object_ids.remove id := by
  cases h : s.stream_object_ids.get id with
  | none => rw [remove_stream_object_of_none h, OrdMap.remove_of_get_eq_none h]
  | some key =>
    cases hrow : s.stream_objects.get key with
    | none => rw [remove_stream_object_of_dangling h hrow]
    | some row => rw [remove_stream_object_of_some h hrow]

@[simp] theorem put_stream_object_ids (row : StreamObjectRow) :
    (s.put_stream_object row).stream_object_ids =
      s.stream_object_ids.insert row.object.object_id row.key := by
  simp [put_stream_object_eq]

@[simp] theorem get_remove_stream_object (id : ℕ) (key : StreamOffsetKey) :
    (s.remove_stream_object id).stream_objects.get key =
      if s.stream_object_ids.get id = some key then none else s.stream_objects.get key := by
  cases h : s.stream_object_ids.get id with
  | none => simp [remove_stream_object_of_none h]
  | some key' =>
    cases hrow : s.stream_objects.get key' with
    | none =>
      rw [remove_stream_object_of_dangling h hrow]
      grind
    | some row =>
      rw [remove_stream_object_of_some h hrow]
      grind

@[simp] theorem get_put_stream_object (row : StreamObjectRow)
    (key : StreamOffsetKey) :
    (s.put_stream_object row).stream_objects.get key =
      if key = row.key then some row
      else if s.stream_object_ids.get row.object.object_id = some key then none
      else s.stream_objects.get key := by
  simp [put_stream_object_eq]

@[simp] theorem control_remove_stream_object (id sid : ℕ) :
    (s.remove_stream_object id).toStreamTables.control sid = s.toStreamTables.control sid := by
  cases h : s.stream_object_ids.get id with
  | none => rw [remove_stream_object_of_none h]
  | some key =>
    cases hrow : s.stream_objects.get key with
    | none => rw [remove_stream_object_of_dangling h hrow]
    | some row => simp [remove_stream_object_of_some h hrow]

@[simp] theorem control_put_stream_object (row : StreamObjectRow) (sid : ℕ) :
    (s.put_stream_object row).toStreamTables.control sid = s.toStreamTables.control sid := by
  simp [put_stream_object_eq]

end MetadataState

end PicoMq.Metadata
