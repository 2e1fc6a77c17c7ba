import PicoMq.Metadata.Proofs.StateProofs

/-!
# Proofs: well-formed states

A stream id is handed out once, so a new stream starts with no bytes even though slices of deleted
streams live on in stream-set objects.
-/

namespace PicoMq.Metadata

open ObjectTables Option OrdMap StreamTables

/-! ## Leases -/

namespace LeaseTables

variable {t : LeaseTables} {id : ℕ}

/-- The deadline queue holds the leases and nothing else. -/
def Indexed (t : LeaseTables) : Prop :=
  ∀ deadline id, t.prepared_by_deadline.get (toLex (deadline, id)) = some () ↔
    t.prepared.get id = some deadline

theorem Indexed.put_prepared (h : t.Indexed) (hid : t.prepared.get id = none) (deadline : ℤ) :
    (t.put_prepared id deadline).Indexed := by
  intro deadline' id'
  have := h deadline' id'
  simp only [LeaseTables.put_prepared, get_insert, toLex_inj, Prod.mk.injEq]
  by_cases hi : id' = id
  · subst hi
    simp only [hid] at this
    grind
  · simp [hi, this]

theorem Indexed.remove_prepared (h : t.Indexed) (id : ℕ) : (t.remove_prepared id).Indexed := by
  unfold LeaseTables.remove_prepared
  cases hid : t.prepared.get id with
  | none => exact h
  | some deadline =>
    intro deadline' id'
    have := h deadline' id'
    simp only [get_remove, toLex_inj, Prod.mk.injEq]
    by_cases hi : id' = id
    · subst hi
      simp only [hid] at this
      grind
    · simp [hi, this]

theorem get_remove_prepared (t : LeaseTables) (id id' : ℕ) :
    (t.remove_prepared id).prepared.get id' = if id' = id then none else t.prepared.get id' := by
  unfold LeaseTables.remove_prepared
  cases hid : t.prepared.get id with
  | none =>
    dsimp only
    split_ifs with hi
    · rw [hi, hid]
    · rfl
  | some deadline => simp

theorem Indexed.prepare (h : t.Indexed) {first : ℕ} (deadline : ℤ)
    (hfresh : ∀ id d, t.prepared.get id = some d → id < first) (count : ℕ) :
    ((List.range' first count).foldl (fun t id => t.put_prepared id deadline) t).Indexed ∧
    ∀ id d, ((List.range' first count).foldl (fun t id => t.put_prepared id deadline)
      t).prepared.get id = some d → id < first + count := by
  induction count with
  | zero => exact ⟨h, hfresh⟩
  | succ count ih =>
    obtain ⟨hind, hids⟩ := ih
    simp only [List.range'_1_concat, List.foldl_append, List.foldl_cons, List.foldl_nil]
    refine ⟨hind.put_prepared ?_ deadline, fun id d hd => ?_⟩
    · by_contra hne
      obtain ⟨d, hd⟩ := ne_none_iff_exists'.1 hne
      exact absurd (hids _ d hd) (lt_irrefl _)
    · simp only [LeaseTables.put_prepared, get_insert] at hd
      split_ifs at hd with hi
      · omega
      · have := hids id d hd
        omega

end LeaseTables

/-! ## The destruction queue -/

namespace DestroyTables

variable {t : DestroyTables} {id seq : ℕ}

/-- The id index is the inverse of the queue, and the next sequence number is unused. -/
structure Indexed (t : DestroyTables) : Prop where
  inverse : ∀ id seq, t.destroyed_by_id.get id = some seq ↔
    ∃ op, t.mark_destroyed.get seq = some (id, op)
  seqs : ∀ seq e, t.mark_destroyed.get seq = some e → seq < t.next_destroyed_seq

/-- A mark is renewed in its place, or a new one is put in an unused place. -/
theorem Indexed.put_destroyed (h : t.Indexed)
    (hplace : t.destroyed_by_id.get id = some seq ∨
      t.destroyed_by_id.get id = none ∧ t.mark_destroyed.get seq = none)
    (hlt : seq < t.next_destroyed_seq) (op : CompactOperations) :
    (t.put_destroyed seq id op).Indexed := by
  constructor
  · intro id' seq'
    have h1 := h.inverse id' seq'
    have h2 := h.inverse id seq
    simp only [DestroyTables.put_destroyed, get_insert]
    by_cases hi : id' = id
    · subst hi
      by_cases hs : seq' = seq
      · simp [hs]
      · simp only [if_true, hs, if_false, ← h1]
        grind
    · by_cases hs : seq' = seq
      · subst hs
        grind
      · simp [hi, hs, h1]
  · intro seq' e he
    rcases get_insert_cases he with ⟨rfl, -⟩ | ⟨-, he⟩
    · exact hlt
    · exact h.seqs seq' e he

theorem Indexed.put_again (h : t.Indexed) (hid : t.destroyed_by_id.get id = some seq)
    (op : CompactOperations) : (t.put_destroyed seq id op).Indexed := by
  obtain ⟨op', hop⟩ := (h.inverse id seq).1 hid
  exact h.put_destroyed (.inl hid) (h.seqs seq _ hop) op

theorem Indexed.put_new (h : t.Indexed) (hid : t.destroyed_by_id.get id = none)
    (op : CompactOperations) :
    (DestroyTables.put_destroyed { t with next_destroyed_seq := t.next_destroyed_seq + 1 }
      t.next_destroyed_seq id op).Indexed := by
  have hunused : t.mark_destroyed.get t.next_destroyed_seq = none := by
    by_contra hne
    obtain ⟨e, he⟩ := ne_none_iff_exists'.1 hne
    exact absurd (h.seqs _ e he) (lt_irrefl _)
  have hraised : Indexed { t with next_destroyed_seq := t.next_destroyed_seq + 1 } :=
    ⟨h.inverse, fun seq e he => Nat.lt_succ_of_lt (h.seqs seq e he)⟩
  exact hraised.put_destroyed (.inr ⟨hid, hunused⟩) (Nat.lt_succ_self _) op

theorem Indexed.remove_destroyed (h : t.Indexed) (id : ℕ) : (t.remove_destroyed id).Indexed := by
  unfold DestroyTables.remove_destroyed
  cases hid : t.destroyed_by_id.get id with
  | none => exact h
  | some seq =>
    obtain ⟨op, hop⟩ := (h.inverse id seq).1 hid
    constructor
    · intro id' seq'
      have h1 := h.inverse id' seq'
      simp only [get_remove]
      by_cases hi : id' = id
      · subst hi
        rw [hid] at h1
        by_cases hs : seq' = seq
        · simp [hs]
        · simp only [if_true, hs, if_false, ← h1]
          simp [Ne.symm hs]
      · by_cases hs : seq' = seq
        · subst hs
          simp only [hop] at h1
          simp_all [eq_comm]
        · simp [hi, hs, h1]
    · intro seq' e he
      exact h.seqs seq' e (of_get_remove he).2

end DestroyTables

/-! ## Objects -/

/-- What `sso_ranges` lists under a key of the object: its last range with that start. -/
def StreamSetObjectRow.slice_at (row : StreamSetObjectRow) (key : StreamOffsetKey) :
    Option (ℕ × ℕ) :=
  (row.slices.reverse.find? fun slice => slice_key key.object_id slice = key).map fun slice =>
    (slice.1.end_offset, slice.2)

theorem StreamSetObjectRow.slice_at_eq_none {row : StreamSetObjectRow} {key : StreamOffsetKey} :
    row.slice_at key = none ↔ ¬∃ slice ∈ row.slices, slice_key key.object_id slice = key := by
  simp [slice_at]

theorem get_insert_slices (id : ℕ) (row : StreamSetObjectRow)
    (m : OrdMap StreamOffsetKey (ℕ × ℕ)) (key : StreamOffsetKey) :
    (row.slices.foldl (fun m slice =>
      m.insert (slice_key id slice) (slice.1.end_offset, slice.2)) m).get key =
      if key.object_id = id then (row.slice_at key).or (m.get key) else m.get key := by
  rw [get_foldl_insert]
  split_ifs with hk
  · rw [StreamSetObjectRow.slice_at, hk]
  · have hnone : (row.slices.reverse.find? fun slice => slice_key id slice = key) = none := by
      simp only [List.find?_eq_none, decide_eq_true_eq]
      rintro slice - rfl
      exact hk rfl
    rw [hnone]; rfl

namespace ObjectTables

variable {t : ObjectTables} {id : ℕ} {row : StreamObjectRow}

/-- Rows are stored under their own ids, and the three object indexes are those of the rows. -/
structure Indexed (t : ObjectTables) : Prop where
  set_keyed : ∀ id row, t.stream_set_objects.get id = some row → row.object.object_id = id
  ranges : ∀ key, t.sso_ranges.get key =
    (t.stream_set_objects.get key.object_id).bind fun row => row.slice_at key
  by_node : ∀ n id, t.sso_by_node.get (toLex (n, id)) = some () ↔
    ∃ row, t.stream_set_objects.get id = some row ∧ row.node_id = n
  keyed : ∀ key row, t.stream_objects.get key = some row → row.key = key
  ids : ∀ id key, t.stream_object_ids.get id = some key ↔
    key.object_id = id ∧ ∃ row, t.stream_objects.get key = some row

theorem Indexed.remove_set (h : t.Indexed) {row : StreamSetObjectRow}
    (hrow : t.stream_set_objects.get id = some row) :
    Indexed { t with
      stream_set_objects := t.stream_set_objects.remove id
      sso_ranges := row.slices.foldl (fun m slice => m.remove (slice_key id slice)) t.sso_ranges
      sso_by_node := t.sso_by_node.remove (toLex (row.node_id, id)) } where
  set_keyed id' row' hrow' := by
    exact h.set_keyed id' row' (of_get_remove hrow').2
  ranges key := by
    simp only [get_foldl_remove, get_remove, h.ranges key]
    by_cases hk : key.object_id = id
    · subst hk
      have hnone : row.slice_at key = none ↔ _ := row.slice_at_eq_none
      simp only [hrow, bind_some, if_true, bind_none]
      split_ifs with hex
      · rfl
      · exact hnone.2 hex
    · have hex : ¬∃ slice ∈ row.slices, slice_key id slice = key := by
        rintro ⟨slice, -, rfl⟩
        exact hk rfl
      simp [hex, hk]
  by_node n id' := by
    have := h.by_node n id'
    simp only [get_remove, toLex_inj, Prod.mk.injEq]
    by_cases hi : id' = id
    · subst hi
      simp only [hrow] at this
      grind
    · simp [hi, this]
  keyed := h.keyed
  ids := h.ids

theorem Indexed.add_set (h : t.Indexed) {row : StreamSetObjectRow}
    (hid : t.stream_set_objects.get row.object.object_id = none) :
    Indexed { t with
      stream_set_objects := t.stream_set_objects.insert row.object.object_id row
      sso_ranges := row.slices.foldl (fun m slice =>
        m.insert (slice_key row.object.object_id slice) (slice.1.end_offset, slice.2)) t.sso_ranges
      sso_by_node := t.sso_by_node.insert (toLex (row.node_id, row.object.object_id)) () } where
  set_keyed id' row' hrow' := by
    rcases get_insert_cases hrow' with ⟨rfl, rfl⟩ | ⟨-, hrow'⟩
    · rfl
    · exact h.set_keyed id' row' hrow'
  ranges key := by
    simp only [get_insert_slices, get_insert, h.ranges key]
    split_ifs with hk
    · simp [hk, hid]
    · rfl
  by_node n id' := by
    have := h.by_node n id'
    simp only [get_insert, toLex_inj, Prod.mk.injEq]
    by_cases hi : id' = row.object.object_id
    · subst hi
      simp only [hid] at this
      grind
    · simp [hi, this]
  keyed := h.keyed
  ids := h.ids

theorem Indexed.remove_object (h : t.Indexed) {key : StreamOffsetKey}
    (hid : t.stream_object_ids.get id = some key) :
    Indexed { t with
      stream_objects := t.stream_objects.remove key
      stream_object_ids := t.stream_object_ids.remove id } :=
  { h with
    keyed := fun key' row hrow => by
      exact h.keyed key' row (of_get_remove hrow).2
    ids := fun id' key' => by
      have h1 := h.ids id key
      have h2 := h.ids id key'
      have h3 := h.ids id' key'
      simp only [get_remove]
      grind }

theorem Indexed.add_object (h : t.Indexed)
    (hid : t.stream_object_ids.get row.object.object_id = none) :
    Indexed { t with
      stream_objects := t.stream_objects.insert row.key row
      stream_object_ids := t.stream_object_ids.insert row.object.object_id row.key } where
  set_keyed := h.set_keyed
  ranges := h.ranges
  by_node := h.by_node
  keyed key' row' hrow := by
    rcases get_insert_cases hrow with ⟨rfl, rfl⟩ | ⟨-, hrow⟩
    · rfl
    · exact h.keyed key' row' hrow
  ids id' key' := by
    have hkey : row.key.object_id = row.object.object_id := rfl
    have h1 := h.ids row.object.object_id key'
    have h2 := h.ids id' key'
    simp only [get_insert]
    by_cases hi : id' = row.object.object_id
    · subst hi
      by_cases hk : key' = row.key
      · simp [hk, hkey]
      · simp only [if_true, some.injEq, hk, if_false, ← h1, hid]
        simp [Ne.symm hk]
    · by_cases hk : key' = row.key
      · subst hk
        simp only [hi, if_false, if_true, h2, hkey]
        simp [Ne.symm hi]
      · simp [hi, hk, h2]

end ObjectTables

/-! ## The whole state -/

namespace MetadataState

variable {s : MetadataState}

/-- The tables are indexed, the byte counts exact, and the counters ahead of every id in use. -/
structure Wf (s : MetadataState) : Prop where
  streams : s.toStreamTables.Indexed
  leases : s.toLeaseTables.Indexed
  objects : s.toObjectTables.Indexed
  destroyed : s.toDestroyTables.Indexed
  kv_bytes : s.kv_bytes = s.kv.sumBy kv_len
  stream_bytes : ∀ sid row, s.streams.get sid = some row →
    row.stored_bytes = s.toObjectTables.stream_bytes sid
  stored_bytes : s.stored_bytes = s.toObjectTables.total_bytes
  exact_arithmetic : s.underflowed = false
  fresh_streams : ∀ sid row, s.streams.get sid = some row → sid < s.next_stream_id
  fresh_slices : ∀ id row, s.stream_set_objects.get id = some row →
    ∀ slice ∈ row.slices, slice.1.stream_id < s.next_stream_id
  fresh_objects : ∀ key row, s.stream_objects.get key = some row → key.stream_id < s.next_stream_id
  fresh_leases : ∀ id deadline, s.prepared.get id = some deadline → id < s.next_object_id

theorem Wf.empty : Wf {} where
  streams := ⟨by simp, by simp, by simp, by simp [streams_on]⟩
  leases := by simp [LeaseTables.Indexed]
  objects := ⟨by simp, by simp, by simp, by simp, by simp⟩
  destroyed := ⟨by simp, by simp⟩
  kv_bytes := by simp
  stream_bytes := by simp
  stored_bytes := by simp [total_bytes]
  exact_arithmetic := rfl
  fresh_streams := by simp
  fresh_slices := by simp
  fresh_objects := by simp
  fresh_leases := by simp

section

variable (h : s.Wf) {row : StreamRow}
include h

theorem Wf.set_cluster {t : ClusterTables}
    (hstream : t.next_stream_id = s.next_stream_id) (hobject : t.next_object_id = s.next_object_id) :
    Wf { s with toClusterTables := t } :=
  { h with
    fresh_streams := fun sid row hrow => hstream ▸ h.fresh_streams sid row hrow
    fresh_slices := fun id row hrow slice hslice => hstream ▸ h.fresh_slices id row hrow slice hslice
    fresh_objects := fun key row hrow => hstream ▸ h.fresh_objects key row hrow
    fresh_leases := fun id d hd => hobject ▸ h.fresh_leases id d hd }

/-! ## Streams -/

theorem Wf.put_stream_row (hbytes : (s.streams.get row.stream_id).elim 0 StreamRow.stored_bytes =
      s.toObjectTables.stream_bytes row.stream_id)
    (hid : row.stream_id < s.next_stream_id) : (s.put_stream row).Wf := by
  refine { h with
    streams := h.streams.put_stream row
    stream_bytes := fun sid r hr => ?_
    fresh_streams := fun sid r hr => ?_ }
  · simp only [MetadataState.put_stream, put_stream_streams] at hr
    rcases get_insert_cases hr with ⟨rfl, rfl⟩ | ⟨-, hr⟩
    · exact hbytes
    · exact h.stream_bytes sid r hr
  · simp only [MetadataState.put_stream, put_stream_streams] at hr
    rcases get_insert_cases hr with ⟨rfl, -⟩ | ⟨-, hr⟩
    · exact hid
    · exact h.fresh_streams sid r hr

theorem Wf.put_stream {sid : ℕ} (hrow : s.streams.get sid = some row) (row' : StreamRow)
    (hid : row'.stream_id = row.stream_id) : (s.put_stream row').Wf := by
  rw [← h.streams.keyed sid row hrow, ← hid] at hrow
  refine h.put_stream_row ?_ (h.fresh_streams _ row hrow)
  rw [hrow]
  exact h.stream_bytes _ row hrow

theorem Wf.next_stream_bytes : s.toObjectTables.stream_bytes s.next_stream_id = 0 := by
  have hset : s.stream_set_objects.sumBy
      (fun _ row => slice_bytes row.slices s.next_stream_id) = 0 := by
    refine sumBy_eq_zero fun id row hrow => ?_
    refine List.sum_eq_zero fun n hn => ?_
    obtain ⟨slice, hslice, rfl⟩ := List.mem_map.1 hn
    exact if_neg (h.fresh_slices id row hrow slice hslice).ne
  have hobjects : s.stream_objects.sumBy (fun key row =>
      if key.stream_id = s.next_stream_id then row.object.object_size else 0) = 0 :=
    sumBy_eq_zero fun key row hrow => if_neg (h.fresh_objects key row hrow).ne
  rw [ObjectTables.stream_bytes, hset, hobjects]

theorem Wf.next_stream_get : s.streams.get s.next_stream_id = none := by
  by_contra hne
  obtain ⟨row, hrow⟩ := ne_none_iff_exists'.1 hne
  exact absurd (h.fresh_streams _ row hrow) (lt_irrefl _)

theorem Wf.put_new_stream (hnone : s.streams.get row.stream_id = none)
    (hbytes : s.toObjectTables.stream_bytes row.stream_id = 0)
    (hid : row.stream_id < s.next_stream_id) : (s.put_stream row).Wf := by
  refine h.put_stream_row ?_ hid
  rw [hnone, hbytes]
  rfl

theorem Wf.add_stream (hid : row.stream_id = s.next_stream_id) :
    ({ s with next_stream_id := s.next_stream_id + 1 }.put_stream row).Wf := by
  have hraised : Wf { s with next_stream_id := s.next_stream_id + 1 } :=
    { h with
      fresh_streams := fun sid r hr => Nat.lt_succ_of_lt (h.fresh_streams sid r hr)
      fresh_slices := fun id r hr slice hslice =>
        Nat.lt_succ_of_lt (h.fresh_slices id r hr slice hslice)
      fresh_objects := fun key r hr => Nat.lt_succ_of_lt (h.fresh_objects key r hr) }
  refine hraised.put_new_stream ?_ ?_ ?_
  · rw [hid]; exact h.next_stream_get
  · rw [hid]; exact h.next_stream_bytes
  · rw [hid]; exact Nat.lt_succ_self _

theorem Wf.remove_stream (sid : ℕ) : (s.remove_stream sid).Wf :=
  { h with
    streams := h.streams.remove_stream sid
    stream_bytes := fun sid' r hr => by
      simp only [MetadataState.remove_stream, remove_stream_streams,
        get_remove] at hr
      split_ifs at hr
      exact h.stream_bytes sid' r hr
    fresh_streams := fun sid' r hr => by
      simp only [MetadataState.remove_stream, remove_stream_streams,
        get_remove] at hr
      split_ifs at hr
      exact h.fresh_streams sid' r hr }

/-! ## Leases, marks, keys and values -/

theorem Wf.put_prepared {id : ℕ} (hnone : s.prepared.get id = none)
    (hid : id < s.next_object_id) (deadline : ℤ) : (s.put_prepared id deadline).Wf :=
  { h with
    leases := h.leases.put_prepared hnone deadline
    fresh_leases := fun id' d hd => by
      simp only [MetadataState.put_prepared, LeaseTables.put_prepared, get_insert] at hd
      split_ifs at hd with hi
      · rw [hi]; exact hid
      · exact h.fresh_leases id' d hd }

theorem Wf.remove_prepared (id : ℕ) : (s.remove_prepared id).Wf :=
  { h with
    leases := h.leases.remove_prepared id
    fresh_leases := fun id' d hd => by
      simp only [MetadataState.remove_prepared, LeaseTables.get_remove_prepared] at hd
      split_ifs at hd
      exact h.fresh_leases id' d hd }

theorem Wf.remove_destroyed (id : ℕ) : (s.remove_destroyed id).Wf :=
  { h with destroyed := h.destroyed.remove_destroyed id }

theorem Wf.put_kv (key : String) (value : Bytes) : (s.put_kv key value).Wf := by
  have hsum := sumBy_insert s.kv kv_len key value
  have hbytes := h.kv_bytes
  unfold MetadataState.put_kv
  cases hold : s.kv.get key with
  | none =>
    rw [hold, elim_none] at hsum
    exact { h with kv_bytes := by dsimp only; omega }
  | some old =>
    rw [hold, elim_some] at hsum
    have hexact := h.exact_arithmetic
    refine { h with kv_bytes := ?_, exact_arithmetic := ?_ }
    · simp only [sub_kv_bytes]; omega
    · simp only [sub_kv_bytes, hexact, Bool.false_or, decide_eq_false_iff_not]
      omega

theorem Wf.remove_kv (key : String) : (s.remove_kv key).1.Wf := by
  have hsum := sumBy_remove s.kv kv_len key
  have hbytes := h.kv_bytes
  unfold MetadataState.remove_kv
  cases hold : s.kv.get key with
  | none => exact h
  | some old =>
    rw [hold, elim_some] at hsum
    have hexact := h.exact_arithmetic
    refine { h with kv_bytes := ?_, exact_arithmetic := ?_ }
    · simp only [sub_kv_bytes]; omega
    · simp only [sub_kv_bytes, hexact, Bool.false_or, decide_eq_false_iff_not]
      omega

end

/-! ## Byte counts of the object tables -/

section ByteCounts

variable {t : ObjectTables} {id : ℕ} {key : StreamOffsetKey}

theorem bytes_remove_set {row : StreamSetObjectRow} (hrow : t.stream_set_objects.get id = some row) :
    (∀ sid, t.stream_bytes sid = stream_bytes
      { t with stream_set_objects := t.stream_set_objects.remove id } sid +
        slice_bytes row.slices sid) ∧
    t.total_bytes = total_bytes
      { t with stream_set_objects := t.stream_set_objects.remove id } + row.object.object_size := by
  refine ⟨fun sid => ?_, ?_⟩
  · simp only [stream_bytes, sumBy_of_get hrow]
    omega
  · simp only [total_bytes, sumBy_of_get hrow]
    omega

theorem bytes_insert_set (row : StreamSetObjectRow) (hid : t.stream_set_objects.get id = none) :
    (∀ sid, stream_bytes
      { t with stream_set_objects := t.stream_set_objects.insert id row } sid =
        t.stream_bytes sid + slice_bytes row.slices sid) ∧
    total_bytes { t with stream_set_objects := t.stream_set_objects.insert id row } =
      t.total_bytes + row.object.object_size := by
  refine ⟨fun sid => ?_, ?_⟩
  · simp only [stream_bytes, sumBy_insert_of_none hid]
    omega
  · simp only [total_bytes, sumBy_insert_of_none hid]
    omega

theorem bytes_remove_object (hrow : t.stream_objects.get key = some row) :
    (∀ sid, t.stream_bytes sid = stream_bytes
      { t with stream_objects := t.stream_objects.remove key } sid +
        if key.stream_id = sid then row.object.object_size else 0) ∧
    t.total_bytes = total_bytes
      { t with stream_objects := t.stream_objects.remove key } + row.object.object_size := by
  refine ⟨fun sid => ?_, ?_⟩
  · simp only [stream_bytes, sumBy_of_get hrow]
    omega
  · simp only [total_bytes, sumBy_of_get hrow]
    omega

theorem bytes_insert_object (row : StreamObjectRow) (hkey : t.stream_objects.get key = none) :
    (∀ sid, stream_bytes
      { t with stream_objects := t.stream_objects.insert key row } sid =
        t.stream_bytes sid + if key.stream_id = sid then row.object.object_size else 0) ∧
    total_bytes { t with stream_objects := t.stream_objects.insert key row } =
      t.total_bytes + row.object.object_size := by
  refine ⟨fun sid => ?_, ?_⟩
  · simp only [stream_bytes, sumBy_insert_of_none hkey]
    omega
  · simp only [total_bytes, sumBy_insert_of_none hkey]
    omega

end ByteCounts

/-! ## Stream-set objects -/

theorem Wf.fresh_map (h : s.Wf) {streams : OrdMap ℕ StreamRow} {f : ℕ → StreamRow → StreamRow}
    (hmap : ∀ sid, streams.get sid = (s.streams.get sid).map (f sid)) (sid : ℕ) (r : StreamRow)
    (hr : streams.get sid = some r) : sid < s.next_stream_id := by
  rw [hmap] at hr
  obtain ⟨r', hr', -⟩ := map_eq_some_iff.1 hr
  exact h.fresh_streams sid r' hr'

theorem Wf.remove_stream_set_object (h : s.Wf) (id : ℕ) : (s.remove_stream_set_object id).Wf := by
  cases hrow : s.stream_set_objects.get id with
  | none => rw [remove_stream_set_object_of_none hrow]; exact h
  | some row =>
    rw [remove_stream_set_object_of_some hrow]
    obtain ⟨hbytes, htotal⟩ := bytes_remove_set hrow
    have hstored := h.stored_bytes
    have hexact := h.exact_arithmetic
    have hunder : s.toStreamTables.slices_underflow row.slices = false :=
      slices_underflow_eq_false fun sid r hr => by
        rw [h.stream_bytes sid r hr, hbytes sid]
        omega
    simp only [total_bytes] at hstored htotal
    refine { h with
      streams := h.streams.remove_slices row.slices
      objects := h.objects.remove_set hrow
      stream_bytes := ?_
      stored_bytes := ?_
      exact_arithmetic := ?_
      fresh_streams := ?_
      fresh_slices := ?_ }
    · intro sid r hr
      simp only [get_remove_slices] at hr
      obtain ⟨r', hr', rfl⟩ := map_eq_some_iff.1 hr
      have h1 := h.stream_bytes sid r' hr'
      have h2 := hbytes sid
      simp only [ObjectTables.stream_bytes] at h1 h2 ⊢
      omega
    · simp only [ObjectTables.total_bytes]
      omega
    · simp only [hexact, hunder, Bool.false_or, decide_eq_false_iff_not]
      omega
    · exact h.fresh_map fun sid => get_remove_slices ..
    · intro id' r hr
      exact h.fresh_slices id' r (of_get_remove hr).2

theorem Wf.put_stream_set_object (h : s.Wf) {row : StreamSetObjectRow}
    (hslices : ∀ slice ∈ row.slices, slice.1.stream_id < s.next_stream_id) :
    (s.put_stream_set_object row).Wf := by
  rw [put_stream_set_object_eq]
  have hnext : (s.remove_stream_set_object row.object.object_id).next_stream_id =
      s.next_stream_id := by simp
  rw [← hnext] at hslices
  replace h := h.remove_stream_set_object row.object.object_id
  have hid : (s.remove_stream_set_object row.object.object_id).stream_set_objects.get
      row.object.object_id = none := by simp
  -- from here on only the state without an object of that id matters
  generalize s.remove_stream_set_object row.object.object_id = s at *
  obtain ⟨hbytes, htotal⟩ := bytes_insert_set row hid
  have hstored := h.stored_bytes
  simp only [total_bytes] at hstored htotal
  refine { h with
    streams := h.streams.add_slices row.slices
    objects := h.objects.add_set hid
    stream_bytes := ?_
    stored_bytes := ?_
    fresh_streams := ?_
    fresh_slices := ?_ }
  · intro sid r hr
    simp only [get_add_slices] at hr
    obtain ⟨r', hr', rfl⟩ := map_eq_some_iff.1 hr
    have h1 := h.stream_bytes sid r' hr'
    have h2 := hbytes sid
    simp only [ObjectTables.stream_bytes] at h1 h2 ⊢
    omega
  · simp only [ObjectTables.total_bytes]
    omega
  · exact h.fresh_map fun sid => get_add_slices ..
  · intro id' r hr
    simp only [get_insert] at hr
    split_ifs at hr
    · cases hr; exact hslices
    · exact h.fresh_slices id' r hr

/-! ## Stream objects -/

theorem Wf.remove_stream_object (h : s.Wf) (id : ℕ) : (s.remove_stream_object id).Wf := by
  cases hid : s.stream_object_ids.get id with
  | none => rw [remove_stream_object_of_none hid]; exact h
  | some key =>
    obtain ⟨-, row, hrow⟩ := (h.objects.ids id key).1 hid
    rw [remove_stream_object_of_some hid hrow]
    obtain ⟨hbytes, htotal⟩ := bytes_remove_object hrow
    have hstored := h.stored_bytes
    have hexact := h.exact_arithmetic
    have hunder : s.toStreamTables.bytes_underflow key.stream_id row.object.object_size =
        false := by
      unfold bytes_underflow
      cases hr : s.streams.get key.stream_id with
      | none => rfl
      | some r =>
        have h1 := h.stream_bytes _ r hr
        have h2 := hbytes key.stream_id
        rw [if_pos rfl] at h2
        simp only [any_some, decide_eq_false_iff_not]
        omega
    simp only [total_bytes] at hstored htotal
    refine { h with
      streams := h.streams.remove_stream_bytes _ _
      objects := h.objects.remove_object hid
      stream_bytes := ?_
      stored_bytes := ?_
      exact_arithmetic := ?_
      fresh_streams := ?_
      fresh_objects := ?_ }
    · intro sid r hr
      simp only [get_remove_stream_bytes] at hr
      obtain ⟨r', hr', rfl⟩ := map_eq_some_iff.1 hr
      have h1 := h.stream_bytes sid r' hr'
      have h2 := hbytes sid
      simp only [ObjectTables.stream_bytes, eq_comm (a := sid)] at h1 h2 ⊢
      omega
    · simp only [ObjectTables.total_bytes]
      omega
    · simp only [hexact, hunder, Bool.false_or, decide_eq_false_iff_not]
      omega
    · exact h.fresh_map fun sid => get_remove_stream_bytes ..
    · intro key' r hr
      exact h.fresh_objects key' r (of_get_remove hr).2

theorem Wf.put_stream_object (h : s.Wf)
    (hstream : row.range.stream_id < s.next_stream_id) : (s.put_stream_object row).Wf := by
  rw [put_stream_object_eq]
  have hnext : (s.remove_stream_object row.object.object_id).next_stream_id =
      s.next_stream_id := by simp
  rw [← hnext] at hstream
  replace h := h.remove_stream_object row.object.object_id
  have hid : (s.remove_stream_object row.object.object_id).stream_object_ids.get
      row.object.object_id = none := by simp
  generalize s.remove_stream_object row.object.object_id = s at *
  have hkey : s.stream_objects.get row.key = none := by
    by_contra hne
    obtain ⟨r, hr⟩ := ne_none_iff_exists'.1 hne
    have := (h.objects.ids row.object.object_id row.key).2 ⟨rfl, r, hr⟩
    rw [hid] at this
    cases this
  have hstream_id : row.key.stream_id = row.range.stream_id := rfl
  obtain ⟨hbytes, htotal⟩ := bytes_insert_object row hkey
  simp only [hstream_id] at hbytes
  have hstored := h.stored_bytes
  simp only [total_bytes] at hstored htotal
  refine { h with
    streams := h.streams.add_stream_bytes _ _
    objects := h.objects.add_object hid
    stream_bytes := ?_
    stored_bytes := ?_
    fresh_streams := ?_
    fresh_objects := ?_ }
  · intro sid r hr
    simp only [get_add_stream_bytes] at hr
    obtain ⟨r', hr', rfl⟩ := map_eq_some_iff.1 hr
    have h1 := h.stream_bytes sid r' hr'
    have h2 := hbytes sid
    simp only [ObjectTables.stream_bytes, eq_comm (a := sid)] at h1 h2 ⊢
    omega
  · simp only [ObjectTables.total_bytes]
    omega
  · exact h.fresh_map fun sid => get_add_stream_bytes ..
  · intro key' r hr
    simp only [get_insert] at hr
    split_ifs at hr with hk
    · rw [hk]; exact hstream
    · exact h.fresh_objects key' r hr

end MetadataState

end PicoMq.Metadata
