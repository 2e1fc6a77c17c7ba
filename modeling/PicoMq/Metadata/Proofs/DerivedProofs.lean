import PicoMq.Metadata.Proofs.ApplyProofs
import PicoMq.Metadata.Proofs.WellFormedProofs

/-!
# Proofs: every derived field is its recomputation

Every command keeps the well-formed states, and there each incrementally maintained field equals its
recomputation.
-/

namespace PicoMq.Metadata

open List MetadataState OrdMap

variable {s s' : MetadataState} {r : MetadataResult} {sid : ℕ} {n epoch : ℤ}
variable {noop : ℕ}

/-! ## The writes of object commands

A commit, a compaction or a destruction is a sequence of these writes, so what each of them keeps
is kept by the command. -/

/-- It ends the leases of ids in `C` only, and the stream-set objects that it lists are in `R`. -/
inductive Write (C : ℕ → Prop) (R : StreamSetObjectRow → Prop) (s : MetadataState) :
    MetadataState → Prop
  | unlease (id : ℕ) (hid : C id) : Write C R s (s.remove_prepared id)
  | advance (sid : ℕ) (row : StreamRow) (end_offset : ℕ)
      (hrow : s.streams.get sid = some row) :
      Write C R s (s.put_stream { row with end_offset })
  | list_set (row : StreamSetObjectRow) (hrow : R row)
      (hstreams : ∀ slice ∈ row.slices, ∃ stream, s.streams.get slice.1.stream_id = some stream) :
      Write C R s (s.put_stream_set_object row)
  | list (object : StreamObject) (data_time_ms now_ms last_write_ms : ℤ)
      (hstream : ∃ stream, s.streams.get object.stream_id = some stream) :
      Write C R s (insert_stream_object s object data_time_ms now_ms last_write_ms)
  | drop_set (id : ℕ) : Write C R s (s.remove_stream_set_object id)
  | drop (id : ℕ) : Write C R s (s.remove_stream_object id)
  | mark (id : ℕ) (op : CompactOperations) : Write C R s (mark_destroyed s id op)

def Writes (C : ℕ → Prop) (R : StreamSetObjectRow → Prop) : MetadataState → MetadataState → Prop :=
  Relation.ReflTransGen (Write C R)

def Any {α : Type} : α → Prop := fun _ => True

section Writes

variable {C : ℕ → Prop} {R : StreamSetObjectRow → Prop} {compact : Bool}
variable {data_time_ms now_ms last_write_ms : ℤ} {request : CommitStreamSetObjectRequest}

theorem Writes.foldl {ι : Type} {f : MetadataState → ι → MetadataState}
    (h : ∀ s x, Writes C R s (f s x)) (l : List ι) (s : MetadataState) :
    Writes C R s (l.foldl f s) :=
  foldl_invariant (P := Writes C R s) (fun t x _ ht => ht.trans (h t x)) .refl

theorem Writes.unchanged {β : Type} {g : MetadataState → β}
    (hg : ∀ {s s'}, Write C R s s' → g s' = g s) (h : Writes C R s s') : g s' = g s := by
  induction h with
  | refl => rfl
  | tail _ hlast ih => exact (hg hlast).trans ih

theorem destroy_stream_object_writes (s : MetadataState) (key : StreamOffsetKey) :
    Writes C R s (destroy_stream_object s key) :=
  .tail (.single (.drop _)) (.mark _ _)

theorem destroy_stream_set_object_writes (s : MetadataState) (id : ℕ) :
    Writes C R s (destroy_stream_set_object s id) :=
  .tail (.single (.drop_set _)) (.mark _ _)

theorem advance_end_offset_writes {start_offset end_offset : ℕ}
    (h : advance_end_offset s sid start_offset end_offset compact = .ok s') : Writes C R s s' := by
  obtain ⟨row, hrow, ⟨-, -, -, rfl⟩ | ⟨-, -, rfl⟩⟩ := advance_end_offset_eq_ok_iff.1 h
  · exact .refl
  · exact .single (.advance sid row end_offset hrow)

theorem advance_end_offset_exists {start_offset end_offset sid' : ℕ}
    (h : advance_end_offset s sid start_offset end_offset compact = .ok s')
    (hsid : sid' = sid ∨ ∃ row, s.streams.get sid' = some row) :
    ∃ row, s'.streams.get sid' = some row := by
  obtain ⟨row, hrow, hcase⟩ := advance_end_offset_eq_ok_iff.1 h
  have hold : ∃ row, s.streams.get sid' = some row := by
    rcases hsid with rfl | hold
    · exact ⟨row, hrow⟩
    · exact hold
  obtain ⟨-, -, -, rfl⟩ | ⟨-, -, rfl⟩ := hcase
  · exact hold
  · obtain ⟨old, hold⟩ := hold
    simp only [put_stream_frame, StreamTables.put_stream_streams, get_insert]
    split_ifs
    · exact ⟨_, rfl⟩
    · exact ⟨old, hold⟩

theorem advance_ranges_writes {ranges : List ObjectStreamRange}
    (h : ranges.foldlM (fun s range =>
      advance_end_offset s range.stream_id range.start_offset range.end_offset compact) s =
        .ok s') :
    Writes C R s s' ∧ ∀ sid, (∃ range ∈ ranges, sid = range.stream_id) ∨
      (∃ row, s.streams.get sid = some row) → ∃ row, s'.streams.get sid = some row := by
  induction ranges generalizing s with
  | nil => cases h; exact ⟨.refl, fun sid hsid => hsid.resolve_left (by simp)⟩
  | cons range ranges ih =>
    obtain ⟨t, hrange, hrest⟩ := foldlM_cons_ok.1 h
    obtain ⟨hwrites, hexists⟩ := ih hrest
    refine ⟨.trans (advance_end_offset_writes hrange) hwrites, fun sid hsid => hexists sid ?_⟩
    rcases hsid with ⟨range', hmem, rfl⟩ | hold
    · rcases mem_cons.1 hmem with rfl | hmem
      · exact .inr (advance_end_offset_exists hrange (.inl rfl))
      · exact .inl ⟨range', hmem, rfl⟩
    · exact .inr (advance_end_offset_exists hrange (.inr hold))

theorem stream_set_object_row_slices (request : CommitStreamSetObjectRequest)
    (data_time_ms now_ms last_write_ms : ℤ) :
    (stream_set_object_row n request data_time_ms now_ms last_write_ms).slices =
      request.stream_ranges.map fun range =>
        (⟨range.stream_id, range.start_offset, range.end_offset⟩, range.size) :=
  zip_map' ..

theorem commit_set_object_writes (hC : C request.object_id)
    (hR : R (stream_set_object_row n request data_time_ms now_ms last_write_ms))
    (h : commit_set_object s n request compact data_time_ms now_ms last_write_ms = .ok s') :
    Writes C R s s' := by
  obtain ⟨-, -, t, ht, rfl⟩ := commit_set_object_eq_ok_iff.1 h
  obtain ⟨hwrites, hexists⟩ := advance_ranges_writes ht
  refine .tail (.trans (.single (.unlease _ hC)) hwrites) (.list_set _ hR fun slice hslice => ?_)
  rw [stream_set_object_row_slices] at hslice
  obtain ⟨range, hrange, rfl⟩ := mem_map.1 hslice
  exact hexists _ (.inl ⟨range, hrange, rfl⟩)

theorem commit_stream_object_writes {object : StreamObject} (hC : C object.object_id)
    (h : commit_stream_object compact data_time_ms now_ms last_write_ms s object = .ok s') :
    Writes C R s s' := by
  obtain ⟨-, -, t, ht, rfl⟩ := commit_stream_object_eq_ok_iff.1 h
  exact .tail (.trans (.single (.unlease _ hC)) (advance_end_offset_writes ht))
    (.list object _ _ _ (advance_end_offset_exists ht (.inl rfl)))

theorem commit_stream_set_object_writes
    (hC : request.object_id ≠ noop → C request.object_id)
    (hobject : ∀ object ∈ request.stream_objects, C object.object_id)
    (hR : ∀ data_time_ms last_write_ms,
      R (stream_set_object_row n request data_time_ms now_ms last_write_ms))
    (h : commit_stream_set_object noop s n request now_ms = .ok (s', r)) :
    Writes C R s s' := by
  obtain ⟨-, sources, t, -, hset, hnoop, hobjects, -⟩ := commit_stream_set_object_eq_ok_iff.1 h
  have hdestroyed := Writes.foldl (C := C) (R := R) destroy_stream_set_object_writes
    request.compacted_object_ids s
  have ht : Writes C R s t := by
    by_cases hne : request.object_id = noop
    · rw [hnoop hne]; exact hdestroyed
    · exact hdestroyed.trans (commit_set_object_writes (hC hne) (hR _ _) (hset hne))
  exact foldlM_invariant (P := Writes C R s) (fun _ _ object hmem hok hwrites =>
    hwrites.trans (commit_stream_object_writes (hobject object hmem) hok)) hobjects ht

theorem remove_compacted_source_writes (sid : ℕ) (s : MetadataState) (id : ℕ) :
    Writes C R s (remove_compacted_source sid s id) := by
  unfold remove_compacted_source
  split_ifs
  · exact .single (.drop id)
  · exact .refl

theorem compacted_writes {request : CompactStreamObjectRequest} {row : StreamRow}
    (hC : C request.object_id) (hrow : s.streams.get request.stream_id = some row) (now_ms : ℤ) :
    Writes C R s (compacted noop s request now_ms) := by
  refine .trans (.head (.unlease _ hC) ?_) (Writes.foldl (remove_compacted_source_writes _) _ _)
  split_ifs
  · exact .single (.list request.output _ _ _ ⟨row, hrow⟩)
  · exact .refl

theorem compact_stream_object_writes {request : CompactStreamObjectRequest}
    (hC : C request.object_id)
    (h : compact_stream_object noop s request now_ms = .ok (s', r)) :
    Writes C R s s' := by
  obtain ⟨-, ⟨row, hrow, -⟩, -, hmark, -⟩ := compact_stream_object_eq_ok_iff.1 h
  obtain ⟨-, rfl⟩ := mark_destroy_objects_eq_ok_iff.1 hmark
  exact (compacted_writes hC hrow now_ms).trans
    (Writes.foldl (fun _ _ => .single (.mark _ _)) _ _)

end Writes

/-! ## Commands keep well-formed states -/

section

variable (h : s.Wf)
include h

theorem mark_destroyed_wf (id : ℕ) (op : CompactOperations) :
    (mark_destroyed s id op).Wf := by
  unfold mark_destroyed
  cases hid : s.destroyed_by_id.get id with
  | some seq => exact { h with destroyed := h.destroyed.put_again hid op }
  | none => exact { h with destroyed := h.destroyed.put_new hid op }

theorem Writes.wf {C : ℕ → Prop} {R : StreamSetObjectRow → Prop}
    (hwrites : Writes C R s s') : s'.Wf := by
  induction hwrites with
  | refl => exact h
  | tail _ hlast ih =>
    cases hlast with
    | unlease id _ => exact ih.remove_prepared id
    | advance sid row end_offset hrow => exact ih.put_stream hrow _ rfl
    | list_set row _ hstreams =>
      refine ih.put_stream_set_object fun slice hslice => ?_
      obtain ⟨stream, hstream⟩ := hstreams slice hslice
      exact ih.fresh_streams _ stream hstream
    | list object _ _ _ hstream =>
      obtain ⟨stream, hstream⟩ := hstream
      exact ih.put_stream_object (ih.fresh_streams _ stream hstream)
    | drop_set id => exact ih.remove_stream_set_object id
    | drop id => exact ih.remove_stream_object id
    | mark id op => exact mark_destroyed_wf ih id op

theorem destroy_stream_objects_wf (keys : List StreamOffsetKey) :
    (keys.foldl destroy_stream_object s).Wf :=
  (Writes.foldl (C := Any) (R := Any) destroy_stream_object_writes keys s).wf h

theorem destroy_stream_set_objects_wf (ids : List ℕ) :
    (ids.foldl destroy_stream_set_object s).Wf :=
  (Writes.foldl (C := Any) (R := Any) destroy_stream_set_object_writes ids s).wf h

theorem commit_stream_object_wf {object : StreamObject} {compact : Bool}
    {data_time_ms now_ms last_write_ms : ℤ}
    (hok : commit_stream_object compact data_time_ms now_ms last_write_ms s object = .ok s') :
    s'.Wf :=
  (commit_stream_object_writes (C := Any) (R := Any) trivial hok).wf h

theorem commit_stream_set_object_wf {now_ms : ℤ}
    (hok : commit_stream_set_object noop s n request now_ms = .ok (s', r)) : s'.Wf :=
  (commit_stream_set_object_writes (C := Any) (R := Any) (fun _ => trivial)
    (fun _ _ => trivial) (fun _ _ => trivial) hok).wf h

theorem compact_stream_object_wf {request : CompactStreamObjectRequest}
    {now_ms : ℤ} (hok : compact_stream_object noop s request now_ms = .ok (s', r)) :
    s'.Wf :=
  (compact_stream_object_writes (C := Any) (R := Any) trivial hok).wf h

theorem create_next_wf : (create_next s).Wf :=
  h.add_stream rfl

theorem create_streams_wf (count : ℕ) : (create_next^[count] s).Wf := by
  induction count with
  | zero => exact h
  | succ count ih => rw [Function.iterate_succ_apply']; exact create_next_wf ih

end

theorem Effect.wf {c : MetadataCommand} (heffect : Effect noop s c s') (h : s.Wf) :
    s'.Wf := by
  cases heffect with
  | same => exact h
  | created c count => exact create_streams_wf h count
  | placed p sid requested row winner hrow => exact h.put_stream hrow _ rfl
  | opened p sid epoch row hrow =>
    exact (h.put_stream hrow { row with epoch, state := .opened, node_id := p.node_id }
      rfl).set_cluster rfl rfl
  | trimmed p sid offset row hrow =>
    refine destroy_stream_objects_wf ?_ _
    exact (h.put_stream hrow { row with start_offset := offset } rfl).set_cluster rfl rfl
  | closed p sid row hrow => exact h.put_stream hrow _ rfl
  | deleted =>
    refine destroy_stream_objects_wf ?_ _
    exact (h.remove_stream _).set_cluster rfl rfl
  | transferred p sid pending row hpending hrow =>
    exact (h.put_stream hrow { row with node_id := pending.to_node } rfl).set_cluster rfl rfl
  | leased c leases next_object_id hc hleases =>
    obtain ⟨count, deadline, rfl, rfl⟩ | ⟨ids, rfl, rfl⟩ := hleases
    · obtain ⟨hleases, hfresh⟩ := h.leases.prepare deadline h.fresh_leases count
      exact { h with leases := hleases, fresh_leases := hfresh }
    · rw [← foldl_remove_prepared (fun id => id)]
      exact foldl_invariant (fun _ _ _ h => h.remove_prepared _) h
  | committed p request now_ms s' hok => exact commit_stream_set_object_wf h hok
  | compacted p request now_ms s' hok => exact compact_stream_object_wf h hok
  | cleaned => exact foldl_invariant (fun _ _ _ h => h.remove_destroyed _) h
  | kv c kv underflowed hkv =>
    obtain ⟨key, value, -, hput⟩ | ⟨key, hremove⟩ := hkv
    · exact hput ▸ h.put_kv key value
    · exact hremove ▸ h.remove_kv key
  | _ => exact h.set_cluster rfl rfl

theorem step_wf (h : s.Wf) (c : MetadataCommand) : (step noop s c).Wf := by
  rcases step_effect s c with hsame | ⟨-, -, heffect⟩
  · rw [hsame]
    exact h
  · exact heffect.wf h

/-- Every reachable state is well formed. -/
theorem history_wf (log : List MetadataCommand) (i : ℕ) : (history noop log i).Wf :=
  Run.after_invariant Wf.empty (fun _ c h => step_wf h c) i

/-! ## Recomputation -/

theorem count_nodes (l : List (ℕ × StreamRow)) (n : ℤ) :
    (((l.filter fun e => e.2.state = .opened) ++
      (l.filter fun e => e.2.state = .closed ∧ e.2.node_id ≠ -1)).map fun e => e.2.node_id).count n =
      (l.map fun e => if e.2.On n then 1 else 0).sum := by
  induction l with
  | nil => rfl
  | cons e l ih =>
    rw [map_append, count_append] at ih ⊢
    rw [map_cons, sum_cons, ← ih]
    cases hstate : e.2.state with
    | opened =>
      simp [hstate, StreamRow.On, count_cons]
      omega
    | closed =>
      by_cases hnode : e.2.node_id = -1
      · simp [hstate, hnode, StreamRow.On]
      · simp [hstate, hnode, StreamRow.On, count_cons]
        omega

theorem get_foldl_ranges (l : List (ℕ × StreamSetObjectRow))
    (h : l.Pairwise fun a b => a.1 < b.1) (m : OrdMap StreamOffsetKey (ℕ × ℕ))
    (key : StreamOffsetKey) :
    (l.foldl (fun m e => e.2.slices.foldl (fun m slice =>
      m.insert (slice_key e.1 slice) (slice.1.end_offset, slice.2)) m) m).get key =
      ((OrdMap.lookupEntry key.object_id l).bind fun row => row.slice_at key).or (m.get key) := by
  induction l generalizing m with
  | nil => rfl
  | cons e l ih =>
    obtain ⟨hlt, hl⟩ := pairwise_cons.1 h
    rw [foldl_cons, ih hl, get_insert_slices]
    obtain ⟨id, row⟩ := e
    rw [OrdMap.lookupEntry]
    split_ifs with hk
    · rw [lookupEntry_eq_none fun e he => hk ▸ (hlt e he).ne]
      rfl
    · rfl

theorem get_derived_ranges (objects : OrdMap ℕ StreamSetObjectRow) (key : StreamOffsetKey) :
    (derived_ranges objects).get key =
      (objects.get key.object_id).bind fun row => row.slice_at key := by
  have := get_foldl_ranges objects.entries objects.sorted .empty key
  rw [get_empty, Option.or_none] at this
  rw [derived_ranges, OrdMap.ofList, foldl_flatMap]
  simp only [foldl_map]
  exact this

/-- In a well-formed state every derived field is its recomputation. -/
theorem derived_of_wf (h : s.Wf) : s.Derived where
  opening_by_node := OrdMap.ext_pairs fun n sid => by
    refine (h.streams.opening n sid).trans ?_
    simp only [derived_opening, get_ofList_unit, mem_map, mem_filter, Prod.exists,
      mem_entries, decide_eq_true_eq, Prod.mk.injEq, and_true]
    constructor
    · rintro ⟨row, hrow, hstate, rfl⟩; exact ⟨sid, row, ⟨hrow, hstate⟩, rfl⟩
    · rintro ⟨sid', row, ⟨hrow, hstate⟩, heq⟩
      cases heq
      exact ⟨row, hrow, hstate, rfl⟩
  placed_by_node := OrdMap.ext_pairs fun n sid => by
    refine (h.streams.placed n sid).trans ?_
    simp only [derived_placed, get_ofList_unit, mem_map, mem_filter, Prod.exists,
      mem_entries, decide_eq_true_eq, Prod.mk.injEq, and_true]
    constructor
    · rintro ⟨row, hrow, hstate, rfl, hn⟩; exact ⟨sid, row, ⟨hrow, hstate, hn⟩, rfl⟩
    · rintro ⟨sid', row, ⟨hrow, hstate, hn⟩, heq⟩
      cases heq
      exact ⟨row, hrow, hstate, rfl, hn⟩
  streams_by_node := OrdMap.ext fun n => by
    rw [derived_counts, get_tally, count_nodes]
    exact h.streams.loads n
  prepared_by_deadline := OrdMap.ext_pairs fun deadline id => by
    refine (h.leases deadline id).trans ?_
    simp only [derived_deadlines, get_ofList_unit, mem_map, Prod.exists,
      mem_entries, Prod.mk.injEq, and_true]
    constructor
    · intro hd; exact ⟨id, deadline, hd, rfl⟩
    · rintro ⟨id', deadline', hd, heq⟩
      cases heq
      exact hd
  sso_ranges := OrdMap.ext fun key => by rw [h.objects.ranges, get_derived_ranges]
  sso_by_node := OrdMap.ext_pairs fun n id => by
    refine (h.objects.by_node n id).trans ?_
    simp only [derived_sso_by_node, get_ofList_unit, mem_map, Prod.exists,
      mem_entries, Prod.mk.injEq, and_true]
    constructor
    · rintro ⟨row, hrow, rfl⟩; exact ⟨id, row, hrow, rfl⟩
    · rintro ⟨id', row, hrow, heq⟩
      cases heq
      exact ⟨row, hrow, rfl⟩
  stream_object_ids := OrdMap.ext fun id => Option.ext fun key => by
    have hunique : ∀ id key key', (id, key) ∈ s.stream_objects.entries.map
        (fun e => (e.1.object_id, e.1)) → (id, key') ∈ s.stream_objects.entries.map
        (fun e => (e.1.object_id, e.1)) → key = key' := by
      simp only [mem_map, Prod.exists, mem_entries, Prod.mk.injEq]
      rintro id key key' ⟨k, row, hrow, rfl, rfl⟩ ⟨k', row', hrow', hid, rfl⟩
      have h1 := (h.objects.ids _ k).2 ⟨rfl, row, hrow⟩
      have h2 := (h.objects.ids _ k').2 ⟨hid, row', hrow'⟩
      rw [h1] at h2
      exact Option.some.inj h2
    rw [h.objects.ids, derived_object_ids, get_ofList_of_functional hunique]
    simp only [mem_map, Prod.exists, mem_entries, Prod.mk.injEq]
    constructor
    · rintro ⟨hid, row, hrow⟩; exact ⟨key, row, hrow, hid, rfl⟩
    · rintro ⟨k, row, hrow, hid, rfl⟩; exact ⟨hid, row, hrow⟩
  object_ids_distinct key row key' row' hrow hrow' hid := by
    have h1 := (h.objects.ids _ key).2 ⟨rfl, row, hrow⟩
    have h2 := (h.objects.ids _ key').2 ⟨hid.symm, row', hrow'⟩
    rw [h1] at h2
    exact Option.some.inj h2
  destroyed_by_id := h.destroyed.inverse
  kv_bytes := h.kv_bytes
  stream_bytes := h.stream_bytes
  stored_bytes := h.stored_bytes
  exact_arithmetic := h.exact_arithmetic

/-- After every sequence of commands every derived field equals its recomputation, and no
subtraction underflowed. -/
theorem derived_of_history (noop : ℕ) (log : List MetadataCommand) (i : ℕ) :
    (history noop log i).Derived :=
  derived_of_wf (history_wf log i)

end PicoMq.Metadata
