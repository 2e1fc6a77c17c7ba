import PicoMq.Metadata.Objects
import PicoMq.Metadata.Proofs.OffsetProofs

/-!
# Proofs: what commands do to the objects

The lookups of the object tables and of the destruction queue after each command, and exactly which
commits and compactions are accepted.
-/

namespace PicoMq.Metadata

open List MetadataState OrdMap

variable {s s' : MetadataState} {r : MetadataResult} {n : ℤ} {compact : Bool}
variable {noop : ℕ} {id : ℕ}

/-! ## Live and marked objects -/

theorem marked_iff (hs : s.Wf) :
    Marked s id ↔ s.destroyed_by_id.contains_key id = true := by
  rw [contains_key_iff]
  constructor
  · rintro ⟨seq, op, h⟩
    exact ⟨seq, (hs.destroyed.inverse id seq).2 ⟨op, h⟩⟩
  · rintro ⟨seq, h⟩
    obtain ⟨op, h⟩ := (hs.destroyed.inverse id seq).1 h
    exact ⟨seq, op, h⟩

theorem marked_congr (h : s'.toDestroyTables = s.toDestroyTables) :
    Marked s' id ↔ Marked s id := by
  unfold Marked; rw [h]

section

variable (hs : s.Wf)
include hs

theorem stream_object_ids_iff :
    s.stream_object_ids.contains_key id = true ↔
      ∃ key row, s.stream_objects.get key = some row ∧ key.object_id = id := by
  rw [contains_key_iff]
  constructor
  · rintro ⟨key, h⟩
    obtain ⟨hid, row, hrow⟩ := (hs.objects.ids id key).1 h
    exact ⟨key, row, hrow, hid⟩
  · rintro ⟨key, row, hrow, hid⟩
    exact ⟨key, (hs.objects.ids id key).2 ⟨hid, row, hrow⟩⟩

theorem live_iff :
    Live s id ↔ (∃ row, s.stream_set_objects.get id = some row) ∨
      ∃ key row, s.stream_objects.get key = some row ∧ key.object_id = id := by
  rw [Live, stream_object_ids_iff hs, contains_key_iff]

theorem marked_mark_destroyed (id : ℕ) (op : CompactOperations) (id' : ℕ) :
    Marked (mark_destroyed s id op) id' ↔ id' = id ∨ Marked s id' := by
  rw [marked_iff (mark_destroyed_wf hs id op), marked_iff hs]
  unfold mark_destroyed
  cases hid : s.destroyed_by_id.get id <;>
    by_cases h : id' = id <;>
      simp [MetadataState.put_destroyed, DestroyTables.put_destroyed, OrdMap.contains_key, h]

theorem marked_foldl_marks (marks : List (ℕ × CompactOperations)) (id : ℕ) :
    Marked (marks.foldl (fun s e => mark_destroyed s e.1 e.2) s) id ↔
      (∃ e ∈ marks, id = e.1) ∨ Marked s id :=
  foldl_adds (I := Wf) (P := fun s => Marked s id) (fun _ _ h => mark_destroyed_wf h _ _)
    (fun _ e h => marked_mark_destroyed h e.1 e.2 id) marks hs

/-! ## Dropping objects -/

theorem get_remove_stream_object_wf (id : ℕ) (key : StreamOffsetKey) :
    (s.remove_stream_object id).stream_objects.get key =
      if key.object_id = id then none else s.stream_objects.get key := by
  rw [get_remove_stream_object]
  have hids := hs.objects.ids id key
  by_cases hid : key.object_id = id
  · cases hrow : s.stream_objects.get key with
    | none => simp
    | some row => rw [if_pos (hids.2 ⟨hid, row, hrow⟩), if_pos hid]
  · rw [if_neg hid, if_neg fun h => hid (hids.1 h).1]

theorem get_destroy_stream_objects (keys : List StreamOffsetKey)
    (key : StreamOffsetKey) :
    (keys.foldl destroy_stream_object s).stream_objects.get key =
      if ∃ k ∈ keys, key.object_id = k.object_id then none else s.stream_objects.get key :=
  foldl_clears (I := Wf) (f := destroy_stream_object)
    (g := fun s : MetadataState => s.stream_objects.get key)
    (fun _ _ h => mark_destroyed_wf (h.remove_stream_object _) _ _)
    (fun t k ht => by
      rw [← get_remove_stream_object_wf ht]
      simp [destroy_stream_object]) keys hs

end

theorem destroy_stream_objects_frame (keys : List StreamOffsetKey) (s : MetadataState) :
    (keys.foldl destroy_stream_object s).stream_set_objects = s.stream_set_objects ∧
    (keys.foldl destroy_stream_object s).sso_ranges = s.sso_ranges := by
  constructor
  · exact foldl_unchanged (g := fun s : MetadataState => s.stream_set_objects)
      (fun s key => by simp [destroy_stream_object]) s keys
  · exact foldl_unchanged (g := fun s : MetadataState => s.sso_ranges)
      (fun s key => by simp [destroy_stream_object]) s keys

theorem marked_destroy_stream_objects (hs : s.Wf) (keys : List StreamOffsetKey) (id : ℕ) :
    Marked (keys.foldl destroy_stream_object s) id ↔
      (∃ key ∈ keys, id = key.object_id) ∨ Marked s id :=
  foldl_adds (I := Wf) (f := destroy_stream_object) (P := fun s => Marked s id)
    (fun _ _ h => mark_destroyed_wf (h.remove_stream_object _) _ _)
    (fun t key ht => by
      rw [destroy_stream_object, marked_mark_destroyed (ht.remove_stream_object _),
        marked_congr (remove_stream_object_frame (s := t) key.object_id).2.2.1]) keys hs

theorem destroy_stream_set_objects_frame (ids : List ℕ) (s : MetadataState) :
    (ids.foldl destroy_stream_set_object s).stream_set_objects =
      ids.foldl (fun m id => m.remove id) s.stream_set_objects ∧
    (ids.foldl destroy_stream_set_object s).stream_objects = s.stream_objects ∧
    (ids.foldl destroy_stream_set_object s).stream_object_ids = s.stream_object_ids := by
  induction ids generalizing s with
  | nil => exact ⟨rfl, rfl, rfl⟩
  | cons id ids ih => simpa [destroy_stream_set_object] using ih (destroy_stream_set_object s id)

theorem get_destroy_stream_set_objects (ids : List ℕ) (s : MetadataState) (id : ℕ) :
    (ids.foldl destroy_stream_set_object s).stream_set_objects.get id =
      if id ∈ ids then none else s.stream_set_objects.get id := by
  rw [(destroy_stream_set_objects_frame ids s).1, get_foldl_remove]
  simp

theorem marked_destroy_stream_set_objects (hs : s.Wf) (ids : List ℕ) (id : ℕ) :
    Marked (ids.foldl destroy_stream_set_object s) id ↔ id ∈ ids ∨ Marked s id := by
  rw [foldl_adds (I := Wf) (f := destroy_stream_set_object) (P := fun s => Marked s id)
    (q := fun a => id = a) (fun _ _ h => mark_destroyed_wf (h.remove_stream_set_object _) _ _)
    (fun t a ht => by
      rw [destroy_stream_set_object, marked_mark_destroyed (ht.remove_stream_set_object _),
        marked_congr (remove_stream_set_object_frame (s := t) a).2.2.1]) ids hs]
  simp

/-! ## Listing objects -/

theorem put_stream_object_objects {row : StreamObjectRow}
    (h : ∀ key, s.stream_object_ids.get row.object.object_id = some key → key = row.key) :
    (s.put_stream_object row).stream_objects = s.stream_objects.insert row.key row := by
  ext1 key
  rw [get_put_stream_object, get_insert]
  split_ifs with hkey hid
  · rfl
  · exact absurd (h key hid) hkey
  · rfl

theorem advance_end_offset_frame {sid start_offset end_offset : ℕ}
    (h : advance_end_offset s sid start_offset end_offset compact = .ok s') :
    s'.toObjectTables = s.toObjectTables ∧ s'.toDestroyTables = s.toDestroyTables := by
  obtain ⟨row, -, ⟨-, -, -, rfl⟩ | ⟨-, -, rfl⟩⟩ := advance_end_offset_eq_ok_iff.1 h <;>
    exact ⟨rfl, rfl⟩

theorem advance_ranges_frame {ranges : List ObjectStreamRange}
    (h : ranges.foldlM (fun s range =>
      advance_end_offset s range.stream_id range.start_offset range.end_offset compact) s =
        .ok s') :
    s'.toObjectTables = s.toObjectTables ∧ s'.toDestroyTables = s.toDestroyTables :=
  foldlM_invariant (P := fun t => t.toObjectTables = s.toObjectTables ∧
    t.toDestroyTables = s.toDestroyTables)
    (fun _ _ _ _ h he => ⟨(advance_end_offset_frame h).1.trans he.1,
      (advance_end_offset_frame h).2.trans he.2⟩) h ⟨rfl, rfl⟩

variable {data_time_ms now_ms last_write_ms : ℤ} {request : CommitStreamSetObjectRequest}

theorem commit_set_object_objects
    (h : commit_set_object s n request compact data_time_ms now_ms last_write_ms = .ok s') :
    s'.stream_set_objects = s.stream_set_objects.insert request.object_id
      (stream_set_object_row n request data_time_ms now_ms last_write_ms) ∧
    s'.stream_objects = s.stream_objects ∧ s'.stream_object_ids = s.stream_object_ids ∧
    s'.toDestroyTables = s.toDestroyTables := by
  obtain ⟨-, -, t, ht, rfl⟩ := commit_set_object_eq_ok_iff.1 h
  obtain ⟨hobjects, hdestroyed⟩ := advance_ranges_frame ht
  simp only [put_stream_set_object_objects, put_stream_set_object_frame, hobjects, hdestroyed]
  exact ⟨rfl, rfl, rfl, rfl⟩

theorem commit_stream_object_objects {object : StreamObject}
    (h : commit_stream_object compact data_time_ms now_ms last_write_ms s object = .ok s') :
    s'.stream_set_objects = s.stream_set_objects ∧
    s'.stream_objects = s.stream_objects.insert object.key
      (stream_object_row object data_time_ms now_ms last_write_ms) ∧
    s'.stream_object_ids = s.stream_object_ids.insert object.object_id object.key ∧
    s'.toDestroyTables = s.toDestroyTables := by
  obtain ⟨-, hkeys, t, ht, rfl⟩ := commit_stream_object_eq_ok_iff.1 h
  obtain ⟨hobjects, hdestroyed⟩ := advance_end_offset_frame ht
  rw [insert_stream_object, put_stream_object_objects (by rw [hobjects]; exact hkeys)]
  simp only [put_stream_object_ids, put_stream_object_frame, hobjects, hdestroyed]
  exact ⟨rfl, rfl, rfl, rfl⟩

theorem commit_stream_objects_objects {objects : List StreamObject}
    (h : objects.foldlM (commit_stream_object compact data_time_ms now_ms last_write_ms) s =
      .ok s') :
    s'.stream_set_objects = s.stream_set_objects ∧
    s'.stream_objects = objects.foldl (fun m object => m.insert object.key
      (stream_object_row object data_time_ms now_ms last_write_ms)) s.stream_objects ∧
    s'.toDestroyTables = s.toDestroyTables := by
  induction objects generalizing s with
  | nil => cases h; exact ⟨rfl, rfl, rfl⟩
  | cons object objects ih =>
    obtain ⟨t, ht, hrest⟩ := foldlM_cons_ok.1 h
    obtain ⟨hset, hobjects, -, hdestroyed⟩ := commit_stream_object_objects ht
    rw [foldl_cons, ← hobjects, ← hset, ← hdestroyed]
    exact ih hrest

/-! ## Commits -/

/-- A commit drops its sources and marks them, and lists its objects. -/
structure CommitObjects (noop : ℕ) (s s' : MetadataState) (n : ℤ)
    (request : CommitStreamSetObjectRequest) (data_time_ms now_ms last_write_ms : ℤ) : Prop where
  sets : ∀ id, s'.stream_set_objects.get id =
    if request.object_id ≠ noop ∧ id = request.object_id then
      some (stream_set_object_row n request data_time_ms now_ms last_write_ms)
    else if id ∈ request.compacted_object_ids then none else s.stream_set_objects.get id
  objects : ∀ key, s'.stream_objects.get key =
    ((request.stream_objects.reverse.find? fun object => object.key = key).map fun object =>
      stream_object_row object data_time_ms now_ms last_write_ms).or (s.stream_objects.get key)
  marked : ∀ id, Marked s' id ↔ id ∈ request.compacted_object_ids ∨ Marked s id

section SetStage

variable {t : MetadataState} {request : CommitStreamSetObjectRequest} {c : MetadataCommand}

theorem set_stage_objects
    (hset : request.object_id ≠ noop →
      commit_set_object s n request compact data_time_ms now_ms last_write_ms = .ok t)
    (hnoop : request.object_id = noop → t = s) :
    (∀ id, t.stream_set_objects.get id =
      if request.object_id ≠ noop ∧ id = request.object_id then
        some (stream_set_object_row n request data_time_ms now_ms last_write_ms)
      else s.stream_set_objects.get id) ∧
    t.stream_objects = s.stream_objects ∧ t.stream_object_ids = s.stream_object_ids ∧
    t.toDestroyTables = s.toDestroyTables := by
  by_cases hne : request.object_id = noop
  · simp [hnoop hne, hne]
  · obtain ⟨hset, hframe⟩ := commit_set_object_objects (hset hne)
    exact ⟨fun id => by simp [hset, hne, get_insert], hframe⟩

theorem exists_set_stage (hs : s.Wf) (n data_time_ms now_ms last_write_ms : ℤ)
    (hfree : request.object_id ≠ noop →
      s.stream_set_objects.get request.object_id = none ∧
      s.stream_object_ids.get request.object_id = none)
    (hfits : Fits compact s ((request.slices noop).map ObjectStreamRange.range)) :
    ∃ t, (request.object_id ≠ noop →
      commit_set_object s n request compact data_time_ms now_ms last_write_ms = .ok t) ∧
    (request.object_id = noop → t = s) := by
  by_cases hne : request.object_id = noop
  · exact ⟨s, fun h => absurd hne h, fun _ => rfl⟩
  · rw [CommitStreamSetObjectRequest.slices, if_pos hne] at hfits
    obtain ⟨t, ht⟩ := advance_ranges_of_fits (hs.remove_prepared request.object_id)
      ((fits_congr fun _ => rfl).2 hfits)
    exact ⟨_, fun _ => commit_set_object_eq_ok_iff.2 ⟨(hfree hne).1, (hfree hne).2, t, ht, rfl⟩,
      fun h => absurd h hne⟩

end SetStage

theorem commit_objects_of_sources (hs : s.Wf)
    (h : commit_stream_set_object noop s n request now_ms = .ok (s', r)) :
    ∃ sources, request.compacted_object_ids.mapM (compacted_source s) = .ok sources ∧
      CommitObjects noop s s' n request (commit_data_time sources now_ms) now_ms
        (commit_last_write sources now_ms) := by
  obtain ⟨-, sources, t, hsources, hset, hnoop, hobjects, -⟩ :=
    commit_stream_set_object_eq_ok_iff.1 h
  obtain ⟨hset', hobjects', hdestroyed'⟩ := commit_stream_objects_objects hobjects
  obtain ⟨hsets, hsame, -, hdestroyed⟩ := set_stage_objects hset hnoop
  refine ⟨sources, hsources, ⟨fun id => ?_, fun key => ?_, fun id => ?_⟩⟩
  · rw [hset', hsets, get_destroy_stream_set_objects]
  · rw [hobjects', get_foldl_insert, hsame, (destroy_stream_set_objects_frame _ s).2.1]
  · rw [marked_congr hdestroyed', marked_congr hdestroyed, marked_destroy_stream_set_objects hs]

theorem commit_objects (hs : s.Wf)
    (h : commit_stream_set_object noop s n request now_ms = .ok (s', r)) :
    ∃ data_time_ms last_write_ms,
      CommitObjects noop s s' n request data_time_ms now_ms last_write_ms := by
  obtain ⟨sources, -, heffect⟩ := commit_objects_of_sources hs h
  exact ⟨_, _, heffect⟩

section

variable (h : CommitObjects noop s s' n request data_time_ms now_ms last_write_ms)
include h

theorem CommitObjects.listed
    {object : StreamObject} (hmem : object ∈ request.stream_objects) :
    ∃ row, s'.stream_objects.get object.key = some row := by
  rw [h.objects]
  cases hfind : request.stream_objects.reverse.find? fun o => o.key = object.key with
  | some o => exact ⟨_, rfl⟩
  | none =>
    have := find?_eq_none.1 hfind object (mem_reverse.2 hmem)
    simp at this

theorem CommitObjects.listed_cases
    {key : StreamOffsetKey} {row : StreamObjectRow} (hrow : s'.stream_objects.get key = some row) :
    (∃ object ∈ request.stream_objects, object.key = key ∧
      row = stream_object_row object data_time_ms now_ms last_write_ms) ∨
    s.stream_objects.get key = some row := by
  rw [h.objects] at hrow
  cases hfind : request.stream_objects.reverse.find? fun o => o.key = key with
  | none => rw [hfind] at hrow; exact .inr hrow
  | some o =>
    rw [hfind] at hrow
    cases hrow
    refine .inl ⟨o, mem_reverse.1 (mem_of_find?_eq_some hfind), ?_, rfl⟩
    simpa using find?_some hfind

end

theorem commit_stream_objects_ok_iff (hs : s.Wf) {objects : List StreamObject} :
    (∃ t, objects.foldlM (commit_stream_object compact data_time_ms now_ms last_write_ms) s =
      .ok t) ↔
      (∀ object ∈ objects, s.stream_set_objects.get object.object_id = none ∧
        ∀ key, s.stream_object_ids.get object.object_id = some key → key = object.key) ∧
      (objects.Pairwise fun a b => a.object_id = b.object_id → a.key = b.key) ∧
      Fits compact s (objects.map StreamObject.range) := by
  induction objects generalizing s with
  | nil => exact ⟨fun _ => ⟨by simp, .nil, fits_nil⟩, fun _ => ⟨s, rfl⟩⟩
  | cons object objects ih =>
    simp only [foldlM_cons_ok, forall_mem_cons, pairwise_cons, map_cons]
    constructor
    · rintro ⟨u, t, ht, hu⟩
      obtain ⟨hfree, hkey, -⟩ := commit_stream_object_eq_ok_iff.1 ht
      obtain ⟨hset, -, hids, -⟩ := commit_stream_object_objects ht
      obtain ⟨hall, hpair, hfits⟩ := (ih (commit_stream_object_wf hs ht)).1 ⟨u, hu⟩
      rw [hset, hids] at hall
      refine ⟨⟨⟨hfree, hkey⟩, fun o ho => ⟨(hall o ho).1, fun key hk => ?_⟩⟩,
        ⟨fun o ho hid => ?_, hpair⟩, ((commit_stream_object_takesIn hs ht).fits _).2 hfits⟩
      · by_cases hid : o.object_id = object.object_id
        · have hsame := (hall o ho).2 object.key (by rw [hid, get_insert, if_pos rfl])
          rw [← hsame]
          exact hkey key (hid ▸ hk)
        · exact (hall o ho).2 key (by rw [get_insert, if_neg hid]; exact hk)
      · exact (hall o ho).2 object.key (by rw [← hid, get_insert, if_pos rfl])
    · rintro ⟨⟨⟨hfree, hkey⟩, hall⟩, ⟨hfirst, hpair⟩, hfits⟩
      have hfits' : Fits compact s ([object.range] ++ objects.map StreamObject.range) := hfits
      have hrange : Fits compact (s.remove_prepared object.object_id) [object.range] :=
        (fits_congr fun _ => rfl).2 (fits_of_append hfits')
      obtain ⟨t, ht⟩ := advance_of_fits hrange
      have hcommit : commit_stream_object compact data_time_ms now_ms last_write_ms s object =
          .ok (insert_stream_object t object data_time_ms now_ms last_write_ms) :=
        commit_stream_object_eq_ok_iff.2 ⟨hfree, hkey, t, ht, rfl⟩
      obtain ⟨hset, -, hids, -⟩ := commit_stream_object_objects hcommit
      have hrest := (ih (commit_stream_object_wf hs hcommit)).2 ⟨?_, hpair,
        ((commit_stream_object_takesIn hs hcommit).fits _).1 hfits⟩
      · obtain ⟨u, hu⟩ := hrest
        exact ⟨u, _, hcommit, hu⟩
      · intro o ho
        rw [hset, hids]
        refine ⟨(hall o ho).1, fun key hk => ?_⟩
        rw [get_insert] at hk
        split_ifs at hk with hid
        · cases hk; exact hfirst o ho hid.symm
        · exact (hall o ho).2 key hk

theorem Committable.output_free (h : Committable noop s request) (hne : request.object_id ≠ noop) :
    s.stream_set_objects.get request.object_id = none :=
  (redundant_commit_check_eq_ok_iff.1 h.not_redundant).1 hne

/-- A commit is accepted exactly on the states that meet its conditions. -/
theorem commit_ok_iff (hs : s.Wf) :
    (∃ s' r, commit_stream_set_object noop s n request now_ms = .ok (s', r)) ↔
      Committable noop s request := by
  have hwf := destroy_stream_set_objects_wf hs request.compacted_object_ids
  have hget := get_destroy_stream_set_objects request.compacted_object_ids s
  obtain ⟨-, -, hids⟩ := destroy_stream_set_objects_frame request.compacted_object_ids s
  constructor
  · rintro ⟨s', r, h⟩
    have hfits := (commit_takesIn hs h).fits_self
    obtain ⟨hred, sources, t, hsources, hset, hnoop, hobjects, -⟩ :=
      commit_stream_set_object_eq_ok_iff.1 h
    have hsource := exists_mapM_ok_iff.1 ⟨sources, hsources⟩
    simp only [compacted_source_eq_ok_iff] at hsource
    obtain ⟨hsets, -, hids', -⟩ := set_stage_objects hset hnoop
    obtain ⟨hall, hkeys, -⟩ :=
      (commit_stream_objects_ok_iff (set_stage_takesIn hwf hset hnoop).1).1 ⟨s', hobjects⟩
    rw [hids', hids] at hall
    have hfree : ∀ o ∈ request.stream_objects,
        (request.object_id ≠ noop → o.object_id ≠ request.object_id) ∧
        (s.stream_set_objects.get o.object_id = none ∨
          o.object_id ∈ request.compacted_object_ids) := by
      intro o ho
      have hnone := (hall o ho).1
      rw [hsets, hget] at hnone
      split_ifs at hnone with hout hmem
      · exact ⟨fun hne hid => hout ⟨hne, hid⟩, .inr hmem⟩
      · exact ⟨fun hne hid => hout ⟨hne, hid⟩, .inl hnone⟩
    exact {
      not_redundant := hred
      sources := fun id hid => contains_key_iff.2 (hsource id hid)
      output := fun hne => hids ▸ (commit_set_object_eq_ok_iff.1 (hset hne)).2.1
      objects := fun o ho => ⟨(hfree o ho).2, (hall o ho).2⟩
      distinct := fun hne o ho => (hfree o ho).1 hne
      keys := hkeys
      fits := hfits }
  · intro h
    obtain ⟨sources, hsources⟩ : ∃ sources,
        request.compacted_object_ids.mapM (compacted_source s) = .ok sources :=
      exists_mapM_ok_iff.2 fun id hid => by
        simp only [compacted_source_eq_ok_iff]
        exact contains_key_iff.1 (h.sources id hid)
    have hfits := (fits_congr
      (control_destroy_stream_set_objects request.compacted_object_ids s)).2 h.fits
    obtain ⟨t, hset, hnoop⟩ := exists_set_stage hwf n (commit_data_time sources now_ms) now_ms
      (commit_last_write sources now_ms)
      (fun hne => ⟨by rw [hget, h.output_free hne, ite_self], by rw [hids, h.output hne]⟩)
      (fits_of_append hfits)
    obtain ⟨ht, htake⟩ := set_stage_takesIn hwf hset hnoop
    obtain ⟨hsets, -, hids', -⟩ := set_stage_objects hset hnoop
    have hfree : ∀ o ∈ request.stream_objects, t.stream_set_objects.get o.object_id = none := by
      intro o ho
      rw [hsets, hget, if_neg fun hout => h.distinct hout.1 o ho hout.2]
      split_ifs with hmem
      · rfl
      · exact (h.objects o ho).1.resolve_right hmem
    rw [hids] at hids'
    obtain ⟨u, hu⟩ := (commit_stream_objects_ok_iff ht).2
      ⟨fun o ho => ⟨hfree o ho, hids' ▸ (h.objects o ho).2⟩, h.keys, (htake.fits _).1 hfits⟩
    exact ⟨u, .unit, commit_stream_set_object_eq_ok_iff.2
      ⟨h.not_redundant, sources, t, hsources, hset, hnoop, hu, rfl⟩⟩

/-! ## Stream compactions -/

theorem compact_output_free_iff {request : CompactStreamObjectRequest} :
    stream_object_committed s request.stream_id request.object_id = false ∧
      check_object_id_free s request.object_id (some request.output.key) = .ok () ↔
      ¬Live s request.object_id := by
  rw [check_object_id_free_eq_ok_iff, Live, not_or, Bool.not_eq_true, Bool.not_eq_true,
    contains_key_eq_false, contains_key_eq_false, stream_object_committed]
  cases s.stream_object_ids.get request.object_id with
  | none => simp
  | some key =>
    simp only [Option.any_some, decide_eq_false_iff_not, Option.some.injEq, reduceCtorEq, and_false,
      iff_false]
    rintro ⟨hstream, -, hkey⟩
    exact hstream (hkey key rfl ▸ rfl)

theorem compact_ok_iff {request : CompactStreamObjectRequest} :
    (∃ s' r, compact_stream_object noop s request now_ms = .ok (s', r)) ↔
      Compactable noop s request := by
  simp only [compact_stream_object_eq_ok_iff, mark_destroy_objects_eq_ok_iff]
  constructor
  · rintro ⟨s', r, hnew, hstream, hfree, ⟨hops, -⟩, -⟩
    exact ⟨fun hne => compact_output_free_iff.1 ⟨hnew hne, hfree hne⟩, hstream, hops⟩
  · rintro ⟨houtput, hstream, hops⟩
    exact ⟨_, _, fun hne => (compact_output_free_iff.2 (houtput hne)).1, hstream,
      fun hne => (compact_output_free_iff.2 (houtput hne)).2, ⟨hops, rfl⟩, rfl⟩

theorem mem_destroy_marks {ids : List ℕ} {ops : List CompactOperations}
    (h : ids = [] ∨ ops = [] ∨ ops.length = ids.length) (id : ℕ) :
    (∃ e ∈ destroy_marks ids ops, id = e.1) ↔ id ∈ ids := by
  have hfst : (destroy_marks ids ops).map Prod.fst = ids := by
    unfold destroy_marks
    rcases h with rfl | rfl | hlen
    · split_ifs <;> rfl
    · simp [Function.comp_def]
    · split_ifs
      · simp [Function.comp_def]
      · exact map_fst_zip hlen.ge
  conv_rhs => rw [← hfst]
  simp [eq_comm]

theorem get_remove_compacted_source (hs : s.Wf) (sid id : ℕ) (key : StreamOffsetKey) :
    (remove_compacted_source sid s id).stream_objects.get key =
      if key.stream_id = sid ∧ key.object_id = id then none else s.stream_objects.get key := by
  unfold remove_compacted_source stream_object_committed
  cases hrow : s.stream_objects.get key with
  | none => split_ifs <;> simp [get_remove_stream_object_wf hs, hrow]
  | some row =>
    by_cases hid : key.object_id = id
    · have hkey := (hs.objects.ids id key).2 ⟨hid, row, hrow⟩
      by_cases hsid : key.stream_id = sid <;>
        simp [hkey, hsid, hid, hrow, get_remove_stream_object_wf hs]
    · split_ifs <;> simp_all [get_remove_stream_object_wf hs]

theorem get_remove_compacted_sources (hs : s.Wf) (sid : ℕ) (sources : List ℕ)
    (key : StreamOffsetKey) :
    (sources.foldl (remove_compacted_source sid) s).stream_objects.get key =
      if key.stream_id = sid ∧ key.object_id ∈ sources then none
      else s.stream_objects.get key := by
  rw [foldl_clears (I := Wf) (f := remove_compacted_source sid)
    (g := fun s : MetadataState => s.stream_objects.get key)
    (p := fun id => key.stream_id = sid ∧ key.object_id = id)
    (fun s id ht => (remove_compacted_source_writes (C := Any) (R := Any) sid s id).wf ht)
    (fun _ id ht => get_remove_compacted_source ht sid id key) sources hs]
  congr 1
  simp [and_comm]

/-- A stream compaction lists its output, drops the sources of the stream, and marks all. -/
structure CompactObjects (noop : ℕ) (s s' : MetadataState)
    (request : CompactStreamObjectRequest) (now_ms last_write_ms : ℤ) : Prop where
  sets : s'.stream_set_objects = s.stream_set_objects
  ranges : s'.sso_ranges = s.sso_ranges
  objects : ∀ key, s'.stream_objects.get key =
    if key.stream_id = request.stream_id ∧ key.object_id ∈ request.source_object_ids then none
    else if request.object_id ≠ noop ∧ key = request.output.key then
      some (stream_object_row request.output now_ms now_ms last_write_ms)
    else s.stream_objects.get key
  marked : ∀ id, Marked s' id ↔ id ∈ request.source_object_ids ∨ Marked s id
  ends : end_of s' = end_of s

theorem compact_objects_of_sources (hs : s.Wf) {request : CompactStreamObjectRequest}
    (h : compact_stream_object noop s request now_ms = .ok (s', r)) :
    CompactObjects noop s s' request now_ms
      (compacted_last_write s request.source_object_ids now_ms) := by
  have hcan := compact_ok_iff.1 ⟨s', r, h⟩
  obtain ⟨-, ⟨row, hrow, -⟩, -, hmark, -⟩ := compact_stream_object_eq_ok_iff.1 h
  obtain ⟨hops, rfl⟩ := mark_destroy_objects_eq_ok_iff.1 hmark
  obtain ⟨hcontrol, hsets, hranges, hdestroyed⟩ := compacted_frame noop s request now_ms
  obtain ⟨hstreams, hobjects⟩ := foldl_marks_frame
    (destroy_marks request.source_object_ids request.operations)
    (compacted noop s request now_ms)
  refine ⟨by rw [hobjects, hsets], by rw [hobjects, hranges], fun key => ?_, fun id => ?_,
    end_of_congr fun sid => by rw [hstreams, hcontrol]⟩
  · rw [hobjects, compacted]
    by_cases hne : request.object_id = noop
    · rw [if_neg (not_not.2 hne), get_remove_compacted_sources (hs.remove_prepared _)]
      simp only [ne_eq, hne, not_true_eq_false, false_and, if_false]
      rfl
    · have hfree : s.stream_object_ids.get request.object_id = none :=
        contains_key_eq_false.1 (Bool.not_eq_true _ ▸ (not_or.1 (hcan.output hne)).2)
      have hwf : (insert_stream_object (s.remove_prepared request.object_id) request.output now_ms
          now_ms (compacted_last_write (s.remove_prepared request.object_id)
            request.source_object_ids now_ms)).Wf :=
        (hs.remove_prepared _).put_stream_object (hs.fresh_streams _ row hrow)
      rw [if_pos hne, get_remove_compacted_sources hwf, insert_stream_object,
        put_stream_object_objects fun key hkey => ?_, get_insert]
      · simp only [ne_eq, hne, not_false_eq_true, true_and]
        rfl
      · exact absurd (hfree.symm.trans hkey) (by simp)
  · have hwf : (compacted noop s request now_ms).Wf :=
      (compacted_writes (C := Any) (R := Any) trivial hrow now_ms).wf hs
    rw [marked_foldl_marks hwf, mem_destroy_marks hops, marked_congr hdestroyed]

theorem compact_objects (hs : s.Wf) {request : CompactStreamObjectRequest}
    (h : compact_stream_object noop s request now_ms = .ok (s', r)) :
    ∃ last_write_ms, CompactObjects noop s s' request now_ms last_write_ms :=
  ⟨_, compact_objects_of_sources hs h⟩

/-! ## One step -/

/-- How a command changes the objects and the destruction queue. -/
inductive ObjectStep (noop : ℕ) (s s' : MetadataState) : MetadataCommand → Prop
  /-- No object is listed, dropped or marked. -/
  | same (c : MetadataCommand) (hobjects : s'.toObjectTables = s.toObjectTables)
      (hmarked : ∀ id, Marked s' id → Marked s id) : ObjectStep noop s s' c
  /-- Stream objects without an offset that their stream still has are dropped and marked. -/
  | destroyed (c : MetadataCommand) (keys : List StreamOffsetKey)
      (hsets : s'.stream_set_objects = s.stream_set_objects)
      (hranges : s'.sso_ranges = s.sso_ranges)
      (hobjects : ∀ key, s'.stream_objects.get key =
        if ∃ k ∈ keys, key.object_id = k.object_id then none else s.stream_objects.get key)
      (hmarked : ∀ id, Marked s' id ↔ (∃ key ∈ keys, id = key.object_id) ∨ Marked s id)
      (hlive : ∀ key ∈ keys, ∃ row, s.stream_objects.get key = some row ∧
        ∀ stream, s'.streams.get key.stream_id = some stream →
          row.range.end_offset ≤ stream.start_offset) :
      ObjectStep noop s s' c
  | committed (p : Proposer) (request : CommitStreamSetObjectRequest) (now_ms : ℤ)
      (hok : commit_stream_set_object noop s p.node_id request now_ms =
        .ok (s', .unit)) :
      ObjectStep noop s s' (.commitStreamSetObject p request now_ms)
  | compacted (p : Proposer) (request : CompactStreamObjectRequest) (now_ms : ℤ)
      (hok : compact_stream_object noop s request now_ms = .ok (s', .unit)) :
      ObjectStep noop s s' (.compactStreamObject p request now_ms)

theorem ObjectStep.of_frame (hobjects : s'.toObjectTables = s.toObjectTables)
    (hdestroyed : s'.toDestroyTables = s.toDestroyTables) : ObjectStep noop s s' c :=
  .same c hobjects fun _ => (marked_congr hdestroyed).1

theorem marked_remove_destroyed (hs : s.Wf) {id id' : ℕ}
    (h : Marked (s.remove_destroyed id) id') : Marked s id' := by
  rw [marked_iff (hs.remove_destroyed id), contains_key_iff] at h
  rw [marked_iff hs, contains_key_iff]
  unfold MetadataState.remove_destroyed DestroyTables.remove_destroyed at h
  cases hid : s.destroyed_by_id.get id with
  | none => simpa only [hid] using h
  | some seq =>
    simp only [hid, get_remove] at h
    obtain ⟨seq', hseq⟩ := h
    split_ifs at hseq
    exact ⟨seq', hseq⟩

theorem clean_frame (hs : s.Wf) (ids : List ℕ) :
    (ids.foldl remove_destroyed s).toObjectTables = s.toObjectTables ∧
    ∀ id, Marked (ids.foldl remove_destroyed s) id → Marked s id := by
  refine (foldl_invariant (f := remove_destroyed) (P := fun t : MetadataState => t.Wf ∧
    t.toObjectTables = s.toObjectTables ∧ ∀ id, Marked t id → Marked s id)
    (fun t id _ h => ?_) ⟨hs, rfl, fun _ h => h⟩).2
  obtain ⟨ht, hobjects, hmarked⟩ := h
  exact ⟨ht.remove_destroyed id, hobjects, fun id' h => hmarked id' (marked_remove_destroyed ht h)⟩

theorem ObjectStep.of_destroy {t : MetadataState} (ht : t.Wf)
    (keys : List StreamOffsetKey) (hobjects : t.toObjectTables = s.toObjectTables)
    (hdestroyed : t.toDestroyTables = s.toDestroyTables)
    (hlive : ∀ key ∈ keys, ∃ row, s.stream_objects.get key = some row ∧
      ∀ stream, t.toStreamTables.control key.stream_id = some stream →
        row.range.end_offset ≤ stream.start_offset) :
    ObjectStep noop s (keys.foldl destroy_stream_object t) c := by
  obtain ⟨hsets, hranges⟩ := destroy_stream_objects_frame keys t
  refine .destroyed c keys (by rw [hsets, hobjects]) (by rw [hranges, hobjects]) (fun key => ?_)
    (fun id => ?_) fun key hkey => ?_
  · rw [get_destroy_stream_objects ht, hobjects]
  · rw [marked_destroy_stream_objects ht, marked_congr hdestroyed]
  · obtain ⟨row, hrow, hend⟩ := hlive key hkey
    refine ⟨row, hrow, fun stream hstream => ?_⟩
    have hcontrol := StreamTables.control_eq_some hstream
    rw [control_destroy_stream_objects] at hcontrol
    have hle := hend _ hcontrol
    exact hle

theorem Effect.objectStep (hs : s.Wf) (h : Effect noop s c s') : ObjectStep noop s s' c := by
  cases h with
  | same | registered | nodeKept | nodeFenced | placed | opened | closed | transferring
  | transferred | leased | allocated | kv => exact .of_frame rfl rfl
  | created _ count =>
    exact .of_frame (create_next_unchanged (g := fun s : MetadataState => s.toObjectTables)
      (fun _ => rfl) s count) (create_next_unchanged
        (g := fun s : MetadataState => s.toDestroyTables) (fun _ => rfl) s count)
  | trimmed p sid offset row hrow howner hstart hend =>
    refine .of_destroy ?_ _ rfl rfl fun key hkey => ?_
    · exact (hs.put_stream hrow { row with start_offset := offset } rfl).set_cluster rfl rfl
    · obtain ⟨rfl, object, hobject, hdead⟩ := mem_dead_objects.1 hkey
      refine ⟨object, hobject, fun stream hstream => ?_⟩
      rw [put_stream_frame _ |>.2.1, StreamTables.control_put_stream,
        if_pos (hs.streams.keyed _ row hrow).symm] at hstream
      cases hstream
      exact hdead
  | deleted p sid row hrow howner hstate =>
    refine .of_destroy ?_ _ rfl rfl fun key hkey => ?_
    · exact (hs.remove_stream sid).set_cluster rfl rfl
    · obtain ⟨rfl, object, hobject⟩ := mem_all_objects.1 hkey
      refine ⟨object, hobject, fun stream hstream => ?_⟩
      simp [MetadataState.remove_stream] at hstream
  | committed p request now_ms _ hok => exact .committed p request now_ms hok
  | compacted p request now_ms _ hok => exact .compacted p request now_ms hok
  | cleaned p ids => exact .same _ (clean_frame hs ids).1 (clean_frame hs ids).2

end PicoMq.Metadata
