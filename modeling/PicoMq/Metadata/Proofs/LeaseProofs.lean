import Mathlib.Tactic.IntervalCases
import PicoMq.Metadata.Leases
import PicoMq.Metadata.Proofs.ObjectProofs

/-!
# Proofs: reserved object ids

The code drops an expired lease without marking the id and commits without looking at the lease, so
the accounting rests on the uploader.
-/

namespace PicoMq.Metadata

open List MetadataState OrdMap

variable {s s' : MetadataState} {c : MetadataCommand} {r : MetadataResult} {now_ms : ℤ}
variable {noop : ℕ} {log : List MetadataCommand} {i j id : ℕ}

/-! ## The lease tables -/

theorem leased_iff : Leased s id ↔ ∃ deadline, s.prepared.get id = some deadline :=
  contains_key_iff

theorem leased_congr (h : s'.toLeaseTables = s.toLeaseTables) : Leased s' id ↔ Leased s id := by
  unfold Leased; rw [h]

theorem leased_remove_prepared {id' : ℕ} :
    Leased (s.remove_prepared id') id ↔ id ≠ id' ∧ Leased s id := by
  simp only [leased_iff, MetadataState.remove_prepared, LeaseTables.get_remove_prepared]
  by_cases hid : id = id'
  · simp [hid]
  · simp [hid]

theorem get_foldl_put_prepared (t : LeaseTables) (first count : ℕ) (deadline : ℤ) (id : ℕ) :
    ((range' first count).foldl (fun t id => t.put_prepared id deadline) t).prepared.get id =
      if first ≤ id ∧ id < first + count then some deadline else t.prepared.get id := by
  induction count with
  | zero => simp
  | succ count ih =>
    rw [range'_1_concat, foldl_append, foldl_cons, foldl_nil]
    show OrdMap.get (OrdMap.insert _ (first + count) deadline) id = _
    rw [get_insert, ih]
    by_cases hlast : id = first + count
    · rw [if_pos hlast, if_pos (by omega)]
    · rw [if_neg hlast]
      exact if_congr (by omega) rfl rfl

theorem prepare_object_leases {count : ℕ} {ttl_ms : ℤ}
    (h : prepare_object s count ttl_ms now_ms = .ok (s', r)) :
    r = .id s.next_object_id ∧
      (∀ id, s.next_object_id ≤ id → id < s.next_object_id + count → Leased s' id) ∧
      ∀ id, Leased s id → Leased s' id := by
  have hs' := prepare_object_ok h
  have hget : ∀ id, s'.prepared.get id = if s.next_object_id ≤ id ∧ id < s.next_object_id + count
      then some (now_ms + max ttl_ms 0) else s.prepared.get id := by
    intro id
    rw [hs']
    exact get_foldl_put_prepared s.toLeaseTables _ _ _ id
  refine ⟨?_, fun id hlo hhi => ?_, fun id hleased => ?_⟩
  · unfold prepare_object at h
    split_ifs at h
    cases h
    rfl
  · exact leased_iff.2 ⟨_, (hget id).trans (if_pos ⟨hlo, hhi⟩)⟩
  · rw [leased_iff, hget]
    split_ifs
    · exact ⟨_, rfl⟩
    · exact leased_iff.1 hleased

theorem expire_prepared_objects_leases (hs : s.Wf)
    (h : expire_prepared_objects s now_ms = .ok (s', r)) {deadline : ℤ}
    (hlease : s.prepared.get id = some deadline) (hdue : now_ms < deadline) : Leased s' id := by
  cases h
  rw [foldl_remove_prepared]
  refine leased_iff.2 ⟨deadline, ?_⟩
  refine foldl_invariant (P := fun t : LeaseTables => t.prepared.get id = some deadline)
    (fun t e he ht => ?_) hlease
  have hdead := mem_scan.1 he
  rw [LeaseTables.get_remove_prepared, if_neg ?_, ht]
  -- A due entry of the deadline index under this id would be the deadline of the lease.
  intro hid
  have hentry : s.prepared.get (ofLex e.1).2 = some (ofLex e.1).1 :=
    (hs.leases (ofLex e.1).1 (ofLex e.1).2).1 hdead.1
  rw [← hid, hlease] at hentry
  cases hentry
  have := of_decide_eq_true hdead.2
  omega

/-! ## Commits and compactions -/

/-- Writes keep every lease but those that they may end. -/
theorem Writes.leased {C : ℕ → Prop} {R : StreamSetObjectRow → Prop} (hid : ¬C id)
    (h : Writes C R s s') (hleased : Leased s id) : Leased s' id := by
  induction h with
  | refl => exact hleased
  | tail _ hlast ih =>
    cases hlast with
    | unlease id' hid' => exact leased_remove_prepared.2 ⟨fun heq => hid (heq ▸ hid'), ih⟩
    | advance => exact ih
    | _ => exact (leased_congr (by simp [insert_stream_object])).2 ih

theorem destroy_stream_objects_leases (keys : List StreamOffsetKey) (s : MetadataState) :
    (keys.foldl destroy_stream_object s).toLeaseTables = s.toLeaseTables :=
  foldl_unchanged (g := fun s : MetadataState => s.toLeaseTables)
    (fun s key => by simp [destroy_stream_object]) s keys

/-! ## One step -/

theorem Effect.leases (h : Effect noop s c s') (hlease : ¬c.IsLeaseCommand)
    (hobject : ¬c.IsObjectCommand) : s'.toLeaseTables = s.toLeaseTables := by
  cases h with
  | leased _ _ _ hc _ => exact absurd hc hlease
  | committed => exact absurd trivial hobject
  | compacted => exact absurd trivial hobject
  | created _ count =>
    exact create_next_unchanged (g := fun s : MetadataState => s.toLeaseTables) (fun _ => rfl) s
      count
  | trimmed => rw [destroy_stream_objects_leases]; rfl
  | deleted => rw [destroy_stream_objects_leases]; rfl
  | cleaned p ids =>
    exact foldl_unchanged (g := fun s : MetadataState => s.toLeaseTables)
      (f := remove_destroyed) (fun _ _ => rfl) s ids
  | _ => rfl

/-- A lease is kept unless its id is committed or named by a compaction that commits nothing, or it
is due. -/
theorem leased_dispatch (hs : s.Wf) (h : dispatch noop s c = .ok (s', r))
    (hcommits : ¬Commits noop id c) (hnoop : id ≠ noop)
    (hdue : ∀ p now_ms, c = .expirePreparedObjects p now_ms →
      ∀ deadline, s.prepared.get id = some deadline → now_ms < deadline)
    (hleased : Leased s id) : Leased s' id := by
  have hother : ¬c.IsLeaseCommand → ¬c.IsObjectCommand → Leased s' id := fun hl ho =>
    (leased_congr ((dispatch_effect h).leases hl ho)).2 hleased
  cases c with
  | prepareObject => exact (prepare_object_leases h).2.2 id hleased
  | expirePreparedObjects p now_ms =>
    obtain ⟨deadline, hlease⟩ := leased_iff.1 hleased
    exact expire_prepared_objects_leases hs h hlease (hdue p now_ms rfl deadline hlease)
  | commitStreamSetObject p request now_ms =>
    refine Writes.leased (C := fun id => Commits noop id
      (.commitStreamSetObject p request now_ms)) (R := Any) hcommits
        (commit_stream_set_object_writes ?_ ?_ (fun _ _ => trivial) h) hleased
    · exact fun hne => .inl ⟨hne, rfl⟩
    · exact fun object hmem => .inr ⟨object, hmem, rfl⟩
  -- A stream compaction drops the lease of its output, the lease of `noop` too.
  | compactStreamObject p request now_ms =>
    refine Writes.leased (C := (· = request.object_id)) (R := Any) (fun hid => ?_)
      (compact_stream_object_writes rfl h) hleased
    exact hcommits ⟨hid ▸ hnoop, hid⟩
  | _ => exact hother (fun h => h) (fun h => h)

theorem live_of_commits (hs : s.Wf) (h : dispatch noop s c = .ok (s', r))
    (hcommits : Commits noop id c) : Live s' id ∨ Marked s' id := by
  have hs' : s'.Wf := (dispatch_effect h).wf hs
  cases c with
  | commitStreamSetObject p request now_ms =>
    obtain ⟨data_time_ms, last_write_ms, hobjects⟩ := commit_objects hs h
    rcases hcommits with ⟨hne, rfl⟩ | ⟨object, hmem, rfl⟩
    · have hset := hobjects.sets request.object_id
      rw [if_pos ⟨hne, rfl⟩] at hset
      exact .inl ((live_iff hs').2 (.inl ⟨_, hset⟩))
    · obtain ⟨row, hrow⟩ := hobjects.listed hmem
      exact .inl ((live_iff hs').2 (.inr ⟨_, row, hrow, rfl⟩))
  | compactStreamObject p request now_ms =>
    obtain ⟨last_write_ms, hobjects⟩ := compact_objects hs h
    obtain ⟨hne, rfl⟩ := hcommits
    by_cases hsource : request.object_id ∈ request.source_object_ids
    · exact .inr ((hobjects.marked _).2 (.inl hsource))
    · have hrow := hobjects.objects request.output.key
      rw [if_neg fun hout => hsource hout.2, if_pos ⟨hne, rfl⟩] at hrow
      exact .inl ((live_iff hs').2 (.inr ⟨request.output.key, _, hrow, rfl⟩))
  | _ => exact hcommits.elim

theorem ObjectStep.live_or_marked (hs : s.Wf) (hs' : s'.Wf)
    (hstep : ObjectStep noop s s' c) (hlive : Live s id) : Live s' id ∨ Marked s' id := by
  rw [live_iff hs] at hlive
  rw [live_iff hs']
  cases hstep with
  | same _ hobjects => rw [hobjects]; exact .inl hlive
  | destroyed _ keys hsets _ hobjects hmarked =>
    rcases hlive with hset | ⟨key, row, hrow, rfl⟩
    · rw [hsets]; exact .inl (.inl hset)
    · by_cases hkey : ∃ k ∈ keys, key.object_id = k.object_id
      · exact .inr ((hmarked _).2 (.inl hkey))
      · exact .inl (.inr ⟨key, row, by rw [hobjects, if_neg hkey, hrow], rfl⟩)
  | committed p request now_ms hok =>
    obtain ⟨data_time_ms, last_write_ms, hobjects⟩ := commit_objects hs hok
    rcases hlive with ⟨row, hset⟩ | ⟨key, row, hrow, rfl⟩
    · by_cases hsource : id ∈ request.compacted_object_ids
      · exact .inr ((hobjects.marked id).2 (.inl hsource))
      · have hget := hobjects.sets id
        rw [if_neg hsource, hset] at hget
        split_ifs at hget
        · exact .inl (.inl ⟨_, hget⟩)
        · exact .inl (.inl ⟨_, hget⟩)
    · have hget := hobjects.objects key
      rw [hrow] at hget
      cases hfind : request.stream_objects.reverse.find? fun object => object.key = key with
      | none => rw [hfind] at hget; exact .inl (.inr ⟨key, _, hget, rfl⟩)
      | some object => rw [hfind] at hget; exact .inl (.inr ⟨key, _, hget, rfl⟩)
  | compacted p request now_ms hok =>
    obtain ⟨last_write_ms, hobjects⟩ := compact_objects hs hok
    rcases hlive with hset | ⟨key, row, hrow, rfl⟩
    · rw [hobjects.sets]; exact .inl (.inl hset)
    · by_cases hsource : key.object_id ∈ request.source_object_ids
      · exact .inr ((hobjects.marked _).2 (.inl hsource))
      · have hget := hobjects.objects key
        rw [if_neg fun hdrop => hsource hdrop.2, hrow] at hget
        split_ifs at hget
        · exact .inl (.inr ⟨key, _, hget, rfl⟩)
        · exact .inl (.inr ⟨key, _, hget, rfl⟩)

theorem live_or_marked_step (hs : s.Wf) (c : MetadataCommand) (hlive : Live s id) :
    Live (step noop s c) id ∨ Marked (step noop s c) id := by
  rcases step_effect s c with hsame | ⟨-, -, heffect⟩
  · rw [hsame]; exact .inl hlive
  · exact (heffect.objectStep hs).live_or_marked hs (step_wf hs c) hlive

/-! ## Whole runs -/

theorem live_or_marked_history (hij : i ≤ j) (hlive : Live (history noop log i) id) :
    Live (history noop log j) id ∨
      ∃ k ≤ j, Marked (history noop log k) id := by
  by_cases hend : Live (history noop log j) id
  · exact .inl hend
  · obtain ⟨k, c, -, hkj, hc, hbefore, hlost⟩ :=
      Run.exists_step_of_lost (P := fun s => Live s id) hij hlive hend
    have hmarked := (live_or_marked_step (history_wf log k) c hbefore).resolve_left hlost
    exact .inr ⟨k + 1, hkj, by rw [history_succ hc]; exact hmarked⟩

/-- What happened to a reserved id before step `i`: it was committed, or its lease is held. -/
theorem UploadsKeepLeases.committed_or_leased (h : UploadsKeepLeases noop log)
    (hid : HandedOut noop log i id) :
    (∃ k < i, ∃ c, Accepted noop log k c ∧ Commits noop id c) ∨
      Leased (history noop log i) id := by
  have hnoop : id ≠ noop := fun heq => h.noop i (heq ▸ hid)
  obtain ⟨k, hki, p, count, ttl_ms, now_ms, first, hc, hr, hlo, hhi⟩ := hid
  obtain ⟨-, hd⟩ := apply_ok hr
  obtain ⟨hfirst, hleases, -⟩ := prepare_object_leases hd
  cases hfirst
  by_cases hcommitted :
      ∃ k < i, ∃ c, Accepted noop log k c ∧ Commits noop id c
  · exact .inl hcommitted
  -- From the reservation on, every step keeps the lease.
  refine .inr (Run.after_of_le (P := fun s => Leased s id) hki ?_ fun m c hkm hmi hc hleased => ?_)
  · have hstart : Leased (step noop (history noop log k)
      (.prepareObject p count ttl_ms now_ms)) id := hleases id hlo hhi
    rw [← history_succ hc] at hstart
    exact hstart
  · refine step_of_dispatch (P := fun s => Leased s id) hleased fun s' r hact hd => ?_
    have hacc : Accepted noop log m c :=
      ⟨hc, r, congrArg Prod.snd (apply_of_dispatch hact hd)⟩
    refine leased_dispatch (history_wf log m) hd (fun hcommits => ?_) hnoop (fun p now_ms hexp => ?_)
      hleased
    · exact hcommitted ⟨m, hmi, c, hacc, hcommits⟩
    · intro deadline hlease
      exact h.no_expiry m p now_ms (hexp ▸ hacc) id deadline hlease

/-- While uploads keep to their leases, no reserved id leaks, and what is committed was leased. -/
theorem reserved_ids_accounted (noop : ℕ) (log : List MetadataCommand)
    (h : UploadsKeepLeases noop log) : ReservedIdsAccounted noop log where
  accounted := by
    intro i id hid
    rcases h.committed_or_leased hid with ⟨k, hki, c, hacc, hcommits⟩ | hleased
    · obtain ⟨-, r, hd⟩ := hacc.dispatch
      rcases live_of_commits (history_wf log k) hd hcommits with hlive | hmarked
      · exact .inr (live_or_marked_history hki hlive)
      · exact .inr (.inr ⟨k + 1, hki, hmarked⟩)
    · exact .inl hleased
  expired_marked := by
    intro i p now_ms id deadline hacc hlease hdue
    have := h.no_expiry i p now_ms hacc id deadline hlease
    omega
  committed_leased := by
    intro i c id hacc hcommits
    rcases h.committed_or_leased (h.reserved i c id hacc hcommits) with
      ⟨k, hki, c', hacc', hcommits'⟩ | hleased
    · exact absurd hcommits (h.once k i c' c id hki hacc' hcommits' hacc)
    · exact hleased

/-- Two ids are reserved, both are committed by one command, and the expiry comes early. -/
def uploads_in_time : List MetadataCommand :=
  [.registerNode 1 0 "a" 1 .empty "wal", .createStream ⟨1, 0⟩, .openStream ⟨1, 0⟩ 0 1,
    .prepareObject ⟨1, 0⟩ 2 10 0,
    .commitStreamSetObject ⟨1, 0⟩ ⟨0, 8, 0, [⟨0, 1, 0, 4, 8⟩], [⟨1, 8, 0, 4, 8, 0⟩], []⟩ 1,
    .prepareObject ⟨1, 0⟩ 1 10 2, .expirePreparedObjects ⟨1, 0⟩ 5]

theorem commits_in_time {c : MetadataCommand} (hc : uploads_in_time[i]? = some c)
    (hcommits : Commits 1000 id c) : i = 4 ∧ (id = 0 ∨ id = 1) := by
  have hi : i < 7 := (List.getElem?_eq_some_iff.1 hc).1
  interval_cases i <;> cases hc <;> try exact False.elim hcommits
  rcases hcommits with ⟨-, rfl⟩ | ⟨object, hobject, rfl⟩
  · simp
  · simp_all

theorem uploads_in_time_keep_leases : UploadsKeepLeases 1000 uploads_in_time where
  no_expiry := by
    rintro i p now_ms ⟨hc, -⟩ id deadline hlease
    have hi : i < 7 := (List.getElem?_eq_some_iff.1 hc).1
    interval_cases i <;> cases hc
    have hall : ∀ e ∈ (history 1000 uploads_in_time 6).prepared.entries, 5 < e.2 := by decide
    exact hall (id, deadline) (mem_entries.2 hlease)
  reserved := by
    rintro i c id ⟨hc, -⟩ hcommits
    obtain ⟨rfl, hid⟩ := commits_in_time hc hcommits
    exact ⟨3, by decide, ⟨1, 0⟩, 2, 10, 0, 0, rfl, by decide, by omega, by omega⟩
  once := by
    rintro i j c c' id hij ⟨hc, -⟩ hcommits ⟨hc', -⟩ hcommits'
    have h := (commits_in_time hc hcommits).1
    have h' := (commits_in_time hc' hcommits').1
    omega
  noop := by
    rintro i ⟨k, -, p, count, ttl_ms, now_ms, first, hc, hr, -, hhi⟩
    have hk : k < 7 := (List.getElem?_eq_some_iff.1 hc).1
    interval_cases k <;> cases hc
    · have hfirst : (apply 1000 (history 1000 uploads_in_time 3)
          (.prepareObject ⟨1, 0⟩ 2 10 0)).2 = .ok (.id 0) := by decide
      cases hfirst.symm.trans hr
      omega
    · have hfirst : (apply 1000 (history 1000 uploads_in_time 5)
          (.prepareObject ⟨1, 0⟩ 1 10 2)).2 = .ok (.id 2) := by decide
      cases hfirst.symm.trans hr
      omega

theorem reserved_ids_accounted_in_time :
    UploadsKeepLeases 1000 uploads_in_time ∧ ReservedIdsAccounted 1000 uploads_in_time :=
  ⟨uploads_in_time_keep_leases, reserved_ids_accounted 1000 uploads_in_time
    uploads_in_time_keep_leases⟩

/-- An id is reserved, its lease runs out, and the object is committed after that. -/
def upload_too_late : List MetadataCommand :=
  [.registerNode 1 0 "a" 1 .empty "wal", .createStream ⟨1, 0⟩, .openStream ⟨1, 0⟩ 0 1,
    .prepareObject ⟨1, 0⟩ 1 10 0, .expirePreparedObjects ⟨1, 0⟩ 10,
    .commitStreamSetObject ⟨1, 0⟩ ⟨0, 8, 0, [⟨0, 1, 0, 8, 8⟩], [], []⟩ 11]

/-- Nothing remembers the id after the expiry, and the commit is accepted without a lease. -/
theorem late_upload_leaks :
    HandedOut 1000 upload_too_late 5 0 ∧ ¬Leased (history 1000 upload_too_late 5) 0 ∧
    ¬Live (history 1000 upload_too_late 5) 0 ∧
    (∀ k ≤ 5, ¬Marked (history 1000 upload_too_late k) 0) ∧
    (∃ c, Accepted 1000 upload_too_late 5 c ∧ Commits 1000 0 c) ∧
    ¬ReservedIdsAccounted 1000 upload_too_late := by
  have hout : HandedOut 1000 upload_too_late 5 0 :=
    ⟨3, by decide, ⟨1, 0⟩, 1, 10, 0, 0, rfl, by decide, by decide, by decide⟩
  have hleased : ¬Leased (history 1000 upload_too_late 5) 0 := by decide
  have hlive : ¬Live (history 1000 upload_too_late 5) 0 := by decide
  have hqueue : ∀ k ≤ 5, (history 1000 upload_too_late k).mark_destroyed = .empty := by decide
  have hmarked : ∀ k ≤ 5, ¬Marked (history 1000 upload_too_late k) 0 := by
    rintro k hk ⟨seq, op, h⟩
    rw [hqueue k hk] at h
    simp at h
  refine ⟨hout, hleased, hlive, hmarked, ⟨_, ⟨rfl, .unit, by decide⟩, .inl ⟨by decide, rfl⟩⟩,
    fun h => ?_⟩
  rcases h.accounted 5 0 hout with h | h | ⟨k, hk, h⟩
  · exact hleased h
  · exact hlive h
  · exact hmarked k hk h

end PicoMq.Metadata
