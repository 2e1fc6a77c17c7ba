import PicoMq.Library.Proofs.RunProofs
import PicoMq.Metadata.History
import PicoMq.Metadata.Proofs.StateProofs

/-!
# Proofs: when a command is accepted and what it does

One inversion lemma per function of the transition function. Later proofs go through these and never
unfold a command.
-/

namespace PicoMq.Metadata

open Except List MetadataState OrdMap

variable {s s' : MetadataState} {r : MetadataResult} {sid : ℕ} {n epoch : ℤ}
variable {request : CommitStreamSetObjectRequest} {compact : Bool} {u : Unit} {p : Proposer}

/-! ## Checks -/

theorem require_stream_eq_ok_iff {row : StreamRow} :
    require_stream s sid = .ok row ↔ s.streams.get sid = some row := by
  unfold require_stream
  cases s.streams.get sid <;> simp

theorem check_owner_eq_ok_iff {stream : StreamRow} :
    check_owner s stream n = .ok u ↔ stream.node_id = n ∨ node_live s stream.node_id = false := by
  unfold check_owner
  split_ifs with h <;> simp_all

/-- A node acts at `epoch`: it is registered at that epoch and not fenced. -/
def Acts (s : MetadataState) (p : Proposer) : Prop :=
  ∃ node, s.nodes.get p.node_id = some node ∧ node.epoch = p.node_epoch ∧ node.fenced = false

theorem check_proposer_eq_ok_iff :
    check_proposer s p = .ok u ↔ Acts s p := by
  unfold check_proposer Acts
  cases hnode : s.nodes.get p.node_id with
  | none => simp [hnode]
  | some node =>
    simp only [hnode]
    split_ifs <;> simp_all

theorem check_object_id_free_eq_ok_iff {id : ℕ} {new_key : Option StreamOffsetKey} :
    check_object_id_free s id new_key = .ok u ↔
      s.stream_set_objects.get id = none ∧
        ∀ key, s.stream_object_ids.get id = some key → new_key = some key := by
  unfold check_object_id_free
  cases hset : s.stream_set_objects.get id with
  | some row => simp [contains_key, hset]
  | none =>
    simp only [contains_key, hset, Option.isSome_none, Bool.false_eq_true, if_false]
    cases hid : s.stream_object_ids.get id with
    | none => simp
    | some key =>
      dsimp only
      split_ifs <;> simp_all

/-! ## Streams -/

theorem place_stream_ok {requested : Option ℤ}
    (h : place_stream s sid requested = .ok (s', r)) :
    ∃ row, s.streams.get sid = some row ∧
      ((row.state = .opened ∨ node_live s row.node_id = true) ∧ s' = s ∨
        row.state = .closed ∧ node_live s row.node_id = false ∧
          ∃ winner, placement_winner s requested = some winner ∧
            s' = s.put_stream { row with node_id := winner }) := by
  simp only [place_stream, bind_eq_ok_iff, require_stream_eq_ok_iff] at h
  obtain ⟨row, hrow, h⟩ := h
  refine ⟨row, hrow, ?_⟩
  split_ifs at h with hkeep
  · cases h; exact .inl ⟨hkeep, rfl⟩
  · obtain ⟨hstate, hlive⟩ := not_or.1 hkeep
    cases hw : placement_winner s requested with
    | none => simp [hw] at h
    | some winner =>
      simp only [hw] at h
      cases h
      refine .inr ⟨?_, by simpa using hlive, winner, rfl, rfl⟩
      cases hs : row.state with
      | closed => rfl
      | opened => exact absurd hs hstate

/-- An accepted open repeats the current one, or takes a closed stream at a higher epoch. -/
theorem open_stream_ok (h : open_stream s n sid epoch = .ok (s', r)) :
    ∃ row, s.streams.get sid = some row ∧
      (row.epoch = epoch ∧ row.state = .opened ∧ row.node_id = n ∧ s' = s ∨
        row.epoch < epoch ∧ row.state = .closed ∧
          s' = { s.put_stream { row with epoch, state := .opened, node_id := n } with
            epochs := s.epochs.insert (toLex (sid, epoch)) row.end_offset }) := by
  simp only [open_stream, bind_eq_ok_iff, require_stream_eq_ok_iff] at h
  obtain ⟨row, hrow, h⟩ := h
  refine ⟨row, hrow, ?_⟩
  split_ifs at h with hlt heq hsame hopen
  · cases h; exact .inl ⟨heq, hsame.1, hsame.2, rfl⟩
  · cases h
    refine .inr ⟨by omega, ?_, rfl⟩
    cases hs : row.state with
    | closed => rfl
    | opened => exact absurd hs hopen

/-- The keys of the stream objects that a trim to `offset` drops. -/
def dead_objects (s : MetadataState) (sid offset : ℕ) : List StreamOffsetKey :=
  ((s.stream_objects_of sid).filter fun e => e.2.range.end_offset ≤ offset).map Prod.fst

def all_objects (s : MetadataState) (sid : ℕ) : List StreamOffsetKey :=
  (s.stream_objects_of sid).map Prod.fst

theorem mem_dead_objects {offset : ℕ} {key : StreamOffsetKey} :
    key ∈ dead_objects s sid offset ↔
      key.stream_id = sid ∧ ∃ row, s.stream_objects.get key = some row ∧
        row.range.end_offset ≤ offset := by
  simp only [dead_objects, stream_objects_of, mem_map, mem_filter, Prod.exists,
    mem_scan, decide_eq_true_eq]
  constructor
  · rintro ⟨k, row, ⟨⟨hrow, hk⟩, hend⟩, rfl⟩; exact ⟨hk, row, hrow, hend⟩
  · rintro ⟨hk, row, hrow, hend⟩; exact ⟨key, row, ⟨⟨hrow, hk⟩, hend⟩, rfl⟩

theorem mem_all_objects {key : StreamOffsetKey} :
    key ∈ all_objects s sid ↔ key.stream_id = sid ∧ ∃ row, s.stream_objects.get key = some row := by
  simp only [all_objects, stream_objects_of, mem_map, Prod.exists, mem_scan,
    decide_eq_true_eq]
  constructor
  · rintro ⟨k, row, ⟨hrow, hk⟩, rfl⟩; exact ⟨hk, row, hrow⟩
  · rintro ⟨hk, row, hrow⟩; exact ⟨key, row, ⟨hrow, hk⟩, rfl⟩

theorem foldl_remove_epochs {α : Type} (f : α → ℕ ×ₗ ℤ) (l : List α) (s : MetadataState) :
    l.foldl (fun s a => { s with epochs := s.epochs.remove (f a) }) s =
      { s with epochs := l.foldl (fun m a => m.remove (f a)) s.epochs } :=
  foldl_hom (fun m => { s with epochs := m }) fun _ _ => rfl

def trimmed_epochs (s : MetadataState) (sid offset : ℕ) : OrdMap (ℕ ×ₗ ℤ) ℕ :=
  (covered_epochs s sid offset).foldl (fun m epoch => m.remove (toLex (sid, epoch))) s.epochs

/-- The recorded epochs without those of a stream. -/
def other_epochs (s : MetadataState) (sid : ℕ) : OrdMap (ℕ ×ₗ ℤ) ℕ :=
  (s.stream_epochs sid).foldl (fun m e => m.remove (toLex (sid, e.1))) s.epochs

theorem trim_stream_ok {offset : ℕ} (h : trim_stream s n sid epoch offset = .ok (s', r)) :
    ∃ row, s.streams.get sid = some row ∧ row.epoch = epoch ∧
      (row.node_id = n ∨ node_live s row.node_id = false) ∧
      row.start_offset ≤ offset ∧ offset ≤ row.end_offset ∧
      s' = (dead_objects s sid offset).foldl destroy_stream_object
        { s.put_stream { row with start_offset := offset } with
          epochs := trimmed_epochs s sid offset } := by
  simp only [trim_stream, bind_eq_ok_iff, require_stream_eq_ok_iff] at h
  obtain ⟨row, hrow, h⟩ := h
  by_cases hepoch : row.epoch = epoch
  · rw [if_neg (not_not.2 hepoch)] at h
    obtain ⟨_, howner, h⟩ := bind_eq_ok_iff.1 h
    rw [check_owner_eq_ok_iff] at howner
    split_ifs at h with hstart hend
    rw [foldl_remove_epochs] at h
    cases h
    exact ⟨row, hrow, hepoch, howner, not_lt.1 hstart, not_lt.1 hend, rfl⟩
  · rw [if_pos hepoch] at h; cases h

theorem close_stream_ok (h : close_stream s n sid epoch = .ok (s', r)) :
    ∃ row, s.streams.get sid = some row ∧ row.epoch = epoch ∧
      (s' = s ∨
        row.state = .opened ∧ (row.node_id = n ∨ node_live s row.node_id = false) ∧
          s' = s.put_stream { row with state := .closed }) := by
  simp only [close_stream, bind_eq_ok_iff, require_stream_eq_ok_iff] at h
  obtain ⟨row, hrow, h⟩ := h
  by_cases hsame : row.state = .closed ∧ row.epoch = epoch
  · rw [if_pos hsame] at h
    cases h
    exact ⟨row, hrow, hsame.2, .inl rfl⟩
  · rw [if_neg hsame] at h
    obtain ⟨_, howner, h⟩ := bind_eq_ok_iff.1 h
    rw [check_owner_eq_ok_iff] at howner
    split_ifs at h with hopen hepoch
    cases h
    exact ⟨row, hrow, not_not.1 hepoch, .inr ⟨not_not.1 hopen, howner, rfl⟩⟩

theorem transfer_stream_ok {source target : ℤ}
    (h : transfer_stream s sid source target = .ok (s', r)) :
    ∃ row, s.streams.get sid = some row ∧
      (s.pending_transfers.get sid = some ⟨source, target⟩ ∧ s' = s ∨
        s.pending_transfers.get sid = none ∧ source ≠ target ∧ row.state = .opened ∧
          row.node_id = source ∧
          s' = { s with pending_transfers := s.pending_transfers.insert sid ⟨source, target⟩ }) := by
  simp only [transfer_stream, bind_eq_ok_iff, require_stream_eq_ok_iff] at h
  obtain ⟨row, hrow, h⟩ := h
  refine ⟨row, hrow, ?_⟩
  cases hpending : s.pending_transfers.get sid with
  | some pending =>
    simp only [hpending] at h
    split_ifs at h with hsame
    cases h
    obtain ⟨rfl, rfl⟩ := hsame
    exact .inl ⟨rfl, rfl⟩
  | none =>
    simp only [hpending] at h
    split_ifs at h with hne hlive hon
    cases h
    rw [not_or, not_not, not_not] at hon
    exact .inr ⟨rfl, hne, hon.1, hon.2, rfl⟩

theorem complete_transfer_ok (h : complete_transfer s sid epoch = .ok (s', r)) :
    ∃ pending row, s.pending_transfers.get sid = some pending ∧ s.streams.get sid = some row ∧
      row.state = .closed ∧ row.epoch = epoch ∧
      s' = { s.put_stream { row with node_id := pending.to_node } with
        pending_transfers := s.pending_transfers.remove sid } := by
  unfold complete_transfer at h
  cases hpending : s.pending_transfers.get sid with
  | none => simp [hpending] at h
  | some pending =>
    simp only [hpending, bind_eq_ok_iff, require_stream_eq_ok_iff] at h
    obtain ⟨row, hrow, h⟩ := h
    split_ifs at h with hstate hepoch
    cases h
    exact ⟨pending, row, rfl, hrow, not_not.1 hstate, not_not.1 hepoch, rfl⟩

theorem delete_stream_ok (h : delete_stream s n sid epoch = .ok (s', r)) :
    s.streams.get sid = none ∧ s' = s ∨
    ∃ row, s.streams.get sid = some row ∧
      (row.node_id = n ∨ node_live s row.node_id = false) ∧
      row.state = .closed ∧ row.epoch = epoch ∧
      s' = (all_objects s sid).foldl destroy_stream_object
        { s.remove_stream sid with
          pending_transfers := s.pending_transfers.remove sid, epochs := other_epochs s sid } := by
  unfold delete_stream at h
  cases hrow : s.streams.get sid with
  | none => simp only [hrow] at h; cases h; exact .inl ⟨rfl, rfl⟩
  | some row =>
    simp only [hrow, bind_eq_ok_iff, check_owner_eq_ok_iff] at h
    obtain ⟨-, howner, h⟩ := h
    split_ifs at h with hstate hepoch
    rw [foldl_remove_epochs] at h
    cases h
    exact .inr ⟨row, rfl, howner, not_not.1 hstate, not_not.1 hepoch, rfl⟩

def create_next (s : MetadataState) : MetadataState :=
  { s with next_stream_id := s.next_stream_id + 1 }.put_stream (new_stream_row s.next_stream_id)

theorem create_stream_ok (h : create_stream s = .ok (s', r)) : s' = create_next s := by
  cases h; rfl

theorem foldl_create (s : MetadataState) (count : ℕ) :
    { (range' s.next_stream_id count).foldl
        (fun s id => s.put_stream (new_stream_row id)) s with
      next_stream_id := s.next_stream_id + count } = create_next^[count] s := by
  induction count with
  | zero => rfl
  | succ count ih =>
    rw [Function.iterate_succ_apply', ← ih, range'_1_concat, foldl_append]
    rfl

theorem create_streams_ok {count : ℕ} (h : create_streams s count = .ok (s', r)) :
    s' = create_next^[count] s := by
  unfold create_streams at h
  split_ifs at h
  cases h
  exact foldl_create s count

/-! ## Objects -/

theorem foldl_put_prepared (ids : List ℕ) (deadline : ℤ) (s : MetadataState) :
    ids.foldl (fun s id => s.put_prepared id deadline) s =
      { s with
        toLeaseTables := ids.foldl (fun t id => t.put_prepared id deadline) s.toLeaseTables } :=
  foldl_hom (fun t => { s with toLeaseTables := t }) fun _ _ => rfl

theorem foldl_remove_prepared {α : Type} (f : α → ℕ) (l : List α) (s : MetadataState) :
    l.foldl (fun s a => s.remove_prepared (f a)) s =
      { s with toLeaseTables := l.foldl (fun t a => t.remove_prepared (f a)) s.toLeaseTables } :=
  foldl_hom (fun t => { s with toLeaseTables := t }) fun _ _ => rfl

theorem prepare_object_ok {count : ℕ} {ttl_ms now_ms : ℤ}
    (h : prepare_object s count ttl_ms now_ms = .ok (s', r)) :
    s' = { s with
      next_object_id := s.next_object_id + count
      toLeaseTables := (range' s.next_object_id count).foldl
        (fun t id => t.put_prepared id (now_ms + max ttl_ms 0)) s.toLeaseTables } := by
  unfold prepare_object at h
  split_ifs at h
  dsimp only at h
  rw [foldl_put_prepared] at h
  cases h
  rfl

theorem advance_end_offset_eq_ok_iff {start_offset end_offset : ℕ} :
    advance_end_offset s sid start_offset end_offset compact = .ok s' ↔
      ∃ row, s.streams.get sid = some row ∧
        (compact = true ∧ end_offset ≤ row.end_offset ∧ row.start_offset ≤ start_offset ∧ s' = s ∨
          compact = false ∧ row.end_offset = start_offset ∧
            s' = s.put_stream { row with end_offset }) := by
  simp only [advance_end_offset, bind_eq_ok_iff, require_stream_eq_ok_iff]
  refine exists_congr fun row => and_congr_right fun hrow => ?_
  cases compact with
  | true =>
    simp only [if_true, true_and, false_and, or_false, reduceCtorEq]
    split_ifs with hend hstart
    · simp [hend]
    · simp [hstart]
    · simp [not_lt.1 hend, not_lt.1 hstart, eq_comm]
  | false =>
    simp only [Bool.false_eq_true, if_false, false_and, false_or, true_and]
    split_ifs with hne
    · simp [hne]
    · simp [not_not.1 hne, eq_comm]

/-- The marks that `mark_destroy_objects` makes, in order. -/
def destroy_marks (ids : List ℕ) (ops : List CompactOperations) : List (ℕ × CompactOperations) :=
  if ops.isEmpty then ids.map fun id => (id, .delete) else ids.zip ops

theorem mark_destroy_objects_eq_ok_iff {ids : List ℕ} {ops : List CompactOperations} :
    mark_destroy_objects s ids ops = .ok s' ↔
      (ids = [] ∨ ops = [] ∨ ops.length = ids.length) ∧
        s' = (destroy_marks ids ops).foldl (fun s e => mark_destroyed s e.1 e.2) s := by
  unfold mark_destroy_objects destroy_marks
  cases ids with
  | nil => cases ops <;> simp [eq_comm]
  | cons id ids =>
    cases ops with
    | nil => simp [foldl_map, eq_comm]
    | cons op ops =>
      simp only [isEmpty_cons, Bool.false_eq_true, if_false, reduceCtorEq, false_or]
      split_ifs with hlen
      · simp only [hlen, false_and]
      · simp only [not_not.1 hlen, true_and, ok.injEq, eq_comm]

theorem compacted_source_eq_ok_iff {id : ℕ} {row : StreamSetObjectRow} :
    compacted_source s id = .ok row ↔ s.stream_set_objects.get id = some row := by
  unfold compacted_source
  cases s.stream_set_objects.get id <;> simp

theorem commit_set_object_eq_ok_iff {data_time_ms now_ms last_write_ms : ℤ} :
    commit_set_object s n request compact data_time_ms now_ms last_write_ms = .ok s' ↔
      s.stream_set_objects.get request.object_id = none ∧
      s.stream_object_ids.get request.object_id = none ∧
      ∃ t, request.stream_ranges.foldlM (fun s range =>
          advance_end_offset s range.stream_id range.start_offset range.end_offset compact)
          (s.remove_prepared request.object_id) = .ok t ∧ s' = t.put_stream_set_object
          (stream_set_object_row n request data_time_ms now_ms last_write_ms) := by
  simp only [commit_set_object, bind_eq_ok_iff, check_object_id_free_eq_ok_iff,
    reduceCtorEq, imp_false, exists_const, and_assoc, ok.injEq, eq_comm (a := s'),
    ← Option.eq_none_iff_forall_ne_some]

theorem commit_stream_object_eq_ok_iff {object : StreamObject}
    {data_time_ms now_ms last_write_ms : ℤ} :
    commit_stream_object compact data_time_ms now_ms last_write_ms s object = .ok s' ↔
      s.stream_set_objects.get object.object_id = none ∧
      (∀ key, s.stream_object_ids.get object.object_id = some key → key = object.key) ∧
      ∃ t, advance_end_offset (s.remove_prepared object.object_id) object.stream_id
          object.start_offset object.end_offset compact = .ok t ∧
        s' = insert_stream_object t object data_time_ms now_ms last_write_ms := by
  simp only [commit_stream_object, bind_eq_ok_iff, check_object_id_free_eq_ok_iff,
    Option.some.injEq, exists_const, and_assoc, ok.injEq, eq_comm (a := s'),
    eq_comm (a := object.key)]

section Noop

variable {noop : ℕ}

theorem redundant_commit_check_eq_ok_iff :
    redundant_commit_check noop s request = .ok u ↔
      (request.object_id ≠ noop → s.stream_set_objects.get request.object_id = none) ∧
      (request.object_id = noop → request.stream_objects = [] ∨ ∃ so ∈ request.stream_objects,
          stream_object_committed s so.stream_id so.object_id = false) := by
  unfold redundant_commit_check
  by_cases hnoop : request.object_id = noop
  · simp only [hnoop, ne_eq, not_true_eq_false, if_false, false_imp_iff, true_and, true_imp_iff]
    cases hobjects : request.stream_objects with
    | nil => simp
    | cons so rest =>
      simp only [isEmpty_cons, Bool.false_eq_true, if_false, reduceCtorEq, false_or]
      split_ifs with hall
      · simp only [false_iff, not_exists, not_and, Bool.not_eq_false]
        exact all_eq_true.1 hall
      · simp only [true_iff]
        rw [all_eq_true] at hall
        push Not at hall
        simpa using hall
  · simp only [hnoop, ne_eq, not_false_eq_true, if_true, true_imp_iff, false_imp_iff, and_true]
    cases hset : s.stream_set_objects.get request.object_id with
    | none => simp [contains_key, hset]
    | some row => simp [contains_key, hset]

/-- The timestamp of the data of a commit: the oldest among its sources. -/
def commit_data_time (sources : List StreamSetObjectRow) (now_ms : ℤ) : ℤ :=
  (sources.map fun owned => owned.object.data_timestamp_ms).foldl min now_ms

/-- The last write of a commit: the latest among its sources. -/
def commit_last_write (sources : List StreamSetObjectRow) (now_ms : ℤ) : ℤ :=
  ((sources.map (·.last_write_ms)).max?).getD now_ms

theorem commit_stream_set_object_eq_ok_iff {now_ms : ℤ} :
    commit_stream_set_object noop s n request now_ms = .ok (s', r) ↔
      redundant_commit_check noop s request = .ok () ∧
      ∃ sources t, request.compacted_object_ids.mapM (compacted_source s) = .ok sources ∧
        (request.object_id ≠ noop →
          commit_set_object (request.compacted_object_ids.foldl destroy_stream_set_object s) n
            request (!request.compacted_object_ids.isEmpty) (commit_data_time sources now_ms) now_ms
            (commit_last_write sources now_ms) = .ok t) ∧ (request.object_id = noop →
          t = request.compacted_object_ids.foldl destroy_stream_set_object s) ∧
        request.stream_objects.foldlM (commit_stream_object (!request.compacted_object_ids.isEmpty)
          (commit_data_time sources now_ms) now_ms (commit_last_write sources now_ms)) t =
            .ok s' ∧ r = .unit := by
  simp only [commit_stream_set_object, bind_eq_ok_iff]
  constructor
  · rintro ⟨_, hred, sources, hsources, t, ht, s'', hs'', hok⟩
    cases hok
    refine ⟨hred, sources, t, hsources, fun hne => ?_, fun heq => ?_, hs'', rfl⟩
    · rwa [if_pos hne] at ht
    · rw [if_neg (not_not.2 heq)] at ht
      cases ht; rfl
  · rintro ⟨hred, sources, t, hsources, hset, hnoop, hobjects, rfl⟩
    refine ⟨(), hred, sources, hsources, t, ?_, s', hobjects, rfl⟩
    split_ifs with hne
    · exact hset hne
    · rw [hnoop (not_not.1 hne)]

/-- The state of a compaction after its output is in and its sources are out. -/
def compacted (noop : ℕ) (s : MetadataState) (request : CompactStreamObjectRequest)
    (now_ms : ℤ) : MetadataState :=
  request.source_object_ids.foldl (remove_compacted_source request.stream_id)
    (if request.object_id ≠ noop then
      insert_stream_object (s.remove_prepared request.object_id) request.output now_ms now_ms
        (compacted_last_write (s.remove_prepared request.object_id) request.source_object_ids now_ms)
    else s.remove_prepared request.object_id)

theorem compact_stream_object_eq_ok_iff {request : CompactStreamObjectRequest} {now_ms : ℤ} :
    compact_stream_object noop s request now_ms = .ok (s', r) ↔
      (request.object_id ≠ noop →
        stream_object_committed s request.stream_id request.object_id = false) ∧
      (∃ row, s.streams.get request.stream_id = some row ∧
        row.epoch = asI64 request.stream_epoch ∧ request.end_offset ≤ row.end_offset ∧
        row.start_offset ≤ request.start_offset) ∧
      (request.object_id ≠ noop →
        check_object_id_free s request.object_id (some request.output.key) = .ok ()) ∧
      mark_destroy_objects (compacted noop s request now_ms) request.source_object_ids
        request.operations = .ok s' ∧ r = .unit := by
  unfold compact_stream_object
  dsimp only
  by_cases hred : request.object_id ≠ noop ∧
      stream_object_committed s request.stream_id request.object_id = true
  · rw [if_pos hred]
    simp [hred.1, hred.2]
  · rw [if_neg hred, bind_eq_ok_iff]
    have hred' : request.object_id ≠ noop →
        stream_object_committed s request.stream_id request.object_id = false := by
      simpa using hred
    simp only [require_stream_eq_ok_iff, eq_true hred', true_and, ← exists_and_right, and_assoc]
    refine exists_congr fun row => and_congr_right fun hrow => ?_
    have hunit : ∀ x : Except MetadataError MetadataState,
        (x >>= fun t => ok (t, MetadataResult.unit)) = .ok (s', r) ↔
          x = .ok s' ∧ r = .unit := fun x => by
      rw [bind_eq_ok_iff]
      constructor
      · rintro ⟨t, ht, hok⟩; cases hok; exact ⟨ht, rfl⟩
      · rintro ⟨ht, rfl⟩; exact ⟨s', ht, rfl⟩
    split_ifs with hepoch hend hstart hnoop
    · simp [hepoch]
    · simp [hend]
    · simp [hstart]
    · rw [bind_eq_ok_iff]
      simp only [hunit, Unique.exists_iff, not_not.1 hepoch, not_lt.1 hend, not_lt.1 hstart, hnoop,
        compacted, ne_eq, not_false_eq_true, if_true, true_and, true_imp_iff]
    · rw [hunit]
      simp only [not_not.1 hepoch, not_lt.1 hend, not_lt.1 hstart, hnoop, compacted,
        if_false, true_and, false_imp_iff]

/-! ## The transition function -/

variable {c : MetadataCommand}

/-- An accepted command has a proposer that acts, registrations apart, and was dispatched. -/
theorem apply_ok (h : (apply noop s c).2 = .ok r) :
    (∀ p, c.proposer = some p → Acts s p) ∧
      dispatch noop s c = .ok ((apply noop s c).1, r) := by
  have hinner : apply_inner noop s c = .ok ((apply noop s c).1, r) := by
    unfold apply at h ⊢
    cases hi : apply_inner noop s c with
    | error e => simp [hi] at h
    | ok next => simp only [hi, ok.injEq] at h ⊢; rw [← h]
  unfold apply_inner at hinner
  cases hp : c.proposer with
  | none => rw [hp] at hinner; exact ⟨by simp, hinner⟩
  | some p =>
    rw [hp] at hinner
    obtain ⟨_, hact, hd⟩ := bind_eq_ok_iff.1 hinner
    exact ⟨fun p' hp' => by cases hp'; exact check_proposer_eq_ok_iff.1 hact, hd⟩

theorem apply_error {e : MetadataError} (h : (apply noop s c).2 = .error e) :
    (apply noop s c).1 = s := by
  unfold apply at h ⊢
  cases hi : apply_inner noop s c with
  | error e => rfl
  | ok next => simp [hi] at h

theorem apply_of_dispatch (hact : ∀ p, c.proposer = some p → Acts s p)
    (hd : dispatch noop s c = .ok (s', r)) : apply noop s c = (s', .ok r) := by
  have hinner : apply_inner noop s c = .ok (s', r) := by
    unfold apply_inner
    cases hp : c.proposer with
    | none => exact hd
    | some p => exact bind_eq_ok_iff.2 ⟨(), check_proposer_eq_ok_iff.2 (hact p hp), hd⟩
  unfold apply
  rw [hinner]

theorem apply_of_not_acts (hp : c.proposer = some p) (hact : ¬Acts s p) :
    ∃ e, apply noop s c = (s, .error e) := by
  cases hr : (apply noop s c).2 with
  | error e => exact ⟨e, Prod.ext (apply_error hr) hr⟩
  | ok r => exact absurd ((apply_ok hr).1 p hp) hact

theorem accepted_iff (hp : c.proposer = some p) :
    (∃ r, (apply noop s c).2 = .ok r) ↔
      Acts s p ∧ ∃ s' r, dispatch noop s c = .ok (s', r) := by
  constructor
  · rintro ⟨r, hr⟩
    exact ⟨(apply_ok hr).1 p hp, _, r, (apply_ok hr).2⟩
  · rintro ⟨hact, s', r, hd⟩
    refine ⟨r, ?_⟩
    rw [apply_of_dispatch (fun q hq => ?_) hd]
    cases hp.symm.trans hq
    exact hact

/-- The entry that the command is to put. -/
def MetadataCommand.kv_entry : MetadataCommand → Option (String × Bytes)
  | .putKv _ key value | .putKvIfAbsent _ key value | .putKvIfMatches _ key _ value =>
    some (key, value)
  | _ => none

/-- Everything an accepted command can do to the state, with its guards. -/
inductive Effect (noop : ℕ) (s : MetadataState) : MetadataCommand → MetadataState → Prop
  | same (c : MetadataCommand) : Effect noop s c s
  | registered (node_id node_epoch : ℤ) (http_address : String) (slots : ℕ)
      (protocol_addresses : OrdMap String String) (wal : String) (row : NodeRow)
      (hepoch : row.epoch = (s.nodes.get node_id).elim node_epoch fun old =>
        max node_epoch (wrapI64 (old.epoch + 1)))
      (hfenced : row.fenced = false)
      (hbeats : row.heartbeats = (s.nodes.get node_id).elim 0 (·.heartbeats))
      (hid : row.node_id = node_id) (r : MetadataResult)
      (hok : register_node s node_id node_epoch http_address slots protocol_addresses wal =
        .ok ({ s with nodes := s.nodes.insert node_id row }, r)) :
      Effect noop s
        (.registerNode node_id node_epoch http_address slots protocol_addresses wal)
        { s with nodes := s.nodes.insert node_id row }
  | nodeKept (c : MetadataCommand) (node_id : ℤ) (old : NodeRow) (slots heartbeats : ℕ)
      (hold : s.nodes.get node_id = some old)
      (hbeats : heartbeats = old.heartbeats + c.beats node_id) :
      Effect noop s c
        { s with nodes := s.nodes.insert node_id { old with slots, heartbeats } }
  | nodeFenced (p : Proposer) (node_id : ℤ) (heartbeats : ℕ) (old : NodeRow)
      (hold : s.nodes.get node_id = some old) (hlive : old.fenced = false) :
      Effect noop s (.fenceNode p node_id old.epoch heartbeats)
        { s with nodes := s.nodes.insert node_id { old with fenced := true } }
  | created (c : MetadataCommand) (count : ℕ) : Effect noop s c (create_next^[count] s)
  | placed (p : Proposer) (sid : ℕ) (requested : Option ℤ) (row : StreamRow) (winner : ℤ)
      (hrow : s.streams.get sid = some row) (hstate : row.state = .closed)
      (hdead : node_live s row.node_id = false)
      (hwinner : placement_winner s requested = some winner) :
      Effect noop s (.placeStream p sid requested)
        (s.put_stream { row with node_id := winner })
  | opened (p : Proposer) (sid : ℕ) (epoch : ℤ) (row : StreamRow)
      (hrow : s.streams.get sid = some row) (hepoch : row.epoch < epoch)
      (hstate : row.state = .closed) :
      Effect noop s (.openStream p sid epoch)
        { s.put_stream { row with epoch, state := .opened, node_id := p.node_id } with
          epochs := s.epochs.insert (toLex (sid, epoch)) row.end_offset }
  | trimmed (p : Proposer) (sid offset : ℕ) (row : StreamRow)
      (hrow : s.streams.get sid = some row)
      (howner : row.node_id = p.node_id ∨ node_live s row.node_id = false)
      (hstart : row.start_offset ≤ offset) (hend : offset ≤ row.end_offset) :
      Effect noop s (.trimStream p sid row.epoch offset)
        ((dead_objects s sid offset).foldl destroy_stream_object
          { s.put_stream { row with start_offset := offset } with
            epochs := trimmed_epochs s sid offset })
  | closed (p : Proposer) (sid : ℕ) (row : StreamRow) (hrow : s.streams.get sid = some row)
      (hstate : row.state = .opened)
      (howner : row.node_id = p.node_id ∨ node_live s row.node_id = false) :
      Effect noop s (.closeStream p sid row.epoch)
        (s.put_stream { row with state := .closed })
  | deleted (p : Proposer) (sid : ℕ) (row : StreamRow)
      (hrow : s.streams.get sid = some row)
      (howner : row.node_id = p.node_id ∨ node_live s row.node_id = false)
      (hstate : row.state = .closed) :
      Effect noop s (.deleteStream p sid row.epoch)
        ((all_objects s sid).foldl destroy_stream_object
          { s.remove_stream sid with
            pending_transfers := s.pending_transfers.remove sid, epochs := other_epochs s sid })
  | transferring (p : Proposer) (sid : ℕ) (target : ℤ) (row : StreamRow)
      (hrow : s.streams.get sid = some row) (hnone : s.pending_transfers.get sid = none)
      (hne : row.node_id ≠ target) (hstate : row.state = .opened) :
      Effect noop s (.transferStream p sid row.node_id target)
        { s with pending_transfers := s.pending_transfers.insert sid ⟨row.node_id, target⟩ }
  | transferred (p : Proposer) (sid : ℕ) (pending : PendingTransfer) (row : StreamRow)
      (hpending : s.pending_transfers.get sid = some pending)
      (hrow : s.streams.get sid = some row) (hstate : row.state = .closed) :
      Effect noop s (.completeTransfer p sid row.epoch)
        { s.put_stream { row with node_id := pending.to_node } with
          pending_transfers := s.pending_transfers.remove sid }
  | leased (c : MetadataCommand) (leases : LeaseTables) (next_object_id : ℕ)
      (hc : c.IsLeaseCommand)
      (hleases : (∃ count deadline, next_object_id = s.next_object_id + count ∧
          leases = (range' s.next_object_id count).foldl
            (fun t id => t.put_prepared id deadline) s.toLeaseTables) ∨
        ∃ ids : List ℕ, next_object_id = s.next_object_id ∧
          leases = ids.foldl LeaseTables.remove_prepared s.toLeaseTables) :
      Effect noop s c { s with toLeaseTables := leases, next_object_id }
  | allocated (c : MetadataCommand) (next_producer_id : ℕ) :
      Effect noop s c { s with next_producer_id }
  | committed (p : Proposer) (request : CommitStreamSetObjectRequest) (now_ms : ℤ)
      (s' : MetadataState)
      (hok : commit_stream_set_object noop s p.node_id request now_ms =
        .ok (s', .unit)) :
      Effect noop s (.commitStreamSetObject p request now_ms) s'
  | compacted (p : Proposer) (request : CompactStreamObjectRequest) (now_ms : ℤ)
      (s' : MetadataState)
      (hok : compact_stream_object noop s request now_ms = .ok (s', .unit)) :
      Effect noop s (.compactStreamObject p request now_ms) s'
  | cleaned (p : Proposer) (ids : List ℕ) :
      Effect noop s (.cleanDestroyedObjects p ids) (ids.foldl remove_destroyed s)
  | kv (c : MetadataCommand) (kv : KvTables) (underflowed : Bool)
      (hkv : (∃ key value, c.kv_entry = some (key, value) ∧
          s.put_kv key value = { s with toKvTables := kv, underflowed }) ∨
        ∃ key, (s.remove_kv key).1 = { s with toKvTables := kv, underflowed }) :
      Effect noop s c { s with toKvTables := kv, underflowed }

theorem put_kv_effect {key : String} {value : Bytes} (hc : c.kv_entry = some (key, value)) :
    Effect noop s c (s.put_kv key value) := by
  have heq : s.put_kv key value =
      { s with
        toKvTables := (s.put_kv key value).toKvTables
        underflowed := (s.put_kv key value).underflowed } := by
    unfold MetadataState.put_kv
    cases s.kv.get key <;> rfl
  rw [heq]
  exact .kv c _ _ (.inl ⟨key, value, hc, heq⟩)

theorem remove_kv_effect (key : String) : Effect noop s c (s.remove_kv key).1 := by
  have heq : (s.remove_kv key).1 =
      { s with
        toKvTables := (s.remove_kv key).1.toKvTables
        underflowed := (s.remove_kv key).1.underflowed } := by
    unfold MetadataState.remove_kv
    cases s.kv.get key <;> rfl
  rw [heq]
  exact .kv c _ _ (.inr ⟨key, heq⟩)

theorem dispatch_effect (h : dispatch noop s c = .ok (s', r)) : Effect noop s c s' := by
  cases c with
  | registerNode node_id =>
    have hok := h
    cases h
    refine .registered _ _ _ _ _ _ _ ?_ rfl ?_ rfl _ hok <;> cases s.nodes.get node_id <;> rfl
  | setNodeSlots _ node_id =>
    simp only [dispatch, set_node_slots] at h
    cases hnode : s.nodes.get node_id with
    | none => simp [hnode] at h
    | some node =>
      simp only [hnode] at h
      cases h
      exact .nodeKept _ node_id node _ _ hnode rfl
  | heartbeat p =>
    simp only [dispatch, heartbeat] at h
    cases hnode : s.nodes.get p.node_id with
    | none => simp only [hnode] at h; cases h; exact .same _
    | some node =>
      simp only [hnode] at h
      cases h
      exact .nodeKept _ p.node_id node _ _ hnode (by simp [MetadataCommand.beats])
  | fenceNode p node_id =>
    simp only [dispatch, fence_node] at h
    cases hnode : s.nodes.get node_id with
    | none => simp [hnode] at h
    | some node =>
      simp only [hnode] at h
      split_ifs at h with hstale
      cases h
      simp only [not_or, Bool.not_eq_true, not_not] at hstale
      obtain ⟨hlive, rfl, -⟩ := hstale
      exact .nodeFenced p node_id _ node hnode hlive
  | placeStream p sid requested =>
    obtain ⟨row, hrow, ⟨-, rfl⟩ | ⟨hstate, hdead, w, hw, rfl⟩⟩ := place_stream_ok h
    · exact .same _
    · exact .placed p sid requested row w hrow hstate hdead hw
  | createStream => rw [create_stream_ok h]; exact .created _ 1
  | createStreams => rw [create_streams_ok h]; exact .created _ _
  | openStream p sid epoch =>
    obtain ⟨row, hrow, ⟨-, -, -, rfl⟩ | ⟨hepoch, hstate, rfl⟩⟩ := open_stream_ok h
    · exact .same _
    · exact .opened p sid epoch row hrow hepoch hstate
  | trimStream p sid epoch offset =>
    obtain ⟨row, hrow, rfl, howner, hstart, hend, rfl⟩ := trim_stream_ok h
    exact .trimmed p sid offset row hrow howner hstart hend
  | closeStream p sid epoch =>
    obtain ⟨row, hrow, rfl, rfl | ⟨hstate, howner, rfl⟩⟩ := close_stream_ok h
    · exact .same _
    · exact .closed p sid row hrow hstate howner
  | deleteStream p sid epoch =>
    obtain ⟨-, rfl⟩ | ⟨row, hrow, howner, hstate, rfl, rfl⟩ := delete_stream_ok h
    · exact .same _
    · exact .deleted p sid row hrow howner hstate
  | prepareObject =>
    rw [prepare_object_ok h]
    exact .leased _ _ _ trivial (.inl ⟨_, _, rfl, rfl⟩)
  | commitStreamSetObject p request now_ms =>
    obtain rfl : r = .unit := by
      obtain ⟨-, _, _, -, -, -, -, rfl⟩ := commit_stream_set_object_eq_ok_iff.1 h; rfl
    exact .committed p request now_ms s' h
  | compactStreamObject p request now_ms =>
    obtain rfl : r = .unit := by
      obtain ⟨-, -, -, -, rfl⟩ := compact_stream_object_eq_ok_iff.1 h; rfl
    exact .compacted p request now_ms s' h
  | expirePreparedObjects =>
    cases h
    rw [foldl_remove_prepared]
    exact .leased _ _ _ trivial (.inr ⟨_, rfl, foldl_map.symm⟩)
  | cleanDestroyedObjects p ids => cases h; exact .cleaned p ids
  | putKv => cases h; exact put_kv_effect rfl
  | putKvIfAbsent _ key =>
    simp only [dispatch, put_kv_if_absent] at h
    cases hkv : s.kv.get key with
    | some old => simp only [hkv] at h; cases h; exact .same _
    | none => simp only [hkv] at h; cases h; exact put_kv_effect rfl
  | deleteKv => cases h; exact remove_kv_effect _
  | deleteKvIfMatches =>
    simp only [dispatch, delete_kv_if_matches] at h
    split_ifs at h
    cases h
    exact remove_kv_effect _
  | putKvIfMatches =>
    simp only [dispatch, put_kv_if_matches] at h
    split_ifs at h
    cases h
    exact put_kv_effect rfl
  | transferStream p sid source target =>
    obtain ⟨row, hrow, ⟨-, rfl⟩ | ⟨hnone, hne, hstate, rfl, rfl⟩⟩ := transfer_stream_ok h
    · exact .same _
    · exact .transferring p sid target row hrow hnone hne hstate
  | completeTransfer p sid epoch =>
    obtain ⟨pending, row, hpending, hrow, hstate, rfl, rfl⟩ := complete_transfer_ok h
    exact .transferred p sid pending row hpending hrow hstate
  | allocateProducerIds =>
    simp only [dispatch, allocate_producer_ids] at h
    split_ifs at h
    cases h
    exact .allocated _ _

theorem step_of_refused (h : ¬∃ r, (apply noop s c).2 = .ok r) : step noop s c = s := by
  cases hr : (apply noop s c).2 with
  | ok r => exact absurd ⟨r, hr⟩ h
  | error e => exact apply_error hr

theorem step_of_dispatch {P : MetadataState → Prop} (h : P s)
    (hd : ∀ s' r, (∀ p, c.proposer = some p → Acts s p) →
      dispatch noop s c = .ok (s', r) → P s') : P (step noop s c) := by
  unfold step
  cases hr : (apply noop s c).2 with
  | error e => rw [apply_error hr]; exact h
  | ok r => exact hd _ r (apply_ok hr).1 (apply_ok hr).2

/-! ## Runs -/

variable {log : List MetadataCommand} {i : ℕ}

/-- A step leaves the state alone or has the effect of an accepted command. -/
theorem step_effect (s : MetadataState) (c : MetadataCommand) :
    step noop s c = s ∨
      (∃ r, (apply noop s c).2 = .ok r) ∧ (∀ p, c.proposer = some p → Acts s p) ∧
        Effect noop s c (step noop s c) := by
  unfold step
  cases hr : (apply noop s c).2 with
  | error e => exact .inl (apply_error hr)
  | ok r => exact .inr ⟨⟨r, rfl⟩, (apply_ok hr).1, dispatch_effect (apply_ok hr).2⟩

theorem history_succ {c : MetadataCommand} (h : log[i]? = some c) :
    history noop log (i + 1) = step noop (history noop log i) c :=
  Run.after_succ h

/-- An accepted command of a log acted, was dispatched and led to the next state. -/
theorem Accepted.dispatch {c : MetadataCommand} (h : Accepted noop log i c) :
    (∀ p, c.proposer = some p → Acts (history noop log i) p) ∧
      ∃ r, dispatch noop (history noop log i) c =
        .ok (history noop log (i + 1), r) := by
  obtain ⟨hc, r, hr⟩ := h
  obtain ⟨hact, hd⟩ := apply_ok hr
  rw [history_succ hc]
  exact ⟨hact, r, hd⟩

end Noop

end PicoMq.Metadata
