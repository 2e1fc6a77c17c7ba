import PicoMq.Metadata.Proofs.StepProofs

/-!
# Proofs: stream epochs over a run

An accepted open claims its epoch for one node, until the stream is deleted.
-/

namespace PicoMq.Metadata

open MetadataState StreamTables

variable {s : MetadataState} {log : List MetadataCommand} {i j sid : ℕ}
variable {noop : ℕ} {n epoch : ℤ} {p : Proposer}

/-! ## Claimed epochs -/

/-- `epoch` of the stream was given to node `n`. -/
structure Claimed (s : MetadataState) (sid : ℕ) (epoch n : ℤ) : Prop where
  used : sid < s.next_stream_id
  row : ∀ row, s.toStreamTables.control sid = some row →
    epoch ≤ row.epoch ∧ (row.epoch = epoch → row.state = .opened → row.node_id = n)

theorem claimed_step (hs : s.Wf) (h : Claimed s sid epoch n) (c : MetadataCommand) :
    Claimed (step noop s c) sid epoch n := by
  refine ⟨h.used.trans_le (step_next_stream_id_le _ s c), fun row' hrow' => ?_⟩
  have hstep := step_rowStep noop hs c sid
  rw [hrow'] at hstep
  generalize hrow : s.toStreamTables.control sid = o at hstep
  cases hstep with
  | same => exact h.row _ hrow
  | created _ hfresh => exact absurd h.used (not_lt.2 hfresh)
  | placed _ _ row _ hstate =>
    refine ⟨(h.row _ hrow).1, fun _ hopen => ?_⟩
    simp [hstate] at hopen
  | opened _ epoch' row hepoch hstate =>
    have hle := (h.row _ hrow).1
    exact ⟨by dsimp only; omega, fun heq => absurd heq (by dsimp only; omega)⟩
  | trimmed _ _ row => exact h.row row hrow
  | closed => exact ⟨(h.row _ hrow).1, fun _ hopen => by simp at hopen⟩
  | transferred _ _ row _ hstate =>
    refine ⟨(h.row _ hrow).1, fun _ hopen => ?_⟩
    simp [hstate] at hopen
  | advanced _ _ _ row => exact h.row row hrow

theorem Claimed.history (h : Claimed (history noop log i) sid epoch n) (hij : i ≤ j) :
    Claimed (Metadata.history noop log j) sid epoch n :=
  Run.after_of_le (P := fun s => Claimed s sid epoch n) hij h fun k c _ _ _ hP =>
    claimed_step (history_wf log k) hP c

/-! ## Opens -/

theorem accepted_open (h : Accepted noop log i (.openStream p sid epoch)) :
    ∃ row, (history noop log i).toStreamTables.control sid = some row ∧
      (row.epoch = epoch ∧ row.state = .opened ∧ row.node_id = p.node_id ∧
          history noop log (i + 1) = history noop log i ∨
        row.epoch < epoch ∧ row.state = .closed ∧
          (history noop log (i + 1)).toStreamTables.control sid =
            some { row with epoch, state := .opened, node_id := p.node_id }) := by
  obtain ⟨-, r, hd⟩ := h.dispatch
  obtain ⟨row, hrow, hcase⟩ := open_stream_ok hd
  refine ⟨row.control, control_eq_some hrow, hcase.imp_right ?_⟩
  rintro ⟨hepoch, hstate, hnext⟩
  refine ⟨hepoch, hstate, ?_⟩
  obtain rfl := (history_wf log i).streams.keyed sid row hrow
  rw [hnext]
  simp only [put_stream_frame, control_put_stream, if_true]
  rfl

theorem claimed_of_accepted (h : Accepted noop log i (.openStream p sid epoch)) :
    Claimed (history noop log (i + 1)) sid epoch p.node_id := by
  obtain ⟨row, hrow, hcase⟩ := accepted_open h
  obtain ⟨r, hr, -⟩ := exists_of_control hrow
  have hused : sid < (history noop log (i + 1)).next_stream_id := by
    rw [history_succ h.1]
    exact ((history_wf log i).fresh_streams sid r hr).trans_le (step_next_stream_id_le _ _ _)
  rcases hcase with ⟨hepoch, -, hnode, hsame⟩ | ⟨-, -, hnext⟩
  · refine ⟨hused, fun row' hrow' => ?_⟩
    rw [hsame, hrow] at hrow'
    cases hrow'
    exact ⟨hepoch.ge, fun _ _ => hnode⟩
  · refine ⟨hused, fun row' hrow' => ?_⟩
    rw [hnext] at hrow'
    cases hrow'
    exact ⟨le_rfl, fun _ _ => rfl⟩

theorem RowChangingOpen.accepted (h : RowChangingOpen noop log i sid epoch n) :
    ∃ p row, p.node_id = n ∧ Accepted noop log i (.openStream p sid epoch) ∧
      (history noop log i).toStreamTables.control sid = some row ∧
      row.epoch < epoch ∧ row.state = .closed ∧
      (history noop log (i + 1)).toStreamTables.control sid =
        some { row with epoch, state := .opened, node_id := p.node_id } := by
  obtain ⟨p, hp, hacc, hchanged⟩ := h
  obtain ⟨row, hrow, ⟨-, -, -, hsame⟩ | ⟨hepoch, hstate, hnext⟩⟩ := accepted_open hacc
  · rw [hsame] at hchanged
    exact absurd rfl hchanged
  · exact ⟨p, row, hp, hacc, hrow, hepoch, hstate, hnext⟩

theorem rowChangingOpen_lt {epoch' n' : ℤ} (hij : i < j)
    (h : RowChangingOpen noop log i sid epoch n)
    (h' : RowChangingOpen noop log j sid epoch' n') : epoch < epoch' := by
  obtain ⟨p, row, rfl, hacc, -⟩ := h.accepted
  obtain ⟨p', row', rfl, -, hrow', hlt, -⟩ := h'.accepted
  exact (((claimed_of_accepted hacc).history hij).row row' hrow').1.trans_lt hlt

theorem accepted_open_node {p' : Proposer} (hij : i ≤ j)
    (h : Accepted noop log i (.openStream p sid epoch))
    (h' : Accepted noop log j (.openStream p' sid epoch)) : p.node_id = p'.node_id := by
  rcases hij.lt_or_eq with hlt | rfl
  · obtain ⟨row', hrow', hcase⟩ := accepted_open h'
    obtain ⟨hle, hnode⟩ := ((claimed_of_accepted h).history hlt).row row' hrow'
    rcases hcase with ⟨hepoch, hstate, hnode', -⟩ | ⟨hlt', -⟩
    · rw [← hnode hepoch hstate, hnode']
    · omega
  · have hsame := h.1.symm.trans h'.1
    cases hsame
    rfl

/-! ## Closes between opens -/

/-- The stream is open at `epoch` on node `n`, which is registered. -/
def OpenAt (s : MetadataState) (sid : ℕ) (epoch n : ℤ) : Prop :=
  (∃ row, s.toStreamTables.control sid = some row ∧ row.epoch = epoch ∧ row.state = .opened ∧
    row.node_id = n) ∧ ∃ node, s.nodes.get n = some node

theorem node_registered_step (noop : ℕ) (h : ∃ node, s.nodes.get n = some node) (c : MetadataCommand) :
    ∃ node, (step noop s c).nodes.get n = some node := by
  obtain ⟨node, hnode⟩ := h
  have hstep := step_nodeStep noop s c n
  rw [hnode] at hstep
  generalize (step noop s c).nodes.get n = o at hstep
  cases hstep with
  | same => exact ⟨_, rfl⟩
  | kept => exact ⟨_, rfl⟩
  | registered => exact ⟨_, rfl⟩
  | fenced => exact ⟨_, rfl⟩

/-- An open stream is closed only by its owner, or by anyone once the owner is fenced. -/
theorem openAt_lost {c : MetadataCommand} (hs : s.Wf) (h : OpenAt s sid epoch n)
    (hlost : ¬OpenAt (step noop s c) sid epoch n) :
    ∃ p, c = .closeStream p sid epoch ∧ (∃ r, (apply noop s c).2 = .ok r) ∧
      (p.node_id = n ∨ IsFenced s n) := by
  obtain ⟨⟨row, hrow, rfl, hstate, rfl⟩, hnode⟩ := h
  have hnode' := node_registered_step noop hnode c
  rcases step_effect s c with hsame | ⟨haccepted, -, heffect⟩
  · rw [hsame] at hlost
    exact absurd ⟨⟨row, hrow, rfl, hstate, rfl⟩, hnode⟩ hlost
  have hkeep : ∀ row', (step noop s c).toStreamTables.control sid = some row' →
      row'.epoch = row.epoch → row'.state = .opened → row'.node_id = row.node_id → False :=
    fun row' h1 h2 h3 h4 => hlost ⟨⟨row', h1, h2, h3, h4⟩, hnode'⟩
  have hstep := heffect.rowStep hs sid
  rw [hrow] at hstep
  generalize (step noop s c).toStreamTables.control sid = o at hstep hkeep
  cases hstep with
  | same => exact (hkeep row rfl rfl hstate rfl).elim
  | placed _ _ _ _ hclosed => simp [hstate] at hclosed
  | opened _ _ _ _ hclosed => simp [hstate] at hclosed
  | trimmed => exact (hkeep _ rfl rfl hstate rfl).elim
  | closed p _ _ howner =>
    refine ⟨p, rfl, haccepted, howner.imp (fun h => h.symm) fun hdead => ?_⟩
    obtain ⟨node, hnode⟩ := hnode
    refine ⟨node, hnode, ?_⟩
    simpa [node_live, hnode] using hdead
  | deleted _ _ hclosed => simp [hstate] at hclosed
  | transferred _ _ _ _ hclosed => simp [hstate] at hclosed
  | advanced => exact (hkeep _ rfl rfl hstate rfl).elim

theorem openAt_of_accepted (h : Accepted noop log i (.openStream p sid epoch)) :
    OpenAt (history noop log (i + 1)) sid epoch p.node_id := by
  have hnode : ∃ node, (history noop log (i + 1)).nodes.get p.node_id = some node := by
    obtain ⟨node, hnode, -⟩ := h.dispatch.1 p rfl
    rw [history_succ h.1]
    exact node_registered_step _ ⟨node, hnode⟩ _
  obtain ⟨row, hrow, ⟨hepoch, hstate, howner, hsame⟩ | ⟨-, -, hnext⟩⟩ := accepted_open h
  · exact ⟨⟨row, hsame.symm ▸ hrow, hepoch, hstate, howner⟩, hnode⟩
  · exact ⟨⟨_, hnext, rfl, rfl, rfl⟩, hnode⟩

/-- A stream that was opened stays open there until a close at that epoch is accepted. -/
theorem closed_of_lost (hij : i < j) (h : Accepted noop log i (.openStream p sid epoch))
    (hlost : ¬OpenAt (history noop log j) sid epoch p.node_id) :
    ∃ k q, i < k ∧ k < j ∧ Accepted noop log k (.closeStream q sid epoch) ∧
      (q.node_id = p.node_id ∨ IsFenced (history noop log k) p.node_id) := by
  obtain ⟨k, c, hik, hkj, hc, hP, hlost⟩ := Run.exists_step_of_lost
    (P := fun s => OpenAt s sid epoch p.node_id) hij (openAt_of_accepted h) hlost
  obtain ⟨q, rfl, hr, howner⟩ := openAt_lost (history_wf log k) hP hlost
  exact ⟨k, q, hik, hkj, ⟨hc, hr⟩, howner⟩

theorem close_between_opens {epoch' n' : ℤ} (hij : i < j)
    (h : RowChangingOpen noop log i sid epoch n)
    (h' : RowChangingOpen noop log j sid epoch' n') :
    ∃ k p, i < k ∧ k < j ∧ Accepted noop log k (.closeStream p sid epoch) ∧
      (p.node_id = n ∨ IsFenced (history noop log k) n) := by
  obtain ⟨p, row, rfl, hacc, -⟩ := h.accepted
  obtain ⟨p', row', rfl, -, hrow', -, hclosed, -⟩ := h'.accepted
  refine closed_of_lost hij hacc ?_
  rintro ⟨⟨row'', hrow'', -, hstate, -⟩, -⟩
  rw [hrow'] at hrow''
  cases hrow''
  simp [hclosed] at hstate

/-! ## Owners of open streams, and deleted ids -/

theorem isOpened_iff : IsOpened s sid ↔
    ∃ row, s.toStreamTables.control sid = some row ∧ row.state = .opened := by
  constructor
  · rintro ⟨row, hrow, hstate⟩; exact ⟨_, control_eq_some hrow, hstate⟩
  · rintro ⟨row, hrow, hstate⟩
    obtain ⟨r, hr, rfl⟩ := exists_of_control hrow
    exact ⟨r, hr, hstate⟩

theorem owner_step (hs : s.Wf) {c : MetadataCommand} (h : IsOpened s sid)
    (h' : IsOpened (step noop s c) sid) :
    owner_of (step noop s c) sid = owner_of s sid := by
  obtain ⟨row, hrow, hstate⟩ := isOpened_iff.1 h
  obtain ⟨row', hrow', hstate'⟩ := isOpened_iff.1 h'
  have hstep := step_rowStep noop hs c sid
  rw [hrow, hrow'] at hstep
  rw [owner_of_eq, owner_of_eq, hrow, hrow']
  cases hstep with
  | same => rfl
  | placed _ _ _ _ hclosed => simp [hstate] at hclosed
  | opened _ _ _ _ hclosed => simp [hstate] at hclosed
  | trimmed => rfl
  | closed => rfl
  | transferred _ _ _ _ hclosed => simp [hstate] at hclosed
  | advanced => rfl

theorem deleted_step (hs : s.Wf)
    (h : sid < s.next_stream_id ∧ s.toStreamTables.control sid = none) (c : MetadataCommand) :
    sid < (step noop s c).next_stream_id ∧
      (step noop s c).toStreamTables.control sid = none := by
  refine ⟨h.1.trans_le (step_next_stream_id_le _ s c), ?_⟩
  have hstep := step_rowStep noop hs c sid
  rw [h.2] at hstep
  generalize (step noop s c).toStreamTables.control sid = o at hstep
  cases hstep with
  | same => rfl
  | created _ hfresh => exact absurd h.1 (not_lt.2 hfresh)

/-- Row-changing opens of a stream have increasing epochs, each granted to one node; between two of
them the first was closed by its node or while that was fenced; an open stream keeps its node, and a
deleted id does not come back. -/
theorem stream_epochs_over_runs (noop : ℕ) (log : List MetadataCommand) (sid : ℕ) :
    (∀ i j e e' n n', i < j → RowChangingOpen noop log i sid e n →
      RowChangingOpen noop log j sid e' n' → e < e') ∧
    (∀ i j e p p', Accepted noop log i (.openStream p sid e) →
      Accepted noop log j (.openStream p' sid e) → p.node_id = p'.node_id) ∧
    (∀ i j e e' n n', RowChangingOpen noop log i sid e n →
      RowChangingOpen noop log j sid e' n' → e < e' →
      ∃ k p, i < k ∧ k < j ∧ Accepted noop log k (.closeStream p sid e) ∧
        (p.node_id = n ∨ IsFenced (history noop log k) n)) ∧
    (∀ i j, i ≤ j →
      (∀ k, i ≤ k → k ≤ j → IsOpened (history noop log k) sid) →
      owner_of (history noop log j) sid = owner_of (history noop log i) sid) ∧
    (∀ i j k, i ≤ j → j ≤ k → (history noop log i).streams.get sid ≠ none →
      (history noop log j).streams.get sid = none →
      (history noop log k).streams.get sid = none) := by
  refine ⟨fun i j e e' n n' hij h h' => rowChangingOpen_lt hij h h',
    fun i j e p p' h h' => ?_, fun i j e e' n n' h h' hlt => ?_, fun i j hij hopen => ?_,
    fun i j k hij hjk hsome hnone => ?_⟩
  · rcases Nat.le_total i j with hij | hij
    · exact accepted_open_node hij h h'
    · exact (accepted_open_node hij h' h).symm
  · -- the later epoch belongs to the later open
    rcases Nat.lt_trichotomy i j with hij | rfl | hij
    · exact close_between_opens hij h h'
    · obtain ⟨p, row, -, hacc, -⟩ := h.accepted
      obtain ⟨p', row', -, hacc', -⟩ := h'.accepted
      have hsame := hacc.1.symm.trans hacc'.1
      cases hsame
      exact absurd hlt (lt_irrefl _)
    · exact absurd (rowChangingOpen_lt hij h' h) hlt.not_gt
  · induction j, hij using Nat.le_induction with
    | base => rfl
    | succ j hij ih =>
      have hj := hopen j hij (Nat.le_succ j)
      have hj' := hopen (j + 1) (Nat.le_succ_of_le hij) le_rfl
      rw [← ih fun k hik hkj => hopen k hik (Nat.le_succ_of_le hkj)]
      cases hc : log[j]? with
      | none => rw [history, history, Run.after_succ_of_none hc]
      | some c =>
        rw [history_succ hc] at hj' ⊢
        exact owner_step (history_wf log j) hj hj'
  · obtain ⟨row, hrow⟩ := Option.ne_none_iff_exists'.1 hsome
    have hused : sid < (history noop log j).next_stream_id :=
      Run.after_of_le (P := fun s : MetadataState => sid < s.next_stream_id) hij
        ((history_wf log i).fresh_streams sid row hrow)
        fun k c _ _ _ hP => hP.trans_le (step_next_stream_id_le _ _ c)
    have hgone : sid < (history noop log k).next_stream_id ∧
        (history noop log k).toStreamTables.control sid = none :=
      Run.after_of_le (P := fun s : MetadataState => sid < s.next_stream_id ∧
          s.toStreamTables.control sid = none) hjk
        ⟨hused, StreamTables.control_eq_none_iff.2 hnone⟩
        fun k c _ _ _ hP => deleted_step (history_wf log k) hP c
    exact StreamTables.control_eq_none_iff.1 hgone.2

end PicoMq.Metadata
