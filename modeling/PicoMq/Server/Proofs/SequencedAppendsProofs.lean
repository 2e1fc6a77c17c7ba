import Mathlib.Data.String.Basic
import PicoMq.Library.Proofs.BatchLogProofs
import PicoMq.Library.Proofs.OrdMapProofs
import PicoMq.Library.Proofs.RunProofs
import PicoMq.Server.Proofs.StreamSeqProofs
import PicoMq.Server.SequencedAppends

/-!
# Proofs: appends with a stream sequence

The row covers every append of the log that carries a value, and so does the ledger of every owner
whose row is not overwritten by a newer one.
-/

namespace PicoMq.Server

open BatchLog List Option OrdMap

namespace Sequenced

variable {T : Type} {s s' : Sequenced T} {e : ℕ} {owner : Owner T}
variable {v : T} {b confirm next : ℕ} {owner' : Owner T} {seq : StreamSeq T}
variable {request : SeqRequest T} {row : Row T}

/-- The append at offset `b` carries the value `v`. -/
def Carries (s : Sequenced T) (v : T) (b : ℕ) : Prop :=
  ∃ batch ∈ s.log.batches, batch.payload = some v ∧ batch.base_offset = b

/-- No owner newer than `e` has written the row. -/
def Unmoved (s : Sequenced T) (e : ℕ) : Prop := ∀ row, s.row = some row → row.epoch ≤ e

theorem carries_truncate {c : ℕ}
    (h : Carries { s with log := s.log.truncate c } v b) : s.Carries v b ∧ b < c := by
  obtain ⟨batch, hmem, hv, rfl⟩ := h
  obtain ⟨hin, hlt⟩ := mem_below.1 hmem
  exact ⟨⟨batch, hin, hv, rfl⟩, hlt⟩

theorem carries_append {n : ℕ} (hn : 0 < n) {value : Option T}
    (h : Carries { s with log := s.log.append n value } v b) :
    s.Carries v b ∨ value = some v ∧ b = s.log.next_offset := by
  obtain ⟨batch, hmem, hv, rfl⟩ := h
  simp only [append_of_pos hn] at hmem
  rcases mem_append.1 hmem with hmem | hmem
  · exact .inl ⟨batch, hmem, hv, rfl⟩
  · rw [mem_singleton] at hmem
    subst hmem
    exact .inr ⟨hv, rfl⟩

/-! ## The invariant -/

variable [LinearOrder T] {producers : Option (StreamSeq T)}

/-- What holds of an owner, whether it is the newest or not. -/
structure Sound (s : Sequenced T) (e : ℕ) (owner : Owner T) : Prop where
  reaches : s.Unmoved e → ∀ v b, s.Carries v b → b < owner.next_offset
  written : ∀ seq row, owner.producers = some (some seq) → seq.written = some row → row.epoch ≤ e
  ordered : ∀ seq, owner.producers = some (some seq) → seq.ledger.Ordered
  covers : ∀ producers, owner.producers = some producers → s.Unmoved e → ∀ v b, s.Carries v b →
    ∃ seq, producers = some seq ∧ seq.ledger.Covers v b
  checked : ∀ request v, owner.stage = .checked request → request.value = some v →
    ∀ seq, owner.producers = some (some seq) → seq.ledger.Below v
  writing : ∀ request row, owner.stage = .writing request row →
    ∃ seq v, owner.producers = some (some seq) ∧ request.value = some v ∧ row = ⟨e, seq.ledger⟩ ∧
      (request.record_count ≠ 0 → seq.ledger.Covers v owner.next_offset)

/-- A row write whose answer was lost matters only while the row is what it was when sent. -/
structure Harmless (s : Sequenced T) (write : Delayed T) : Prop where
  sent : write.sent ≤ s.writes
  epoch : write.row.epoch ≤ s.epoch
  expected : ∀ row, write.expected = some row → row.epoch ≤ write.row.epoch
  ordered : write.row.ledger.Ordered
  covers : write.sent = s.writes → write.expected = s.row → ∀ v b, s.Carries v b →
    write.row.ledger.Covers v b

structure Invariant (s : Sequenced T) : Prop where
  confirm : s.log.IsBoundary s.confirm_offset
  known : ∀ e owner, s.owners.get e = some owner → e ≤ s.epoch
  newest : ∀ owner, s.owners.get s.epoch = some owner → owner.next_offset = s.log.next_offset
  row_epoch : ∀ row, s.row = some row → row.epoch ≤ s.epoch
  row_ordered : ∀ row, s.row = some row → row.ledger.Ordered
  row_covers : ∀ v b, s.Carries v b → ∃ row, s.row = some row ∧ row.ledger.Covers v b
  increasing : (s.log.batches.filterMap Batch.payload).Pairwise (· < ·)
  sound : ∀ e owner, s.owners.get e = some owner → Sound s e owner
  /-- The append of the newest owner carries a value above all of the log. -/
  ahead : ∀ owner v, s.owners.get s.epoch = some owner → owner.stage.value = some v →
    ∀ w b, s.Carries w b → w < v
  /-- When it is about to be submitted, the row has its value, and no late write takes it away. -/
  ready : ∀ owner request v, s.owners.get s.epoch = some owner → owner.stage = .ready request →
    request.value = some v → request.record_count ≠ 0 →
    ∃ seq, owner.producers = some (some seq) ∧ s.row = some ⟨s.epoch, seq.ledger⟩ ∧
      seq.ledger.Covers v owner.next_offset ∧
      ∀ write ∈ s.delayed, write.sent = s.writes → write.expected ≠ s.row
  harmless : ∀ write ∈ s.delayed, Harmless s write

theorem Sound.frame (h : Sound s e owner)
    (hframe : s'.Unmoved e → s.Unmoved e ∧ ∀ v b, s'.Carries v b → s.Carries v b) :
    Sound s' e owner :=
  { h with
    reaches := fun hu v b hc => h.reaches (hframe hu).1 v b ((hframe hu).2 v b hc)
    covers := fun producers hp hu v b hc =>
      h.covers producers hp (hframe hu).1 v b ((hframe hu).2 v b hc) }

section

variable (hreaches : s.Unmoved e → ∀ v b, s.Carries v b → b < next)
include hreaches

theorem sound_idle {producers : Option (Option (StreamSeq T))}
    (hwritten : ∀ seq row, producers = some (some seq) → seq.written = some row → row.epoch ≤ e)
    (hordered : ∀ seq, producers = some (some seq) → seq.ledger.Ordered)
    (hcovers : ∀ p, producers = some p → s.Unmoved e → ∀ v b, s.Carries v b →
      ∃ seq, p = some seq ∧ seq.ledger.Covers v b) :
    Sound s e ⟨next, confirm, producers, .idle⟩ where
  reaches := hreaches
  written := hwritten
  ordered := hordered
  covers := hcovers
  checked := fun _ _ hstage => by cases hstage
  writing := fun _ _ hstage => by cases hstage

theorem sound_unloaded :
    Sound s e ⟨next, confirm, none, .idle⟩ :=
  sound_idle hreaches (fun _ _ hp => by cases hp) (fun _ hp => by cases hp)
    (fun _ hp => by cases hp)

end

theorem Sound.idle (h : Sound s e owner) : Sound s e { owner with stage := .idle } :=
  sound_idle h.reaches h.written h.ordered h.covers

theorem Sound.reset (h : Sound s e owner) :
    Sound s e { owner with producers := none, stage := .idle } :=
  sound_unloaded h.reaches

theorem Harmless.frame {write : Delayed T} (h : Harmless s write) (hepoch : s.epoch ≤ s'.epoch)
    (hwrites : s'.writes = s.writes) (hrow : s'.row = s.row)
    (hcarries : ∀ v b, s'.Carries v b → s.Carries v b) : Harmless s' write where
  sent := hwrites ▸ h.sent
  epoch := le_trans h.epoch hepoch
  expected := h.expected
  ordered := h.ordered
  covers := fun hsent hexp v b hv =>
    h.covers (hsent.trans hwrites) (hexp.trans hrow) v b (hcarries v b hv)

section

variable (h : Invariant s)
include h

theorem Invariant.history (submitted closed inherited refused : List T) :
    Invariant { s with submitted, closed, inherited, refused } :=
  { h with
    sound := fun e owner hget => (h.sound e owner hget).frame fun hu => ⟨hu, fun _ _ hv => hv⟩
    harmless := fun write hmem => (h.harmless write hmem).frame (le_refl _) rfl rfl fun _ _ hv => hv }

theorem Invariant.put_owner
    (hget : s.owners.get e = some owner) (hsound : Sound s e owner')
    (hnext : owner'.next_offset = owner.next_offset)
    (hahead : e = s.epoch → ∀ v, owner'.stage.value = some v → ∀ w b, s.Carries w b → w < v)
    (hready : e = s.epoch → ∀ request v, owner'.stage = .ready request → request.value = some v →
      request.record_count ≠ 0 → ∃ seq, owner'.producers = some (some seq) ∧
        s.row = some ⟨s.epoch, seq.ledger⟩ ∧ seq.ledger.Covers v owner'.next_offset ∧
        ∀ write ∈ s.delayed, write.sent = s.writes → write.expected ≠ s.row) :
    Invariant (s.put_owner e owner') := by
  refine ⟨h.confirm, fun e' o ho => ?_, fun o ho => ?_, h.row_epoch, h.row_ordered, h.row_covers,
    h.increasing, fun e' o ho => ?_, fun o v ho => ?_, fun o request v ho => ?_,
    fun write hmem => (h.harmless write hmem).frame (le_refl _) rfl rfl fun _ _ hv => hv⟩
  · rcases get_insert_cases ho with ⟨rfl, -⟩ | ⟨-, ho⟩
    · exact h.known _ _ hget
    · exact h.known _ _ ho
  · rcases get_insert_cases ho with ⟨he, rfl⟩ | ⟨-, ho⟩
    · rw [hnext]
      have hget' : s.owners.get s.epoch = some owner := he ▸ hget
      exact h.newest _ hget'
    · exact h.newest _ ho
  · have hframe : ∀ {e' : ℕ} {o : Owner T}, Sound s e' o → Sound (s.put_owner e owner') e' o :=
      fun ho => ho.frame fun hu => ⟨hu, fun _ _ hv => hv⟩
    rcases get_insert_cases ho with ⟨rfl, rfl⟩ | ⟨-, ho⟩
    · exact hframe hsound
    · exact hframe (h.sound _ _ ho)
  · rcases get_insert_cases ho with ⟨he, rfl⟩ | ⟨-, ho⟩
    · exact hahead he.symm v
    · exact h.ahead _ v ho
  · rcases get_insert_cases ho with ⟨he, rfl⟩ | ⟨-, ho⟩
    · exact hready he.symm request v
    · exact h.ready _ request v ho

theorem Invariant.put_idle
    (hget : s.owners.get e = some owner) (hsound : Sound s e owner')
    (hnext : owner'.next_offset = owner.next_offset) (hidle : owner'.stage = .idle) :
    Invariant (s.put_owner e owner') := by
  refine h.put_owner hget hsound hnext (fun _ v hv => ?_) (fun _ request v hstage => ?_)
  · rw [hidle] at hv
    cases hv
  · rw [hidle] at hstage
    cases hstage

/-! ## Owners and their producers -/

theorem Invariant.open_stream (c : ℕ) : Invariant (s.open_stream c) := by
  unfold Sequenced.open_stream
  split_ifs with hcond
  · obtain ⟨hc, -⟩ := hcond
    have hnewest : ∀ {o : Owner T},
        (s.owners.insert (s.epoch + 1) { next_offset := c, confirm_offset := c }).get
          (s.epoch + 1) = some o → o = { next_offset := c, confirm_offset := c } := by
      intro o ho
      rw [get_insert_self] at ho
      exact (some.inj ho).symm
    refine ⟨hc.truncate hc (le_refl c), fun e o ho => ?_, fun o ho => ?_,
      fun row hrow => Nat.le_succ_of_le (h.row_epoch row hrow), h.row_ordered,
      fun v b hv => h.row_covers v b (carries_truncate hv).1,
      h.increasing.sublist (filter_sublist.filterMap _), fun e o ho => ?_,
      fun o v ho hv => ?_, fun o request v ho hstage => ?_, fun write hwrite => ?_⟩
    · rcases get_insert_cases ho with ⟨rfl, -⟩ | ⟨-, ho⟩
      · exact le_refl _
      · exact Nat.le_succ_of_le (h.known e o ho)
    · rw [hnewest ho]
      exact (next_offset_truncate hc).symm
    · rcases get_insert_cases ho with ⟨rfl, rfl⟩ | ⟨-, ho⟩
      · exact sound_unloaded fun _ v b hv => (carries_truncate hv).2
      · exact (h.sound e o ho).frame fun hu => ⟨hu, fun v b hv => (carries_truncate hv).1⟩
    · rw [hnewest ho] at hv
      cases hv
    · rw [hnewest ho] at hstage
      cases hstage
    · exact (h.harmless write hwrite).frame (Nat.le_succ _) rfl rfl
        fun v b hv => (carries_truncate hv).1
  · exact h

end

/-- Loading keeps what covers the appends below the durable end; nothing is in flight above it. -/
theorem Sound.load (h : Sound s e owner) (hinv : Invariant s)
    (hload : StreamSeq.load e owner.confirm_offset s.row = .ok producers)
    (hquiet : owner.next_offset = owner.confirm_offset) :
    Sound s e { owner with producers := some producers, stage := .idle } := by
  cases hrow : s.row with
  | none =>
    rw [hrow] at hload
    cases hload
    refine sound_idle h.reaches (fun _ _ hp => ?_) (fun _ hp => ?_) (fun _ _ _ v b hv => ?_)
    · cases hp
    · cases hp
    · obtain ⟨row, hsome, -⟩ := hinv.row_covers v b hv
      rw [hrow] at hsome
      cases hsome
  | some row =>
    simp only [hrow, StreamSeq.load] at hload
    split_ifs at hload with hlt
    cases hload
    have hordered := hinv.row_ordered row hrow
    refine sound_idle h.reaches (fun seq row' hp hw => ?_) (fun seq hp => ?_)
      (fun producers hp hu v b hv => ?_)
    · cases hp
      cases hw
      exact not_lt.1 hlt
    · cases hp
      exact hordered.settle _
    · cases hp
      refine ⟨_, rfl, ?_⟩
      obtain ⟨row', hsome, hcovers⟩ := hinv.row_covers v b hv
      rw [hrow] at hsome
      cases hsome
      refine hcovers.settle hordered ?_
      rw [← hquiet]
      exact h.reaches hu v b hv

theorem Invariant.load_producers (h : Invariant s) (hs : s.Steady (.load e)) :
    Invariant (s.load_producers e) := by
  unfold Sequenced.load_producers
  split
  · rename_i next confirm hget
    split
    · rename_i producers hload
      have hsound := (h.sound e _ hget).load h hload (hs _ hget)
      exact (h.put_idle hget hsound rfl rfl).history _ _ _ _
    · exact h
  · exact h

theorem below_of_not_regressed (h : StreamSeq.stream_seq_regressed producers v = false)
    (hseq : producers = some seq) : seq.ledger.Below v := by
  intro u hu
  subst hseq
  simp only [StreamSeq.stream_seq_regressed, bind_some, hu, any_some,
    decide_eq_false_iff_not, not_le] at h
  exact h

theorem Invariant.covers_newest (h : Invariant s)
    (hget : s.owners.get s.epoch = some owner) (hp : owner.producers = some producers)
    (hv : s.Carries v b) :
    ∃ seq, producers = some seq ∧ seq.ledger.Ordered ∧ seq.ledger.Covers v b := by
  have hsound := h.sound _ _ hget
  obtain ⟨seq, rfl, hcovers⟩ := hsound.covers producers hp h.row_epoch v b hv
  exact ⟨seq, rfl, hsound.ordered seq hp, hcovers⟩

theorem Invariant.check_stream_seq (h : Invariant s) (e : ℕ) (request : SeqRequest T) :
    Invariant (s.check_stream_seq e request) := by
  unfold Sequenced.check_stream_seq
  split
  · rename_i next confirm producers hget
    split
    · exact h.history _ _ _ _
    · rename_i hfilter
      have hbelow : ∀ v, request.value = some v → ∀ seq, producers = some seq →
          seq.ledger.Below v := by
        intro v hv seq hseq
        refine below_of_not_regressed ?_ hseq
        rw [hv] at hfilter
        simpa using filter_eq_none_iff.1 hfilter v rfl
      have hsound := h.sound e _ hget
      refine h.put_owner hget ?_ rfl (fun he v hv w b hw => ?_) (fun _ _ _ hstage => ?_)
      · refine ⟨hsound.reaches, hsound.written, hsound.ordered, hsound.covers,
          fun request' v hstage hv seq hseq => ?_, fun _ _ hstage => ?_⟩
        · cases hstage
          cases hseq
          exact hbelow v hv seq rfl
        · cases hstage
      · subst he
        obtain ⟨seq, hseq, hordered, hcovers⟩ := h.covers_newest hget rfl hw
        exact hcovers.lt_of_below hordered (hbelow v hv seq hseq)
      · cases hstage
  · exact h

section

variable (h : Sound s e ⟨next, confirm, some producers, .checked request⟩)
include h

theorem Sound.getD_ledger
    (hv : request.value = some v) :
    (producers.getD {}).ledger.Ordered ∧ (producers.getD {}).ledger.Below v := by
  cases producers with
  | none =>
    refine ⟨List.Pairwise.nil, fun u hu => ?_⟩
    cases hu
  | some seq => exact ⟨h.ordered seq rfl, h.checked request v rfl hv seq rfl⟩

theorem Sound.book
    (hv : request.value = some v) {landed : Option ℕ}
    (hlanded : landed = if request.record_count = 0 then none else some next) :
    Sound s e ⟨next, confirm, some (some (StreamSeq.accept_stream_seq producers e v landed).1),
      .writing request (StreamSeq.accept_stream_seq producers e v landed).2⟩ := by
  obtain ⟨hordered, hbelow⟩ := h.getD_ledger hv
  refine ⟨h.reaches, fun seq row hp hw => ?_, fun seq hp => ?_, fun p hp hu w b hw => ?_,
    fun _ _ hstage => ?_, fun request' row hstage => ?_⟩
  · cases hp
    cases producers with
    | none => cases hw
    | some seq => exact h.written seq row rfl hw
  · cases hp
    exact hordered.accept hbelow landed
  · cases hp
    refine ⟨_, rfl, ?_⟩
    obtain ⟨seq, rfl, hcovers⟩ := h.covers _ rfl hu w b hw
    exact hcovers.accept hordered hbelow landed
  · cases hstage
  · cases hstage
    refine ⟨_, v, rfl, hv, rfl, fun hcount => ?_⟩
    rw [hlanded, if_neg hcount]
    exact Ledger.covers_accept_self

end

theorem Invariant.book (h : Invariant s) (e : ℕ) : Invariant (s.book e) := by
  unfold Sequenced.book
  split
  · rename_i next confirm producers request hget
    have hsound := h.sound e _ hget
    split
    · rename_i v hv
      refine h.put_owner hget (hsound.book hv rfl) rfl (fun he w hw => ?_) (fun _ _ _ hstage => ?_)
      · subst he
        exact h.ahead _ w hget hw
      · cases hstage
    · rename_i hv
      refine h.put_owner hget ?_ rfl (fun _ w hw => ?_) (fun _ request' w hstage hw => ?_)
      · refine ⟨hsound.reaches, hsound.written, hsound.ordered, hsound.covers,
          fun _ _ hstage => ?_, fun _ _ hstage => ?_⟩
        · cases hstage
        · cases hstage
      · simp only [Stage.value, hv] at hw
        cases hw
      · cases hstage
        rw [hv] at hw
        cases hw
  · exact h

/-! ## The row -/

/-- A row that covers the log is written over one not newer, while there is no value to submit. -/
theorem Invariant.put_row (h : Invariant s) (hepoch : row.epoch ≤ s.epoch)
    (hordered : row.ledger.Ordered) (hcovers : ∀ v b, s.Carries v b → row.ledger.Covers v b)
    (hunmoved : s.Unmoved row.epoch)
    (hready : ∀ owner request v, s.owners.get s.epoch = some owner →
      owner.stage = .ready request → request.value = some v → request.record_count ≠ 0 → False) :
    Invariant { s with row := some row, writes := s.writes + 1 } := by
  refine ⟨h.confirm, h.known, h.newest, fun row' hrow => ?_, fun row' hrow => ?_,
    fun v b hv => ⟨row, rfl, hcovers v b hv⟩, h.increasing, fun e owner hget => ?_, h.ahead,
    fun owner request v hget hstage hv hcount => ?_, fun write hmem => ?_⟩
  · cases hrow
    exact hepoch
  · cases hrow
    exact hordered
  · refine (h.sound e owner hget).frame fun hu => ⟨fun row' hrow => ?_, fun _ _ hv => hv⟩
    exact le_trans (hunmoved row' hrow) (hu row rfl)
  · exact (hready owner request v hget hstage hv hcount).elim
  · have hw := h.harmless write hmem
    refine ⟨Nat.le_succ_of_le hw.sent, hw.epoch, hw.expected, hw.ordered, fun hsent => ?_⟩
    have := hw.sent
    have hsent' : write.sent = s.writes + 1 := hsent
    omega

theorem answered_iff {stored expected : Option (Row T)} :
    answered stored expected row = true ↔
      stored = expected ∨ expected = none ∧ stored = some row := by
  simp only [answered, Bool.or_eq_true, Bool.and_eq_true, decide_eq_true_eq,
    isNone_iff_eq_none]

theorem put_kv_if_of_answered {stored expected : Option (Row T)}
    (h : answered stored expected row = true) : put_kv_if stored expected row = some row := by
  unfold put_kv_if
  split_ifs with heq
  · rfl
  · exact ((answered_iff.1 h).resolve_left heq).2

theorem Sound.unmoved
    (h : Sound s e ⟨next, confirm, some (some seq), .writing request row⟩)
    (hrow : row = ⟨e, seq.ledger⟩) (hanswered : answered s.row seq.written row = true) :
    s.Unmoved e := by
  intro row' hrow'
  rcases answered_iff.1 hanswered with heq | ⟨-, heq⟩
  · exact h.written seq row' rfl (heq ▸ hrow')
  · rw [heq] at hrow'
    cases hrow'
    rw [hrow]

theorem Invariant.not_ready_of_unmoved (h : Invariant s) (hget : s.owners.get e = some owner)
    (hwriting : ∀ request, owner.stage ≠ .ready request) (hunmoved : s.Unmoved e)
    (hget' : s.owners.get s.epoch = some owner') (hstage : owner'.stage = .ready request)
    (hv : request.value = some v) (hcount : request.record_count ≠ 0) : False := by
  obtain ⟨seq, -, hrow, -⟩ := h.ready owner' request v hget' hstage hv hcount
  have he : e = s.epoch := le_antisymm (h.known e owner hget) (hunmoved _ hrow)
  subst he
  rw [hget] at hget'
  cases hget'
  exact hwriting request hstage

theorem Sound.merge {seq' : StreamSeq T}
    {row' stored : Row T}
    (h : Sound s e ⟨next, confirm, some (some seq), .writing request row⟩)
    (hmerge : seq.merge_stream_seq e stored confirm = .ok (seq', row')) :
    Sound s e ⟨next, confirm, some (some seq'), .writing request row'⟩ := by
  unfold StreamSeq.merge_stream_seq at hmerge
  split_ifs at hmerge with hle
  simp only [Except.ok.injEq, Prod.mk.injEq] at hmerge
  obtain ⟨hseq, hrow⟩ := hmerge
  have hledger : row' = ⟨e, seq'.ledger⟩ := by rw [← hrow, ← hseq]
  -- the ledger is the old one, or the old one raised
  have hkeeps : (seq.ledger.Ordered → seq'.ledger.Ordered) ∧
      ∀ v b, seq.ledger.Covers v b → seq'.ledger.Covers v b := by
    rw [← hseq]
    cases (stored.ledger.settle confirm).last with
    | none => exact ⟨fun ho => ho, fun _ _ hc => hc⟩
    | some floor => exact ⟨fun ho => ho.raise floor, fun _ _ hc => hc.raise floor⟩
  refine ⟨h.reaches, fun q r hp hw => ?_, fun q hp => ?_, fun p hp hu v b hv => ?_,
    fun _ _ hstage => ?_, fun request' r hstage => ?_⟩
  · cases hp
    rw [← hseq] at hw
    cases hw
    exact le_of_lt (not_le.1 hle)
  · cases hp
    exact hkeeps.1 (h.ordered seq rfl)
  · cases hp
    refine ⟨_, rfl, ?_⟩
    obtain ⟨q, hq, hcovers⟩ := h.covers _ rfl hu v b hv
    cases hq
    exact hkeeps.2 v b hcovers
  · cases hstage
  · cases hstage
    obtain ⟨q, v, hq, hv, -, hself⟩ := h.writing request row rfl
    cases hq
    exact ⟨_, v, rfl, hv, hledger, fun hcount => hkeeps.2 _ _ (hself hcount)⟩

section

variable (h : Invariant s)
include h

theorem Invariant.write_stream_seq (e : ℕ) : Invariant (s.write_stream_seq e) := by
  unfold Sequenced.write_stream_seq
  split
  · rename_i next confirm seq request row hget
    have hsound := h.sound e _ hget
    obtain ⟨q, v, hq, hv, hrow, hself⟩ := hsound.writing request row rfl
    cases hq
    by_cases hanswered : answered s.row seq.written row = true
    · rw [if_pos hanswered]
      have hunmoved := hsound.unmoved hrow hanswered
      rw [put_kv_if_of_answered hanswered]
      have hinv : Invariant { s with row := some row, writes := s.writes + 1 } := by
        rw [hrow]
        refine h.put_row (h.known e _ hget) (hsound.ordered seq rfl) (fun w b hw => ?_) hunmoved
          (fun owner' request' w hget' hstage hw hcount => ?_)
        · obtain ⟨q, hq, hcovers⟩ := hsound.covers _ rfl hunmoved w b hw
          cases hq
          exact hcovers
        · refine h.not_ready_of_unmoved hget (fun _ hne => ?_) hunmoved hget' hstage hw hcount
          cases hne
      have hsound' := hinv.sound e _ hget
      refine hinv.put_owner hget ?_ rfl (fun he w hw => ?_)
        (fun he request' w hstage hw hcount => ?_)
      · refine ⟨hsound'.reaches, fun q r hp hr => ?_, fun q hp => ?_, fun p hp hu w b hw => ?_,
          fun _ _ hstage => ?_, fun _ _ hstage => ?_⟩
        · cases hp
          cases hr
          rw [hrow]
        · cases hp
          exact hsound.ordered seq rfl
        · cases hp
          refine ⟨_, rfl, ?_⟩
          obtain ⟨q, hq, hcovers⟩ := hsound'.covers _ rfl hu w b hw
          cases hq
          exact hcovers
        · cases hstage
        · cases hstage
      · subst he
        exact h.ahead _ w hget hw
      · subst he
        cases hstage
        rw [hv] at hw
        cases hw
        refine ⟨_, rfl, by rw [hrow], hself hcount, fun write hmem hsent => ?_⟩
        have := (h.harmless write hmem).sent
        have hsent' : write.sent = s.writes + 1 := hsent
        omega
    · rw [if_neg hanswered]
      split
      · rename_i stored hstored
        split
        · rename_i seq' row' hmerge
          have hput : Invariant (s.put_owner e
              ⟨next, confirm, some (some seq'), .writing request row'⟩) := by
            refine h.put_owner hget (hsound.merge hmerge) rfl (fun he w hw => ?_)
              (fun _ _ _ hstage => ?_)
            · subst he
              exact h.ahead _ w hget hw
            · cases hstage
          exact hput.history _ _ _ _
        · exact h.put_idle hget hsound.reset rfl rfl
      · exact h.put_idle hget hsound.idle rfl rfl
  · exact h

theorem Invariant.lose (e : ℕ) : Invariant (s.lose e) := by
  unfold Sequenced.lose
  split
  · rename_i next confirm seq request row hget
    have hsound := h.sound e _ hget
    obtain ⟨q, v, hq, -, hrow, -⟩ := hsound.writing request row rfl
    cases hq
    have hput := h.put_idle hget hsound.idle rfl rfl
    -- the write was prepared against the row that is expected
    have hnew : Harmless s ⟨seq.written, row, s.writes⟩ := by
      refine ⟨le_refl _, ?_, fun r hr => ?_, ?_, fun _ hexp w b hw => ?_⟩
      · rw [hrow]
        exact h.known e _ hget
      · rw [hrow]
        exact hsound.written seq r rfl hr
      · rw [hrow]
        exact hsound.ordered seq rfl
      · have hunmoved : s.Unmoved e := fun r hr => hsound.written seq r rfl (hexp.trans hr)
        obtain ⟨q, hq, hcovers⟩ := hsound.covers _ rfl hunmoved w b hw
        cases hq
        rw [hrow]
        exact hcovers
    refine ⟨hput.confirm, hput.known, hput.newest, hput.row_epoch, hput.row_ordered,
      hput.row_covers, hput.increasing, fun e' o ho => ?_, hput.ahead,
      fun o request' w ho hstage hw hcount => ?_, fun write hmem => ?_⟩
    · exact (hput.sound e' o ho).frame fun hu => ⟨hu, fun _ _ hv => hv⟩
    · obtain ⟨q, hq, hrow', hcovers, hdelayed⟩ := hput.ready o request' w ho hstage hw hcount
      refine ⟨q, hq, hrow', hcovers, fun write hmem hsent hexp => ?_⟩
      rcases mem_cons.1 hmem with rfl | hmem
      · -- an older owner expects an older row
        have hle : s.epoch ≤ e := hsound.written seq _ rfl (hexp.trans hrow')
        have he : e = s.epoch := le_antisymm (h.known e _ hget) hle
        subst he
        rw [get_insert_self] at ho
        cases ho
        cases hstage
      · exact hdelayed write hmem hsent hexp
    · have hw : Harmless s write := by
        rcases mem_cons.1 hmem with rfl | hmem
        · exact hnew
        · exact h.harmless write hmem
      exact hw.frame (le_refl _) rfl rfl fun _ _ hv => hv
  · exact h

theorem Invariant.forget {delayed : List (Delayed T)}
    (hsub : ∀ write ∈ delayed, write ∈ s.delayed) : Invariant { s with delayed } :=
  { h with
    sound := fun e owner hget => (h.sound e owner hget).frame fun hu => ⟨hu, fun _ _ hv => hv⟩
    ready := fun owner request v hget hstage hv hcount => by
      obtain ⟨seq, hp, hrow, hcovers, hdelayed⟩ := h.ready owner request v hget hstage hv hcount
      exact ⟨seq, hp, hrow, hcovers, fun write hmem => hdelayed write (hsub write hmem)⟩
    harmless := fun write hmem =>
      (h.harmless write (hsub write hmem)).frame (le_refl _) rfl rfl fun _ _ hv => hv }

theorem Invariant.land {i : ℕ} (hs : s.Steady (.land i)) : Invariant (s.land i) := by
  unfold Sequenced.land
  split
  · rename_i write hwrite
    have hmem := mem_of_getElem? hwrite
    have hw := h.harmless write hmem
    have hsub : ∀ w ∈ s.delayed.eraseIdx i, w ∈ s.delayed := fun w hmem' =>
      mem_of_mem_eraseIdx hmem'
    split_ifs with hrow
    · have hinv : Invariant { s with row := some write.row, writes := s.writes + 1 } := by
        refine h.put_row hw.epoch hw.ordered (hw.covers (hs write hwrite) hrow.symm)
          (fun row hsome => ?_) (fun owner request v hget hstage hv hcount => ?_)
        · exact hw.expected row (hrow ▸ hsome)
        · obtain ⟨-, -, -, -, hdelayed⟩ := h.ready owner request v hget hstage hv hcount
          exact hdelayed write hmem (hs write hwrite) hrow.symm
      exact hinv.forget hsub
    · exact h.forget hsub
  · exact h

/-! ## The log -/

/-- The newest owner submits records: their value is above all of the log and in the row. -/
theorem Invariant.append {producers : Option (Option (StreamSeq T))}
    (hget : s.owners.get s.epoch = some ⟨next, confirm, producers, .ready request⟩)
    (hcount : request.record_count ≠ 0) {log : BatchLog (Option T)}
    (hlog : log = s.log.append request.record_count request.value) :
    Invariant { s with
      log
      owners := s.owners.insert s.epoch ⟨log.next_offset, confirm, producers, .idle⟩ } := by
  subst hlog
  have hpos := Nat.pos_of_ne_zero hcount
  have hnext : next = s.log.next_offset := h.newest _ hget
  have hready := fun v hv => h.ready _ request v hget rfl hv hcount
  have hsound := h.sound _ _ hget
  refine ⟨h.confirm.append hpos, fun e o ho => ?_, fun o ho => ?_, h.row_epoch, h.row_ordered,
    fun v b hv => ?_, ?_, fun e o ho => ?_, fun o v ho hv => ?_,
    fun o request' v ho hstage => ?_, fun write hmem => ?_⟩
  · rcases get_insert_cases ho with ⟨he, -⟩ | ⟨-, ho⟩
    · exact le_of_eq he
    · exact h.known e o ho
  · rw [get_insert_self] at ho
    cases ho
    rfl
  · rcases carries_append hpos hv with hv | ⟨hvalue, rfl⟩
    · exact h.row_covers v b hv
    · obtain ⟨seq, -, hrow, hcovers, -⟩ := hready v hvalue
      exact ⟨_, hrow, hnext ▸ hcovers⟩
  · rw [append_of_pos hpos, filterMap_append]
    refine pairwise_append.2 ⟨h.increasing, ?_, fun w hw v hv => ?_⟩
    · cases request.value <;> simp
    · obtain ⟨batch, hmem, hw⟩ := mem_filterMap.1 hw
      have hvalue : request.value = some v := by
        cases hvalue : request.value with
        | none => simp [hvalue] at hv
        | some u =>
          simp only [hvalue, filterMap_cons, filterMap_nil, mem_singleton] at hv
          rw [hv]
      exact h.ahead _ v hget hvalue w _ ⟨batch, hmem, hw, rfl⟩
  · rcases get_insert_cases ho with ⟨rfl, rfl⟩ | ⟨he, ho⟩
    · refine sound_idle (fun _ v b hv => ?_) hsound.written hsound.ordered
        (fun p hp hu v b hv => ?_)
      · obtain ⟨batch, hmem, -, rfl⟩ := hv
        exact base_lt_next hmem
      · rcases carries_append hpos hv with hv | ⟨hvalue, rfl⟩
        · exact hsound.covers p hp hu v b hv
        · obtain ⟨seq, hp', -, hcovers, -⟩ := hready v hvalue
          cases hp.symm.trans hp'
          exact ⟨seq, rfl, hnext ▸ hcovers⟩
    · -- an owner that is succeeded finds the row overwritten, unless there is no value
      refine (h.sound e o ho).frame fun hu => ⟨hu, fun v b hv => ?_⟩
      rcases carries_append hpos hv with hv | ⟨hvalue, -⟩
      · exact hv
      · obtain ⟨seq, -, hrow, -⟩ := hready v hvalue
        exact absurd (le_antisymm (h.known e o ho) (hu _ hrow)) he
  · rw [get_insert_self] at ho
    cases ho
    cases hv
  · rw [get_insert_self] at ho
    cases ho
    cases hstage
  · have hw := h.harmless write hmem
    refine ⟨hw.sent, hw.epoch, hw.expected, hw.ordered, fun hsent hexp v b hv => ?_⟩
    rcases carries_append hpos hv with hv | ⟨hvalue, -⟩
    · exact hw.covers hsent hexp v b hv
    · obtain ⟨-, -, -, -, hdelayed⟩ := hready v hvalue
      exact absurd hexp (hdelayed write hmem hsent)

theorem Invariant.submit_append (e : ℕ) : Invariant (s.submit_append e) := by
  unfold Sequenced.submit_append
  split
  · rename_i next confirm producers request hget
    have hsound := h.sound e _ hget
    by_cases hcount : request.record_count = 0
    · rw [if_pos hcount]
      exact (h.put_idle hget hsound.idle rfl rfl).history _ _ _ _
    · rw [if_neg hcount]
      by_cases he : e = s.epoch
      · rw [if_pos he]
        subst he
        exact (h.append hget hcount rfl).history _ _ _ _
      · rw [if_neg he]
        exact h.put_idle hget hsound.reset rfl rfl
  · exact h

theorem Invariant.fail (e : ℕ) : Invariant (s.fail e) := by
  unfold Sequenced.fail
  split
  · rename_i hget
    exact h.put_idle hget (h.sound e _ hget).idle rfl rfl
  · rename_i hget
    exact h.put_idle hget (h.sound e _ hget).idle rfl rfl
  · exact h

theorem Invariant.put_confirm {c : ℕ} (hc : s.log.IsBoundary c) :
    Invariant { s with confirm_offset := c } :=
  { h with
    confirm := hc
    sound := fun e owner hget => (h.sound e owner hget).frame fun hu => ⟨hu, fun _ _ hv => hv⟩
    harmless := fun write hmem => (h.harmless write hmem).frame (le_refl _) rfl rfl fun _ _ hv => hv }

theorem Invariant.durable : Invariant s.durable := by
  unfold Sequenced.durable
  split
  · exact h
  · rename_i batch rest hsince
    have hc := isBoundary_last (of_since_eq_cons hsince).1
    cases hget : s.owners.get s.epoch with
    | none => exact h.put_confirm hc
    | some owner =>
      have hsound := h.sound _ _ hget
      have hput : Invariant (s.put_owner s.epoch
          { owner with confirm_offset := batch.last_offset }) := by
        refine h.put_owner hget ?_ rfl (fun _ v => h.ahead owner v hget)
          (fun _ request v => h.ready owner request v hget)
        exact ⟨hsound.reaches, hsound.written, hsound.ordered, hsound.covers, hsound.checked,
          hsound.writing⟩
      exact hput.put_confirm hc

theorem Invariant.confirm_values (e : ℕ) : Invariant (s.confirm e) := by
  unfold Sequenced.confirm
  split
  · rename_i next confirm producers hget
    have hsound := h.sound e _ hget
    refine h.put_idle hget ?_ rfl rfl
    refine sound_idle hsound.reaches (fun q r hp hr => ?_) (fun q hp => ?_)
      (fun p hp hu v b hv => ?_)
    · cases producers with
      | none => cases hp
      | some seq =>
        cases hp
        exact hsound.written seq r rfl hr
    · cases producers with
      | none => cases hp
      | some seq =>
        cases hp
        exact (hsound.ordered seq rfl).confirm confirm
    · cases hp
      obtain ⟨seq, rfl, hcovers⟩ := hsound.covers _ rfl hu v b hv
      exact ⟨_, rfl, hcovers.confirm (hsound.ordered seq rfl) confirm⟩
  · exact h

/-! ## Every run -/

theorem Invariant.step {a : Step T} (hs : s.Steady a) : Invariant (s.step a) := by
  cases a with
  | openAt c => exact h.open_stream c
  | load e => exact h.load_producers hs
  | check e request => exact h.check_stream_seq e request
  | book e => exact h.book e
  | write e => exact h.write_stream_seq e
  | lose e => exact h.lose e
  | land i => exact h.land hs
  | submit e => exact h.submit_append e
  | fail e => exact h.fail e
  | durable => exact h.durable
  | confirm e => exact h.confirm_values e

end

theorem Invariant.initial : Invariant ({} : Sequenced T) where
  confirm := isBoundary_zero
  known := fun _ _ hget => by cases hget
  newest := fun _ hget => by cases hget
  row_epoch := fun _ hrow => by cases hrow
  row_ordered := fun _ hrow => by cases hrow
  row_covers := fun _ _ hv => by
    obtain ⟨batch, hmem, -⟩ := hv
    cases hmem
  increasing := List.Pairwise.nil
  sound := fun _ _ hget => by cases hget
  ahead := fun _ _ hget => by cases hget
  ready := fun _ _ _ hget => by cases hget
  harmless := fun _ hmem => by cases hmem

theorem Invariant.durable_increasing (h : Invariant s) : Increasing s :=
  h.increasing.sublist (filter_sublist.filterMap _)

/-- If producers are loaded while nothing is in flight, and lost row writes land before the next one
or never, the values of the durable appends increase. -/
theorem stream_seq_increases {steps : List (Step T)} (h : Run.EachStep step {} steps Steady) :
    Run.Always step {} steps Increasing := by
  have hinv : Run.Always step {} steps Invariant :=
    Run.always_of_eachStep Invariant.initial (fun _ _ hs ha => hs.step ha) h
  exact fun i => (hinv i).durable_increasing

/-- A lost answer, a reload, and an owner that is succeeded while it writes the row. -/
def lost_and_merged : List (Step String) :=
  [.openAt 0, .load 1, .check 1 ⟨some "a", 1⟩, .book 1, .write 1, .submit 1, .durable, .confirm 1,
    .check 1 ⟨some "p", 1⟩, .book 1, .lose 1, .land 0, .check 1 ⟨some "q", 1⟩, .book 1, .write 1,
    .load 1, .check 1 ⟨some "c", 2⟩, .book 1, .write 1, .submit 1, .openAt 3, .load 2,
    .check 1 ⟨some "x", 1⟩, .book 1, .write 1, .submit 1, .check 2 ⟨some "d", 1⟩, .book 2, .write 2,
    .write 2, .submit 2, .durable]

theorem stream_seq_increases_when_merged :
    Run.EachStep step {} lost_and_merged Steady ∧
      Run.Always step {} lost_and_merged Increasing :=
  ⟨by decide +kernel, stream_seq_increases (by decide +kernel)⟩

/-- The producers are loaded again, at the same epoch, while an append is in flight. -/
def reloaded_in_flight : List (Step String) :=
  [.openAt 0, .load 1, .check 1 ⟨some "m", 1⟩, .book 1, .write 1, .submit 1,
    .check 1 ⟨some "p", 1⟩, .book 1, .lose 1, .land 0, .check 1 ⟨some "q", 1⟩, .book 1, .write 1,
    .load 1, .check 1 ⟨some "c", 1⟩, .book 1, .write 1, .submit 1, .durable, .durable]

/-- The value in flight is settled away, and a smaller one follows it. -/
theorem smaller_value_after_reload :
    (Run.run step {} reloaded_in_flight).log.batches.map Batch.payload = [some "m", some "c"] ∧
      (Run.run step {} reloaded_in_flight).confirm_offset = 2 ∧
      ¬ Increasing (Run.run step {} reloaded_in_flight) := by
  decide +kernel

end Sequenced

end PicoMq.Server
