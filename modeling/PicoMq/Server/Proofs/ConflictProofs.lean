import PicoMq.Server.Proofs.SequencedAppendsProofs

/-!
# Proofs: sequence conflicts

Where every value in a ledger and in the row comes from: an append that was submitted or closed the
topic, or the one its owner is working on.
-/

namespace PicoMq.Server

open OrdMap

namespace Sequenced

variable {T : Type} {s s' : Sequenced T} {e : ℕ} {owner owner' : Owner T} {v : T}

/-- An append with this value was submitted, or it closed the topic. -/
def Accounted (s : Sequenced T) (v : T) : Prop := v ∈ s.submitted ∨ v ∈ s.closed

/-- The newest owner is about to submit an append with this value. -/
def Submits (s : Sequenced T) (v : T) : Prop :=
  ∃ owner request, s.owners.get s.epoch = some owner ∧ owner.stage = .ready request ∧
    request.value = some v

/-- What holds of an owner when no append with a value fails. -/
structure Earned (s : Sequenced T) (e : ℕ) (owner : Owner T) : Prop where
  known : e ≤ s.epoch
  booked : owner.stage.booked = true → e = s.epoch
  written : ∀ seq, owner.producers = some (some seq) → s.row = none → seq.written = none
  writing : ∀ request row, owner.stage = .writing request row →
    ∃ seq v, owner.producers = some (some seq) ∧ request.value = some v ∧ row = ⟨e, seq.ledger⟩
  ledger : ∀ seq, owner.producers = some (some seq) → ∀ v ∈ seq.ledger.values,
    s.Accounted v ∨ owner.stage.booked = true ∧ owner.stage.value = some v

theorem Earned.frame (h : Earned s e owner) (hepoch : s'.epoch = s.epoch)
    (hrow : s'.row = none → s.row = none) (haccounted : ∀ v, s.Accounted v → s'.Accounted v) :
    Earned s' e owner where
  known := hepoch ▸ h.known
  booked := fun hb => (h.booked hb).trans hepoch.symm
  written := fun seq hp hnone => h.written seq hp (hrow hnone)
  writing := h.writing
  ledger := fun seq hp v hv => (h.ledger seq hp v hv).imp (haccounted v) id

theorem Earned.of_not_booked (h : Earned s e owner) (hbooked : owner.stage.booked = false)
    {seq : StreamSeq T} (hp : owner.producers = some (some seq)) (hv : v ∈ seq.ledger.values) :
    s.Accounted v := by
  rcases h.ledger seq hp v hv with hacc | ⟨hb, -⟩
  · exact hacc
  · rw [hbooked] at hb
    cases hb

theorem Earned.idle (h : Earned s e owner) {next confirm : ℕ}
    {producers : Option (Option (StreamSeq T))}
    (hwritten : ∀ seq, producers = some (some seq) → s.row = none → seq.written = none)
    (hledger : ∀ seq, producers = some (some seq) → ∀ v ∈ seq.ledger.values, s.Accounted v) :
    Earned s e ⟨next, confirm, producers, .idle⟩ where
  known := h.known
  booked := fun hb => by cases hb
  written := hwritten
  writing := fun _ _ hstage => by cases hstage
  ledger := fun seq hp v hv => .inl (hledger seq hp v hv)

variable [LinearOrder T]

structure Earnest (s : Sequenced T) : Prop where
  delayed : s.delayed = []
  owners : ∀ e owner, s.owners.get e = some owner → Earned s e owner
  row : ∀ row, s.row = some row → ∀ v ∈ row.ledger.values,
    s.Accounted v ∨ row.epoch = s.epoch ∧ s.Submits v
  justified : s.Justified

section

variable (h : Earnest s)
include h

theorem Earnest.row_accounted {row : Row T} (hrow : s.row = some row)
    (hv : v ∈ row.ledger.values) (hget : s.owners.get e = some owner) (hle : row.epoch ≤ e)
    (hready : ∀ request, owner.stage ≠ .ready request) : s.Accounted v := by
  rcases h.row row hrow v hv with hacc | ⟨hepoch, owner', request, hget', hstage, -⟩
  · exact hacc
  · have he : e = s.epoch := le_antisymm (h.owners e owner hget).known (hepoch ▸ hle)
    subst he
    rw [hget] at hget'
    cases hget'
    exact absurd hstage (hready request)

theorem Earnest.put_owner (hget : s.owners.get e = some owner)
    (howner : Earned s e owner')
    (hready : ∀ request, owner.stage = .ready request → request.value = none) :
    Earnest (s.put_owner e owner') := by
  refine ⟨h.delayed, fun e' o ho => ?_, fun row hrow v hv => ?_, h.justified⟩
  · have hearned : Earned s e' o := by
      rcases get_insert_cases ho with ⟨rfl, rfl⟩ | ⟨-, ho⟩
      · exact howner
      · exact h.owners e' o ho
    exact hearned.frame rfl id fun _ hacc => hacc
  · rcases h.row row hrow v hv with hacc | ⟨hepoch, o, request, ho, hstage, hvalue⟩
    · exact .inl hacc
    · refine .inr ⟨hepoch, o, request, ?_, hstage, hvalue⟩
      have hne : s.epoch ≠ e := by
        intro he
        rw [he, hget] at ho
        cases ho
        rw [hready request hstage] at hvalue
        cases hvalue
      simp only [Sequenced.put_owner, get_insert, if_neg hne]
      exact ho

theorem Earnest.inherit (values : List T) :
    Earnest { s with inherited := values ++ s.inherited } where
  delayed := h.delayed
  owners := fun e o ho => (h.owners e o ho).frame rfl id fun _ hacc => hacc
  row := h.row
  justified := fun seq hseq => by
    obtain ⟨value, hmem, hle⟩ := h.justified seq hseq
    refine ⟨value, ?_, hle⟩
    rcases List.mem_append.1 hmem with hmem | hmem
    · exact List.mem_append_left _ hmem
    · exact List.mem_append_right _ (List.mem_append_right _ hmem)

/-! ## Steps -/

theorem Earnest.open_stream {c : ℕ} (hs : s.Unfailing (.openAt c)) :
    Earnest (s.open_stream c) := by
  unfold Sequenced.open_stream
  split_ifs with hcond
  · -- nobody has booked a value
    have hbooked : ∀ e o, s.owners.get e = some o → o.stage.booked = false := by
      intro e o ho
      by_contra hb
      have he := (h.owners e o ho).booked (by simpa using hb)
      subst he
      exact hb (hs o ho)
    refine ⟨h.delayed, fun e o ho => ?_, fun row hrow v hv => ?_, h.justified⟩
    · rcases get_insert_cases ho with ⟨he, rfl⟩ | ⟨-, ho⟩
      · exact
          { known := le_of_eq he
            booked := fun hb => by cases hb
            written := fun _ hp => by cases hp
            writing := fun _ _ hstage => by cases hstage
            ledger := fun _ hp => by cases hp }
      · have hearned := h.owners e o ho
        refine ⟨Nat.le_succ_of_le hearned.known, fun hb => ?_, hearned.written, hearned.writing,
          fun seq hp v hv => ?_⟩
        · rw [hbooked e o ho] at hb
          cases hb
        · exact .inl (hearned.of_not_booked (hbooked e o ho) hp hv)
    · rcases h.row row hrow v hv with hacc | ⟨-, o, request, ho, hstage, hvalue⟩
      · exact .inl hacc
      · have hb := hbooked _ o ho
        simp [hstage, Stage.booked, hvalue] at hb
  · exact h

theorem Earnest.load_producers (e : ℕ) : Earnest (s.load_producers e) := by
  unfold Sequenced.load_producers
  split
  · rename_i next confirm hget
    split
    · rename_i producers hload
      have hput : Earnest (s.put_owner e ⟨next, confirm, some producers, .idle⟩) := by
        refine h.put_owner hget ?_ (fun _ hstage => by cases hstage)
        cases hrow : s.row with
        | none =>
          rw [hrow] at hload
          cases hload
          refine (h.owners e _ hget).idle (fun _ hp => ?_) (fun _ hp => ?_)
          · cases hp
          · cases hp
        | some row =>
          simp only [hrow, StreamSeq.load] at hload
          split_ifs at hload with hlt
          cases hload
          refine (h.owners e _ hget).idle (fun _ _ hnone => ?_) (fun seq hp v hv => ?_)
          · rw [hrow] at hnone
            cases hnone
          · cases hp
            exact h.row_accounted hrow (Ledger.mem_settle hv) hget (not_lt.1 hlt)
              fun _ hstage => by cases hstage
      exact hput.inherit _
    · exact h
  · exact h

end

theorem regressed_by_value {producers : Option (StreamSeq T)}
    (h : StreamSeq.stream_seq_regressed producers v = true) :
    ∃ seq u, producers = some seq ∧ u ∈ seq.ledger.values ∧ v ≤ u := by
  simp only [StreamSeq.stream_seq_regressed, Option.any_eq_true, Option.bind_eq_some_iff,
    decide_eq_true_eq] at h
  obtain ⟨u, ⟨seq, hseq, hlast⟩, hle⟩ := h
  exact ⟨seq, u, hseq, Ledger.last_mem_values hlast, hle⟩

theorem Earnest.check_stream_seq (h : Earnest s) (e : ℕ) (request : SeqRequest T) :
    Earnest (s.check_stream_seq e request) := by
  unfold Sequenced.check_stream_seq
  split
  · rename_i next confirm producers hget
    have hearned := h.owners e _ hget
    split
    · rename_i v hfilter
      refine ⟨h.delayed, fun e' o ho => ?_, h.row, fun seq hseq => ?_⟩
      · exact (h.owners e' o ho).frame rfl id fun _ hacc => hacc
      · rcases List.mem_cons.1 hseq with rfl | hseq
        · obtain ⟨q, u, rfl, hu, hle⟩ := regressed_by_value (Option.filter_eq_some_iff.1 hfilter).2
          refine ⟨u, List.mem_append_left _ (List.mem_append.2 ?_), hle⟩
          exact hearned.of_not_booked rfl rfl hu
        · exact h.justified seq hseq
    · refine h.put_owner hget ?_ (fun _ hstage => by cases hstage)
      refine ⟨hearned.known, fun hb => ?_, hearned.written, fun _ _ hstage => ?_,
        fun seq hp v hv => ?_⟩
      · cases hb
      · cases hstage
      · exact .inl (hearned.of_not_booked rfl hp hv)
  · exact h

theorem Earnest.book (h : Earnest s) (hs : s.Unfailing (.book e)) : Earnest (s.book e) := by
  unfold Sequenced.book
  split
  · rename_i next confirm producers request hget
    have hearned := h.owners e _ hget
    split
    · rename_i v hv
      have he : e = s.epoch := hs _ hget (by simp [Stage.value, hv])
      refine h.put_owner hget ?_ (fun _ hstage => by cases hstage)
      refine ⟨hearned.known, fun _ => he, fun seq hp hnone => ?_, fun request' row hstage => ?_,
        fun seq hp u hu => ?_⟩
      · cases hp
        cases producers with
        | none => rfl
        | some seq => exact hearned.written seq rfl hnone
      · cases hstage
        exact ⟨_, v, rfl, hv, rfl⟩
      · cases hp
        rcases Ledger.mem_accept hu with rfl | hu
        · exact .inr ⟨rfl, hv⟩
        · cases producers with
          | none => cases hu
          | some seq => exact .inl (hearned.of_not_booked rfl rfl hu)
    · rename_i hv
      refine h.put_owner hget ?_ (fun _ hstage => by cases hstage)
      refine ⟨hearned.known, fun hb => ?_, hearned.written, fun _ _ hstage => ?_,
        fun seq hp u hu => ?_⟩
      · simp [Stage.booked, hv] at hb
      · cases hstage
      · exact .inl (hearned.of_not_booked rfl hp hu)
  · exact h

theorem mem_merge {seq seq' : StreamSeq T} {stored row' : Row T} {confirm : ℕ}
    (h : seq.merge_stream_seq e stored confirm = .ok (seq', row')) :
    stored.epoch < e ∧ row' = ⟨e, seq'.ledger⟩ ∧
      ∀ v ∈ seq'.ledger.values, v ∈ stored.ledger.values ∨ v ∈ seq.ledger.values := by
  unfold StreamSeq.merge_stream_seq at h
  split_ifs at h with hle
  simp only [Except.ok.injEq, Prod.mk.injEq] at h
  obtain ⟨hseq, hrow⟩ := h
  refine ⟨not_le.1 hle, by rw [← hrow, ← hseq], fun v hv => ?_⟩
  rw [← hseq] at hv
  cases hlast : (stored.ledger.settle confirm).last with
  | none =>
    rw [hlast] at hv
    exact .inr hv
  | some floor =>
    rw [hlast] at hv
    rcases Ledger.mem_raise hv with rfl | hv
    · exact .inl (Ledger.mem_settle (Ledger.last_mem_values hlast))
    · exact .inr hv

theorem row_of_not_answered {expected : Option (Row T)} {row : Row T}
    (h : answered s.row expected row ≠ true) (hexpected : s.row = none → expected = none) :
    s.row ≠ none := by
  intro hnone
  exact h (answered_iff.2 (.inl (hnone.trans (hexpected hnone).symm)))

section

variable (h : Earnest s)
include h

theorem Earnest.write_stream_seq (e : ℕ) : Earnest (s.write_stream_seq e) := by
  unfold Sequenced.write_stream_seq
  split
  · rename_i next confirm seq request row hget
    have hearned := h.owners e _ hget
    obtain ⟨q, v, hq, hv, hrow⟩ := hearned.writing request row rfl
    cases hq
    have he : e = s.epoch := hearned.booked rfl
    by_cases hanswered : answered s.row seq.written row = true
    · rw [if_pos hanswered]
      rw [put_kv_if_of_answered hanswered]
      refine ⟨h.delayed, fun e' o ho => ?_, fun r hr u hu => ?_, h.justified⟩
      · rcases get_insert_cases ho with ⟨rfl, rfl⟩ | ⟨-, ho⟩
        · refine ⟨hearned.known, fun _ => he, fun q hp hnone => ?_, fun _ _ hstage => ?_,
            fun q hp u hu => ?_⟩
          · cases hnone
          · cases hstage
          · cases hp
            refine (hearned.ledger seq rfl u hu).imp id fun hown => ⟨?_, hown.2⟩
            simp [Stage.booked, hv]
        · refine (h.owners e' o ho).frame rfl (fun hnone => ?_) fun _ hacc => hacc
          cases hnone
      · cases hr
        rw [hrow] at hu
        refine (hearned.ledger seq rfl u hu).imp id fun hown => ⟨by rw [hrow]; exact he, ?_⟩
        exact ⟨_, request, by rw [← he, get_insert_self], rfl, hown.2⟩
    · rw [if_neg hanswered]
      split
      · rename_i stored hstored
        split
        · rename_i seq' row' hmerge
          obtain ⟨hlt, hrow', hvalues⟩ := mem_merge hmerge
          have hput : Earnest (s.put_owner e
              ⟨next, confirm, some (some seq'), .writing request row'⟩) := by
            refine h.put_owner hget ?_ (fun _ hstage => by cases hstage)
            refine ⟨hearned.known, fun _ => he, fun q hp hnone => ?_, fun request' r hstage => ?_,
              fun q hp u hu => ?_⟩
            · rw [hstored] at hnone
              cases hnone
            · cases hstage
              exact ⟨_, v, rfl, hv, hrow'⟩
            · cases hp
              rcases hvalues u hu with hu | hu
              · refine .inl (h.row_accounted hstored hu hget (le_of_lt hlt) fun _ hstage => ?_)
                cases hstage
              · exact hearned.ledger seq rfl u hu
          exact hput.inherit _
        · refine h.put_owner hget (hearned.idle (fun _ hp => ?_) (fun _ hp => ?_))
            (fun _ hstage => by cases hstage)
          · cases hp
          · cases hp
      · rename_i hnone
        exact absurd hnone (row_of_not_answered hanswered (hearned.written seq rfl))
  · exact h

theorem Earnest.lose (hs : s.Unfailing (.lose e)) : Earnest (s.lose e) := by
  unfold Sequenced.lose
  split
  · rename_i hget
    have hbooked := hs _ hget
    cases hbooked
  · exact h

theorem Earnest.land (i : ℕ) : Earnest (s.land i) := by
  unfold Sequenced.land
  split
  · rename_i write hwrite
    rw [h.delayed] at hwrite
    cases hwrite
  · exact h

/-- The append of the newest owner is submitted, or closes the topic. -/
theorem Earnest.finish {next confirm next' : ℕ}
    {producers : Option (Option (StreamSeq T))} {request : SeqRequest T}
    (hget : s.owners.get e = some ⟨next, confirm, producers, .ready request⟩)
    {submitted closed : List T} (hsubmitted : s.submitted ⊆ submitted) (hclosed : s.closed ⊆ closed)
    (hvalue : ∀ v, request.value = some v → v ∈ submitted ∨ v ∈ closed)
    (log : BatchLog (Option T)) :
    Earnest { s with
      log
      submitted
      closed
      owners := s.owners.insert e ⟨next', confirm, producers, .idle⟩ } := by
  have hearned := h.owners e _ hget
  have hmono : ∀ v, s.Accounted v → v ∈ submitted ∨ v ∈ closed := fun v hacc =>
    hacc.imp (fun hv => hsubmitted hv) (fun hv => hclosed hv)
  refine ⟨h.delayed, fun e' o ho => ?_, fun row hrow v hv => ?_, fun seq hseq => ?_⟩
  · rcases get_insert_cases ho with ⟨rfl, rfl⟩ | ⟨-, ho⟩
    · refine ⟨hearned.known, fun hb => ?_, hearned.written, fun _ _ hstage => ?_,
        fun seq hp v hv => .inl ?_⟩
      · cases hb
      · cases hstage
      · rcases hearned.ledger seq hp v hv with hacc | ⟨-, hown⟩
        · exact hmono v hacc
        · exact hvalue v hown
    · exact (h.owners e' o ho).frame rfl id hmono
  · rcases h.row row hrow v hv with hacc | ⟨hepoch, o, request', ho, hstage, hv'⟩
    · exact .inl (hmono v hacc)
    · by_cases he : s.epoch = e
      · rw [he, hget] at ho
        cases ho
        cases hstage
        exact .inl (hvalue v hv')
      · refine .inr ⟨hepoch, o, request', ?_, hstage, hv'⟩
        rw [get_insert, if_neg he]
        exact ho
  · obtain ⟨value, hmem, hle⟩ := h.justified seq hseq
    refine ⟨value, ?_, hle⟩
    simp only [List.mem_append] at hmem ⊢
    exact hmem.imp (fun hmem => hmem.imp (fun hv => hsubmitted hv) fun hv => hclosed hv) id

theorem Earnest.submit_append (e : ℕ) : Earnest (s.submit_append e) := by
  unfold Sequenced.submit_append
  split
  · rename_i next confirm producers request hget
    have hearned := h.owners e _ hget
    by_cases hcount : request.record_count = 0
    · rw [if_pos hcount]
      refine h.finish hget (fun _ hv => hv) (List.subset_append_right _ _) (fun v hv => ?_) s.log
      simp [hv]
    · rw [if_neg hcount]
      by_cases he : e = s.epoch
      · rw [if_pos he]
        refine h.finish hget (List.subset_append_right _ _) (fun _ hv => hv) (fun v hv => ?_) _
        simp [hv]
      · rw [if_neg he]
        -- an owner that is succeeded has no value to submit
        have hnone : request.value = none := by
          cases hv : request.value with
          | none => rfl
          | some v => exact absurd (hearned.booked (by simp [Stage.booked, hv])) he
        refine h.put_owner hget (hearned.idle (fun _ hp => ?_) (fun _ hp => ?_)) fun r hstage => ?_
        · cases hp
        · cases hp
        · cases hstage
          exact hnone
  · exact h

theorem Earnest.fail (hs : s.Unfailing (.fail e)) : Earnest (s.fail e) := by
  unfold Sequenced.fail
  split
  · rename_i hget
    have hearned := h.owners e _ hget
    refine h.put_owner hget (hearned.idle hearned.written fun seq hp v hv => ?_)
      (fun _ hstage => by cases hstage)
    exact hearned.of_not_booked rfl hp hv
  · rename_i request hget
    have hearned := h.owners e _ hget
    have hbooked := hs _ hget
    refine h.put_owner hget (hearned.idle hearned.written fun seq hp v hv => ?_)
      (fun r hstage => ?_)
    · exact hearned.of_not_booked hbooked hp hv
    · cases hstage
      simpa [Stage.booked] using hbooked
  · exact h

theorem Earnest.durable : Earnest s.durable := by
  unfold Sequenced.durable
  split
  · exact h
  · rename_i batch rest hsince
    cases hget : s.owners.get s.epoch with
    | none =>
      refine ⟨h.delayed, fun e o ho => ?_, h.row, h.justified⟩
      exact (h.owners e o ho).frame rfl id fun _ hacc => hacc
    | some owner =>
      refine ⟨h.delayed, fun e o ho => ?_, fun row hrow v hv => ?_, h.justified⟩
      · rcases get_insert_cases ho with ⟨rfl, rfl⟩ | ⟨-, ho⟩
        · have hearned := h.owners _ owner hget
          exact ⟨hearned.known, hearned.booked, hearned.written, hearned.writing, hearned.ledger⟩
        · exact (h.owners e o ho).frame rfl id fun _ hacc => hacc
      · rcases h.row row hrow v hv with hacc | ⟨hepoch, o, request, ho, hstage, hvalue⟩
        · exact .inl hacc
        · cases hget.symm.trans ho
          refine .inr ⟨hepoch, { owner with confirm_offset := batch.last_offset }, request, ?_,
            hstage, hvalue⟩
          exact get_insert_self _ _ _

theorem Earnest.confirm (e : ℕ) : Earnest (s.confirm e) := by
  unfold Sequenced.confirm
  split
  · rename_i next confirm producers hget
    have hearned := h.owners e _ hget
    refine h.put_owner hget (hearned.idle (fun seq hp hnone => ?_) (fun seq hp v hv => ?_))
      (fun _ hstage => by cases hstage)
    · cases producers with
      | none => cases hp
      | some q =>
        cases hp
        exact hearned.written q rfl hnone
    · cases producers with
      | none => cases hp
      | some q =>
        cases hp
        exact hearned.of_not_booked rfl rfl (Ledger.mem_confirm hv)
  · exact h

/-! ## Every run -/

theorem Earnest.step {a : Step T} (hs : s.Unfailing a) : Earnest (s.step a) := by
  cases a with
  | openAt c => exact h.open_stream hs
  | load e => exact h.load_producers e
  | check e request => exact h.check_stream_seq e request
  | book e => exact h.book hs
  | write e => exact h.write_stream_seq e
  | lose e => exact h.lose hs
  | land i => exact h.land i
  | submit e => exact h.submit_append e
  | fail e => exact h.fail hs
  | durable => exact h.durable
  | confirm e => exact h.confirm e

end

theorem Earnest.initial : Earnest ({} : Sequenced T) where
  delayed := rfl
  owners := fun _ _ hget => by cases hget
  row := fun _ hrow => by cases hrow
  justified := fun _ hseq => by cases hseq

/-- If no append fails, and no owner is succeeded, between booking a value and submitting, a
conflict is reported only over a value that was submitted, closed the topic, or was recorded as
durable. -/
theorem conflict_is_justified {steps : List (Step T)} (h : Run.EachStep step {} steps Unfailing) :
    Run.Always step {} steps Justified := by
  have hearnest : Run.Always step {} steps Earnest :=
    Run.always_of_eachStep Earnest.initial (fun _ _ hs ha => hs.step ha) h
  exact fun i => (hearnest i).justified

/-- An append that finds no session is repeated; one that repeats a submitted value is refused. -/
def retried_without_session : List (Step String) :=
  [.openAt 0, .load 1, .check 1 ⟨some "m", 1⟩, .fail 1, .check 1 ⟨some "m", 1⟩, .book 1, .write 1,
    .submit 1, .check 1 ⟨some "m", 1⟩, .durable, .confirm 1, .check 1 ⟨some "n", 0⟩, .book 1,
    .write 1, .submit 1, .openAt 1, .load 2, .check 2 ⟨some "c", 1⟩, .check 2 ⟨some "o", 1⟩,
    .book 2, .write 2, .submit 2]

theorem conflict_is_justified_without_session :
    Run.EachStep step {} retried_without_session Unfailing ∧
      Run.Always step {} retried_without_session Justified :=
  ⟨by decide +kernel, conflict_is_justified (by decide +kernel)⟩

/-- An append whose row write fails, and its retry. -/
def retried_after_row_write : List (Step String) :=
  [.openAt 0, .load 1, .check 1 ⟨some "m", 1⟩, .book 1, .lose 1, .check 1 ⟨some "m", 1⟩]

/-- The retry is a conflict, although nothing was ever submitted. -/
theorem retry_refused_after_row_write :
    (Run.run step {} retried_after_row_write).refused = ["m"] ∧
      (Run.run step {} retried_after_row_write).log.batches.map Batch.payload = [] ∧
      ¬ Justified (Run.run step {} retried_after_row_write) := by
  decide +kernel

end Sequenced

end PicoMq.Server
