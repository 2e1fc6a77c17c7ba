import Mathlib.Data.List.Chain
import PicoMq.Library.Proofs.RunProofs
import PicoMq.Server.KafkaSequences
import PicoMq.Server.Proofs.ProducersProofs

/-!
# Proofs: the sequence of one Kafka producer

The batches of the window and the one offered hold fewer records than there are sequences, so no two
of them begin at the same sequence.
-/

namespace PicoMq.Server

open List Metadata Producers

variable {id : ℤ} {s : NumericRun} {o b : Offer} {accepted : List Offer} {last : Offer}

/-! ## Sequences -/

theorem next_seq_eq {seq : ℤ} (h : 0 ≤ seq) (n : ℕ) : next_seq seq n = (seq + n) % SEQ_SPACE :=
  Int.tmod_eq_emod_of_nonneg (by omega)

def Offer.last_seq (o : Offer) : ℤ := next_seq o.first_seq (o.record_count - 1)

/-- Sequences are below the wrap; the batch holds records, but fewer than there are sequences. -/
structure Offer.Valid (o : Offer) : Prop where
  nonneg : 0 ≤ o.first_seq
  below : o.first_seq < SEQ_SPACE
  pos : 0 < o.record_count
  small : o.record_count < SEQ_SPACE

theorem Offer.Valid.next_last (h : b.Valid) :
    next_seq b.last_seq 1 = (b.first_seq + b.record_count) % SEQ_SPACE := by
  have hpos := h.pos
  have hlast : b.last_seq = (b.first_seq + (b.record_count - 1 : ℕ)) % SEQ_SPACE :=
    next_seq_eq h.nonneg _
  rw [next_seq_eq (by rw [hlast]; exact Int.emod_nonneg _ (by decide)), hlast]
  simp only [SEQ_SPACE]
  omega

theorem Offer.Valid.count_eq (h : b.Valid) (hpos : 0 < o.record_count)
    (hsmall : o.record_count < SEQ_SPACE) (hfirst : b.first_seq = o.first_seq)
    (hlast : b.last_seq = o.last_seq) : o.record_count = b.record_count := by
  have hb := h.pos
  have hbsmall := h.small
  rw [Offer.last_seq, Offer.last_seq, ← hfirst, next_seq_eq h.nonneg, next_seq_eq h.nonneg] at hlast
  simp only [SEQ_SPACE] at hlast hsmall hbsmall
  omega

/-! ## Chains of batches -/

def record_sum (batches : List Offer) : ℕ := (batches.map (·.record_count)).sum

/-- In a chain, a later batch begins as many sequences later as the batches before it hold. -/
theorem chain_first {l : List Offer} (h : (b :: l).IsChain Offer.Follows) (ho : o ∈ l) :
    ∃ k : ℕ, b.record_count ≤ k ∧ k + o.record_count ≤ record_sum (b :: l) ∧
      o.first_seq = (b.first_seq + k) % SEQ_SPACE := by
  induction l generalizing b with
  | nil => cases ho
  | cons c l ih =>
    obtain ⟨⟨-, hfirst⟩, hrest⟩ := isChain_cons_cons.1 h
    have hsum : record_sum (b :: c :: l) = b.record_count + record_sum (c :: l) := rfl
    have hsum' : record_sum (c :: l) = c.record_count + record_sum l := rfl
    rcases mem_cons.1 ho with rfl | ho
    · exact ⟨b.record_count, le_rfl, by omega, hfirst⟩
    · obtain ⟨k, -, hle, hk⟩ := ih hrest ho
      refine ⟨b.record_count + k, by omega, by omega, ?_⟩
      rw [hk, hfirst]
      simp only [SEQ_SPACE]
      omega

theorem chain_firsts_ne {l : List Offer} (h : l.IsChain Offer.Follows)
    (hvalid : ∀ c ∈ l, c.Valid) (hsum : record_sum l < SEQ_SPACE) :
    l.Pairwise fun b o => b.first_seq ≠ o.first_seq := by
  induction l with
  | nil => exact List.Pairwise.nil
  | cons b l ih =>
    have hle : record_sum (b :: l) = b.record_count + record_sum l := rfl
    refine pairwise_cons.2 ⟨fun o ho heq => ?_, ?_⟩
    · obtain ⟨k, hk, hbelow, hfirst⟩ := chain_first h ho
      have hb := hvalid b mem_cons_self
      have hpos := hb.pos
      have hnonneg := hb.nonneg
      have hfits := hb.below
      rw [← heq] at hfirst
      simp only [SEQ_SPACE] at hfirst hsum hfits
      omega
    · exact ih h.tail (fun c hc => hvalid c (mem_cons_of_mem _ hc)) (by omega)

/-! ## The window -/

def Offer.span (o : Offer) : Span := ⟨o.first_seq, o.last_seq, o.base_offset⟩

def Offer.entry (o : Offer) : ℤ × Span := (o.epoch, o.span)

theorem rtakeWhile_entries (epoch : ℤ) :
    ((accepted.map Offer.entry).rtakeWhile fun s => s.1 = epoch) =
      (accepted.rtakeWhile fun b => b.epoch = epoch).map Offer.entry := by
  rw [rtakeWhile, rtakeWhile, ← map_reverse, takeWhile_map, map_reverse]
  rfl

theorem rtake_map {α β : Type*} (f : α → β) (l : List α) (n : ℕ) :
    (l.map f).rtake n = (l.rtake n).map f := by
  rw [rtake, rtake, length_map, map_drop]

theorem window_entries : window (accepted.map Offer.entry) =
    accepted.getLast?.map fun last => (last.epoch, (current_batches accepted).map Offer.span) := by
  rw [window, getLast?_map]
  cases hlast : accepted.getLast? with
  | none => rfl
  | some last =>
    simp only [Option.map_some, current_batches, hlast]
    rw [show last.entry.1 = last.epoch from rfl, rtakeWhile_entries, map_map, rtake_map]
    rfl

theorem current_batches_eq (h : accepted.getLast? = some last) :
    current_batches accepted =
      (accepted.rtakeWhile fun b => b.epoch = last.epoch).rtake SPAN_WINDOW := by
  rw [current_batches, h]

theorem current_batches_suffix : current_batches accepted <:+ accepted := by
  rw [current_batches]
  split
  · exact nil_suffix
  · exact (drop_suffix _ _).trans (rtakeWhile_suffix _ _)

theorem epoch_of_mem_current (h : accepted.getLast? = some last)
    (hb : b ∈ current_batches accepted) : b.epoch = last.epoch := by
  rw [current_batches_eq h] at hb
  have hmem := mem_rtakeWhile_imp (mem_of_mem_drop hb)
  exact of_decide_eq_true hmem

theorem getLast_current (h : accepted.getLast? = some last) :
    (current_batches accepted).getLast? = some last := by
  obtain ⟨init, rfl⟩ := getLast?_eq_some_iff.1 h
  rw [current_batches_eq h, rtakeWhile_concat_pos _ _ _ (by simp), SPAN_WINDOW,
    rtake_concat_succ]
  exact getLast?_concat

theorem record_sum_current_le :
    record_sum (current_batches accepted) ≤ record_sum (accepted.rtake SPAN_WINDOW) := by
  have hlength : (current_batches accepted).length ≤ (accepted.rtake SPAN_WINDOW).length := by
    rw [rtake, length_drop]
    cases hlast : accepted.getLast? with
    | none =>
      rw [current_batches, hlast]
      exact Nat.zero_le _
    | some last =>
      have hle : (accepted.rtakeWhile fun b => b.epoch = last.epoch).length ≤ accepted.length :=
        (rtakeWhile_suffix _ _).length_le
      rw [current_batches_eq hlast, rtake, length_drop]
      omega
  obtain ⟨rest, hrest⟩ := suffix_of_suffix_length_le current_batches_suffix
    (drop_suffix _ accepted) hlength
  rw [record_sum, record_sum, rtake, ← hrest, map_append, sum_append]
  omega

theorem InOrder.chain (h : InOrder accepted) :
    (current_batches accepted).IsChain Offer.Follows := by
  rw [isChain_iff_forall_rel_of_append_cons_cons]
  intro a b before after heq
  obtain ⟨rest, hrest⟩ : current_batches accepted <:+ accepted := current_batches_suffix
  have hcontinues : Continues (rest ++ before ++ [a]) b := by
    refine h.sequences _ b after ?_
    rw [← hrest, heq]
    simp
  rw [Continues, getLast?_concat] at hcontinues
  rcases hcontinues with hfollows | ⟨hlt, -⟩
  · exact hfollows
  · cases hlast : accepted.getLast? with
    | none =>
      rw [current_batches, hlast] at heq
      exact absurd heq (by simp)
    | some last =>
      have ha := epoch_of_mem_current (b := a) hlast (by rw [heq]; simp)
      have hb := epoch_of_mem_current (b := b) hlast (by rw [heq]; simp)
      omega

/-! ## Decisions -/

section Decisions

variable {kafka : Kafka} {last : Offer}

/-- What is known of the producer is the window of what was accepted. -/
structure Knows (accepted : List Offer) (last : Offer) (kafka : Kafka) : Prop where
  latest : accepted.getLast? = some last
  epoch : kafka.epoch = last.epoch
  spans : kafka.spans = (current_batches accepted).map Offer.span

section

variable (hk : Knows accepted last kafka)
include hk

theorem find_spans (o : Offer) :
    (kafka.spans.find? fun s => s.first_seq = o.first_seq ∧ s.last_seq = o.last_seq) =
      ((current_batches accepted).find? fun b =>
        b.first_seq = o.first_seq ∧ b.last_seq = o.last_seq).map Offer.span := by
  rw [hk.spans, find?_map]
  rfl

theorem validate_fenced (hlt : o.epoch < last.epoch) :
    validate_numeric (some kafka) o.epoch o.first_seq o.last_seq = .fenced last.epoch := by
  rw [validate_numeric, hk.epoch, if_pos hlt]

theorem validate_later (hlt : last.epoch < o.epoch) :
    validate_numeric (some kafka) o.epoch o.first_seq o.last_seq =
      if o.first_seq ≠ 0 then .outOfOrder 0 o.first_seq else .accepted := by
  rw [validate_numeric, hk.epoch, if_neg (by omega), if_pos hlt]

theorem validate_duplicate (hepoch : o.epoch = last.epoch)
    (hfind : ((current_batches accepted).find? fun b =>
      b.first_seq = o.first_seq ∧ b.last_seq = o.last_seq) = some b) :
    validate_numeric (some kafka) o.epoch o.first_seq o.last_seq = .duplicate b.base_offset := by
  rw [validate_numeric, hk.epoch, if_neg (by omega), if_neg (by omega), find_spans hk, hfind]
  rfl

theorem validate_new (hvalid : last.Valid) (hepoch : o.epoch = last.epoch)
    (hfind : ((current_batches accepted).find? fun b =>
      b.first_seq = o.first_seq ∧ b.last_seq = o.last_seq) = none) :
    validate_numeric (some kafka) o.epoch o.first_seq o.last_seq =
      if o.first_seq = (last.first_seq + last.record_count) % SEQ_SPACE then .accepted
      else .outOfOrder ((last.first_seq + last.record_count) % SEQ_SPACE) o.first_seq := by
  have hexpected : (kafka.spans.getLast?.map fun s => next_seq s.last_seq 1).getD 0 =
      (last.first_seq + last.record_count) % SEQ_SPACE := by
    rw [hk.spans, getLast?_map, getLast_current hk.latest]
    exact hvalid.next_last
  rw [validate_numeric, hk.epoch, if_neg (by omega), if_neg (by omega), find_spans hk, hfind]
  dsimp only [Option.map_none]
  rw [hexpected]

end

/-- The batches in the window and the next one are told apart by their first sequences. -/
theorem firsts_ne_of_follows (horder : InOrder accepted) (hvalid : ∀ c ∈ accepted, c.Valid)
    (hlast : accepted.getLast? = some last) (hfollows : last.Follows o)
    (hpos : 0 < o.record_count)
    (hsum : o.record_count + record_sum (accepted.rtake SPAN_WINDOW) < SEQ_SPACE)
    (hb : b ∈ current_batches accepted) : b.first_seq ≠ o.first_seq := by
  have hle : record_sum (current_batches accepted) ≤ _ := record_sum_current_le
  have hchain : (current_batches accepted ++ [o]).IsChain Offer.Follows := by
    refine isChain_append.2 ⟨horder.chain, isChain_singleton o, fun c hc o' ho' => ?_⟩
    cases (getLast_current hlast).symm.trans hc
    cases ho'
    exact hfollows
  have hfirst : 0 ≤ o.first_seq ∧ o.first_seq < SEQ_SPACE := by
    rw [hfollows.2]
    exact ⟨Int.emod_nonneg _ (by decide), Int.emod_lt_of_pos _ (by decide)⟩
  have hall : ∀ c ∈ current_batches accepted ++ [o], c.Valid := by
    intro c hc
    rcases mem_append.1 hc with hc | hc
    · exact hvalid c (current_batches_suffix.subset hc)
    · cases mem_singleton.1 hc
      exact ⟨hfirst.1, hfirst.2, hpos, by omega⟩
  have htotal : record_sum (current_batches accepted ++ [o]) =
      record_sum (current_batches accepted) + o.record_count := by
    rw [record_sum, map_append, sum_append]
    rfl
  have hne := chain_firsts_ne hchain hall (by omega)
  exact (pairwise_append.1 hne).2.2 b hb o (mem_singleton_self o)

end Decisions

/-! ## Steps -/

/-- The memory is that of the batches accepted, which are in order. -/
structure Tracks (id : ℤ) (s : NumericRun) : Prop where
  kafka : ∀ http, s.producers.tracked.get id ≠ some (.http http)
  window : s.producers.remembered id = window (s.accepted.map Offer.entry)
  order : InOrder s.accepted
  valid : ∀ b ∈ s.accepted, b.Valid

theorem Tracks.known (h : Tracks id s) :
    s.accepted = [] ∧ s.producers.known id = none ∨
      ∃ last kafka, Knows s.accepted last kafka ∧ s.producers.known id = some kafka := by
  have hwindow := h.window
  rw [window_entries, remembered] at hwindow
  cases hlast : s.accepted.getLast? with
  | none =>
    rw [hlast, Option.map_none, Option.map_eq_none_iff] at hwindow
    exact .inl ⟨getLast?_eq_none_iff.1 hlast, hwindow⟩
  | some last =>
    rw [hlast, Option.map_some, Option.map_eq_some_iff] at hwindow
    obtain ⟨kafka, hknown, heq⟩ := hwindow
    obtain ⟨hepoch, hspans⟩ := Prod.mk.inj heq
    exact .inr ⟨last, kafka, ⟨hlast, hepoch, hspans⟩, hknown⟩

/-- The decision on a batch, by what was accepted before it. -/
structure Decided (accepted : List Offer) (o : Offer) (decision : Decision) : Prop where
  continues : Continues accepted o → decision = .accepted
  duplicate : ∀ b ∈ current_batches accepted, o.Resubmits b → decision = .duplicate b.base_offset
  fenced : ∀ last, accepted.getLast? = some last → o.epoch < last.epoch →
    decision = .fenced last.epoch
  refused : ¬Continues accepted o → (∀ b ∈ current_batches accepted, ¬o.Resubmits b) →
    (∀ last, accepted.getLast? = some last → last.epoch ≤ o.epoch) →
      ∃ expected received, decision = .outOfOrder expected received

theorem decided_first (o : Offer) :
    Decided [] o (validate_numeric none o.epoch o.first_seq o.last_seq) where
  continues hfirst := if_neg (not_not.2 hfirst)
  duplicate b hb := by cases hb
  fenced last hlast := by cases hlast
  refused hnot _ _ := ⟨0, o.first_seq, if_pos hnot⟩

theorem decided_later {kafka : Kafka} (hk : Knows accepted last kafka)
    (hlt : last.epoch < o.epoch) :
    Decided accepted o (validate_numeric (some kafka) o.epoch o.first_seq o.last_seq) := by
  have hcontinues : Continues accepted o ↔ o.first_seq = 0 := by
    rw [Continues, hk.latest]
    constructor
    · rintro (⟨heq, -⟩ | ⟨-, hfirst⟩)
      · omega
      · exact hfirst
    · exact fun hfirst => .inr ⟨hlt, hfirst⟩
  rw [validate_later hk hlt]
  refine ⟨fun h => if_neg (not_not.2 (hcontinues.1 h)), fun b hb hsame => ?_, fun last' h hlt' => ?_,
    fun hnot _ _ => ⟨0, o.first_seq, if_pos fun h => hnot (hcontinues.2 h)⟩⟩
  · have hb := epoch_of_mem_current hk.latest hb
    have := hsame.1
    omega
  · cases hk.latest.symm.trans h
    omega

theorem decided_earlier {kafka : Kafka} (hk : Knows accepted last kafka)
    (hlt : o.epoch < last.epoch) :
    Decided accepted o (validate_numeric (some kafka) o.epoch o.first_seq o.last_seq) := by
  rw [validate_fenced hk hlt]
  refine ⟨fun h => ?_, fun b hb hsame => ?_, fun last' h _ => ?_, fun _ _ hle => ?_⟩
  · rw [Continues, hk.latest] at h
    rcases h with ⟨heq, -⟩ | ⟨hlt', -⟩
    · omega
    · omega
  · have hb := epoch_of_mem_current hk.latest hb
    have := hsame.1
    omega
  · cases hk.latest.symm.trans h
    rfl
  · have := hle last hk.latest
    omega

theorem decided_current {kafka : Kafka} (hk : Knows accepted last kafka)
    (horder : InOrder accepted) (hvalid : ∀ b ∈ accepted, b.Valid) (hepoch : o.epoch = last.epoch)
    (hpos : 0 < o.record_count)
    (hsum : o.record_count + record_sum (accepted.rtake SPAN_WINDOW) < SEQ_SPACE) :
    Decided accepted o (validate_numeric (some kafka) o.epoch o.first_seq o.last_seq) := by
  have hcontinues : Continues accepted o ↔ last.Follows o := by
    rw [Continues, hk.latest]
    constructor
    · rintro (hfollows | ⟨hlt, -⟩)
      · exact hfollows
      · omega
    · exact .inl
  have hlast : last.Valid := hvalid last (mem_of_getLast? hk.latest)
  have hfound : ∀ c ∈ current_batches accepted, c.first_seq = o.first_seq → c.last_seq = o.last_seq →
      o.Resubmits c := by
    intro c hc hfirst hsame
    have hcvalid := hvalid c (current_batches_suffix.subset hc)
    refine ⟨hepoch.trans (epoch_of_mem_current hk.latest hc).symm, hfirst.symm, ?_⟩
    exact hcvalid.count_eq hpos (by omega) hfirst hsame
  cases hfind : (current_batches accepted).find? fun b =>
      b.first_seq = o.first_seq ∧ b.last_seq = o.last_seq with
  | none =>
    have hnone : ∀ b ∈ current_batches accepted, ¬o.Resubmits b := by
      intro b hb hsame
      have hlastseq : b.last_seq = o.last_seq := by
        rw [Offer.last_seq, Offer.last_seq, hsame.2.1, hsame.2.2]
      have := find?_eq_none.1 hfind b hb
      exact this (decide_eq_true ⟨hsame.2.1.symm, hlastseq⟩)
    rw [validate_new hk hlast hepoch hfind]
    refine ⟨fun h => if_pos (hcontinues.1 h).2, fun b hb hsame => absurd hsame (hnone b hb),
      fun last' h hlt => ?_, fun hnot _ _ => ⟨_, _, if_neg fun h => hnot (hcontinues.2 ⟨hepoch, h⟩)⟩⟩
    cases hk.latest.symm.trans h
    omega
  | some c =>
    have hc := mem_of_find?_eq_some hfind
    have hmatch : c.first_seq = o.first_seq ∧ c.last_seq = o.last_seq := by
      simpa using find?_some hfind
    have hsame := hfound c hc hmatch.1 hmatch.2
    rw [validate_duplicate hk hepoch hfind]
    refine ⟨fun h => ?_, fun b hb hsame' => ?_, fun last' h hlt => ?_, fun _ hnone _ =>
      absurd hsame (hnone c hc)⟩
    · have hne := firsts_ne_of_follows horder hvalid hk.latest (hcontinues.1 h) hpos hsum hc
      exact absurd hsame.2.1.symm hne
    · have hchain := chain_firsts_ne horder.chain
        (fun b hb => hvalid b (current_batches_suffix.subset hb))
        (lt_of_le_of_lt record_sum_current_le (by omega))
      have heq : c = b := inj_on_of_nodup_map (pairwise_map.2 hchain) hc hb
        (hmatch.1.trans hsame'.2.1)
      rw [heq]
    · cases hk.latest.symm.trans h
      omega

theorem Tracks.decided (h : Tracks id s) (hfits : s.Fits o) :
    Decided s.accepted o
      (validate_numeric (s.producers.known id) o.epoch o.first_seq o.last_seq) := by
  rcases h.known with ⟨hnil, hknown⟩ | ⟨last, kafka, hk, hknown⟩
  · rw [hknown, hnil]
    exact decided_first o
  · rw [hknown]
    rcases lt_trichotomy o.epoch last.epoch with hlt | heq | hlt
    · exact decided_earlier hk hlt
    · exact decided_current hk h.order h.valid heq hfits.1 hfits.2
    · exact decided_later hk hlt

/-! ## Runs -/

theorem admit_eq {decision : Decision} :
    validate_numeric (s.producers.known id) o.epoch o.first_seq o.last_seq = decision →
    s.producers.admit_numeric (some (o.producer id)) o.record_count o.now_ms =
      match decision with
      | .accepted => (s.producers, .ok (.accepted (some (o.producer id, o.last_seq))))
      | .duplicate base_offset =>
        (match s.producers.known id with
          | some kafka =>
            { s.producers with
              tracked := s.producers.tracked.insert id
                (.kafka { kafka with last_touched_ms := o.now_ms }) }
          | none => s.producers,
         .ok (.duplicate base_offset))
      | .fenced current_epoch => (s.producers, .error (.fenced (asU64 current_epoch)))
      | .outOfOrder expected received =>
        (s.producers, .error (.sequence_gap (asU64 expected) (asU64 received))) := by
  rintro rfl
  rfl

theorem Tracks.answered (h : Tracks id s) (hfits : s.Fits o) : NumericRun.Answered id s o := by
  have hdecided := h.decided hfits
  refine ⟨fun hc => ?_, fun b hb hsame => ?_, fun last hlast hlt => ?_, fun hc hb hle => ?_⟩
  · exact ⟨_, congrArg Prod.snd (admit_eq (hdecided.continues hc))⟩
  · exact congrArg Prod.snd (admit_eq (hdecided.duplicate b hb hsame))
  · exact congrArg Prod.snd (admit_eq (hdecided.fenced last hlast hlt))
  · obtain ⟨expected, received, heq⟩ := hdecided.refused hc hb hle
    exact ⟨_, _, congrArg Prod.snd (admit_eq heq)⟩

theorem Decided.continues_of_accepted (h : Decided accepted o .accepted) : Continues accepted o := by
  by_contra hnot
  by_cases hb : ∃ b ∈ current_batches accepted, o.Resubmits b
  · obtain ⟨b, hb, hsame⟩ := hb
    cases h.duplicate b hb hsame
  · by_cases hlast : ∃ last, accepted.getLast? = some last ∧ o.epoch < last.epoch
    · obtain ⟨last, hlast, hlt⟩ := hlast
      cases h.fenced last hlast hlt
    · obtain ⟨expected, received, heq⟩ := h.refused hnot (fun b hmem hsame => hb ⟨b, hmem, hsame⟩)
        fun last hlast' => not_lt.1 fun hlt => hlast ⟨last, hlast', hlt⟩
      cases heq

theorem InOrder.concat (h : InOrder accepted) (hc : Continues accepted o) :
    InOrder (accepted ++ [o]) := by
  constructor
  · refine pairwise_append.2 ⟨h.epochs, pairwise_singleton _ _, fun a ha c hc' => ?_⟩
    cases mem_singleton.1 hc'
    cases hlast : accepted.getLast? with
    | none =>
      rw [getLast?_eq_none_iff.1 hlast] at ha
      cases ha
    | some last =>
      have hle : a.epoch ≤ last.epoch := by
        obtain ⟨init, rfl⟩ := getLast?_eq_some_iff.1 hlast
        rcases mem_append.1 ha with ha | ha
        · exact (pairwise_append.1 h.epochs).2.2 a ha last (mem_singleton_self last)
        · rw [mem_singleton.1 ha]
      rw [Continues, hlast] at hc
      rcases hc with ⟨heq, -⟩ | ⟨hlt, -⟩
      · omega
      · omega
  · intro before c after heq
    rcases eq_nil_or_concat after with rfl | ⟨init, d, rfl⟩
    · obtain ⟨rfl, hcons⟩ := append_inj' heq rfl
      cases hcons
      exact hc
    · have heq' : accepted ++ [o] = (before ++ c :: init) ++ [d] := by
        rw [heq]
        simp
      obtain ⟨hinit, -⟩ := append_inj' heq' rfl
      exact h.sequences before c init hinit

theorem Continues.first_seq_range (h : Continues accepted o) :
    0 ≤ o.first_seq ∧ o.first_seq < SEQ_SPACE := by
  have hzero : o.first_seq = 0 → 0 ≤ o.first_seq ∧ o.first_seq < SEQ_SPACE := by
    intro hfirst
    rw [hfirst]
    decide
  rw [Continues] at h
  split at h
  · exact hzero h
  · rcases h with ⟨-, hfirst⟩ | ⟨-, hfirst⟩
    · rw [hfirst]
      exact ⟨Int.emod_nonneg _ (by decide), Int.emod_lt_of_pos _ (by decide)⟩
    · exact hzero hfirst

theorem Tracks.record (h : Tracks id s) (hfits : s.Fits o) (hc : Continues s.accepted o) :
    Tracks id
      { producers := s.producers.record_numeric (some (o.producer id, o.last_seq)) o.base_offset
          o.now_ms
        accepted := s.accepted ++ [o] } := by
  have hremembered : (s.producers.record_numeric (some (o.producer id, o.last_seq)) o.base_offset
      o.now_ms).remembered id = some (push (s.producers.remembered id) o.epoch o.span) :=
    remembered_record_numeric h.kafka
  refine ⟨fun http hhttp => ?_, ?_, h.order.concat hc, fun b hb => ?_⟩
  · obtain ⟨kafka, hknown, -⟩ := remembered_eq_some hremembered
    cases (get_of_known hknown).symm.trans hhttp
  · dsimp only
    rw [map_append, map_singleton, Offer.entry, window_concat, ← h.window]
    exact hremembered
  · rcases mem_append.1 hb with hb | hb
    · exact h.valid b hb
    · cases mem_singleton.1 hb
      obtain ⟨hnonneg, hbelow⟩ := hc.first_seq_range
      have hsum := hfits.2
      exact ⟨hnonneg, hbelow, hfits.1, by omega⟩

theorem Tracks.touch (h : Tracks id s) {kafka : Kafka} (hknown : s.producers.known id = some kafka)
    (now_ms : ℤ) :
    Tracks id { s with producers := { s.producers with
      tracked := s.producers.tracked.insert id (.kafka { kafka with last_touched_ms := now_ms }) } }
    where
  kafka http hhttp := by
    dsimp only at hhttp
    rw [OrdMap.get_insert_self] at hhttp
    cases hhttp
  window := by
    have htouched : (s.producers.tracked.insert id
        (.kafka { kafka with last_touched_ms := now_ms })).get id =
          some (.kafka { kafka with last_touched_ms := now_ms }) := OrdMap.get_insert_self ..
    rw [← h.window, remembered_of_kafka (get_of_known hknown),
      remembered_of_kafka htouched]
  order := h.order
  valid := h.valid

theorem Tracks.step (h : Tracks id s) (hfits : s.Fits o) : Tracks id (s.step id o) := by
  have hdecided := h.decided hfits
  cases hdecision : validate_numeric (s.producers.known id) o.epoch o.first_seq o.last_seq with
  | accepted =>
    rw [hdecision] at hdecided
    rw [NumericRun.step, admit_eq hdecision]
    exact h.record hfits hdecided.continues_of_accepted
  | duplicate base_offset =>
    rw [NumericRun.step, admit_eq hdecision]
    cases hknown : s.producers.known id with
    | none => exact h
    | some kafka => exact h.touch hknown o.now_ms
  | fenced | outOfOrder =>
    rw [NumericRun.step, admit_eq hdecision]
    exact h

/-- In every run of the batches of a producer id that is no session's, each `Fits`: what is accepted
is in order, and every batch is answered by what was accepted before it. -/
theorem kafka_sequences (id : ℤ) (p : Producers) (hp : p.tracked.get id = none)
    (offers : List Offer)
    (h : Run.EachStep (NumericRun.step id) { producers := p } offers NumericRun.Fits) (i : ℕ) :
    InOrder (Run.after (NumericRun.step id) { producers := p } offers i).accepted ∧
      ∀ o, offers[i]? = some o →
        NumericRun.Answered id (Run.after (NumericRun.step id) { producers := p } offers i) o := by
  have hstart : Tracks id { producers := p } := by
    refine ⟨fun http hhttp => ?_, ?_, ⟨List.Pairwise.nil, fun before o after heq => ?_⟩, nofun⟩
    · cases hp.symm.trans hhttp
    · show p.remembered id = none
      rw [Producers.remembered, Producers.known, hp]
      rfl
    · exact absurd heq.symm (by simp)
  have htracks : Run.Always (NumericRun.step id) { producers := p } offers (Tracks id) :=
    Run.always_of_eachStep hstart (fun s o hs ho => hs.step ho) h
  exact ⟨(htracks i).order, fun o ho => (htracks i).answered (h i o ho)⟩

/-- Two batches, a retry of the first, a gap, a new epoch and a batch of the old one. -/
def retried_offers : List Offer :=
  [⟨0, 0, 3, 100, 1⟩, ⟨0, 3, 2, 103, 2⟩, ⟨0, 0, 3, 200, 3⟩, ⟨0, 9, 1, 200, 4⟩, ⟨1, 0, 4, 105, 5⟩,
    ⟨0, 5, 1, 200, 6⟩]

theorem kafka_sequences_retried :
    Run.EachStep (NumericRun.step 7) { producers := ⟨1, 0, .empty, .empty⟩ } retried_offers
        NumericRun.Fits ∧
      (Run.after (NumericRun.step 7) { producers := ⟨1, 0, .empty, .empty⟩ } retried_offers 2).answer
        7 ⟨0, 0, 3, 200, 3⟩ = .ok (.duplicate 100) := by
  have hfits : Run.EachStep (NumericRun.step 7) { producers := ⟨1, 0, .empty, .empty⟩ }
      retried_offers NumericRun.Fits := by decide +kernel
  have hanswered := (kafka_sequences 7 _ rfl retried_offers hfits 2).2 ⟨0, 0, 3, 200, 3⟩ rfl
  exact ⟨hfits, hanswered.duplicate ⟨0, 0, 3, 100, 1⟩ (by decide +kernel) ⟨rfl, rfl, rfl⟩⟩

end PicoMq.Server
