import PicoMq.Library.Proofs.RunProofs
import PicoMq.Server.AppendTimes

/-!
# Proofs: timestamps of HTTP appends

An owner whose memory covers the HTTP appends of the log stamps later than all of them.
-/

namespace PicoMq.Server

open List Option

theorem http_times_append (log : List TimedEntry) (e : TimedEntry) :
    http_times (log ++ [e]) = http_times log ++ e.http_time.toList := by
  rw [http_times, filterMap_append, http_times]
  cases h : e.http_time <;> simp [h]

theorem http_times_take_sublist (log : List TimedEntry) (n : ℕ) :
    (http_times (log.take n)).Sublist (http_times log) :=
  (take_sublist n log).filterMap _

namespace TimedLog

variable {s : TimedLog} {t' : ℤ}

/-- The memory covers the HTTP appends, or the append under way does and will be noted. -/
structure Covered (s : TimedLog) : Prop where
  sorted : (http_times s.log).Pairwise (· < ·)
  remembered : ∀ last ∈ s.last_timestamp_ms, (∀ t ∈ http_times s.log, t ≤ last) ∨
    ∃ t', s.stage = .stamped t' ∨ s.stage = .submitted t'
  stamped : ∀ t', s.stage = .stamped t' → ∀ t ∈ http_times s.log, t < t'
  submitted : ∀ t', s.stage = .submitted t' → ∀ t ∈ http_times s.log, t ≤ t'
  in_range : s.overflowed = false

theorem Covered.monotonic (h : s.Covered) : s.Monotonic :=
  ⟨h.sorted.sublist (http_times_take_sublist ..), h.in_range⟩

theorem le_read_back {e : TimedEntry} {t : ℤ} (h : e.http_time = some t) : e.read_back = t := by
  cases e with
  | http t' => cases h; rfl
  | kafka headers => cases h

theorem le_of_getLast? {log : List TimedEntry} (h : (http_times log).Pairwise (· < ·))
    {tail : TimedEntry} (htail : log.getLast? = some tail) (ht' : tail.http_time = some t') :
    ∀ t ∈ http_times log, t ≤ t' := by
  obtain ⟨init, rfl⟩ := getLast?_eq_some_iff.1 htail
  rw [http_times_append, ht', toList_some] at h ⊢
  intro t ht
  rcases mem_append.1 ht with ht | ht
  · exact le_of_lt ((pairwise_append.1 h).2.2 t ht t' (mem_singleton_self t'))
  · exact le_of_eq (mem_singleton.1 ht)

section

variable (h : s.Covered)
include h

/-- The last known timestamp is not below the HTTP appends, unless the clock is past them. -/
theorem Covered.last_spec {now_ms : ℤ} (hcan : s.CanStamp now_ms) (hidle : s.stage = .idle) :
    (∀ t ∈ http_times s.log, t ≤ s.last) ∨ ∀ t ∈ http_times s.log, t < now_ms := by
  unfold last
  cases hlast : s.last_timestamp_ms with
  | some l =>
    left
    rcases h.remembered l hlast with hle | ⟨t', hbusy | hbusy⟩
    · exact hle
    · rw [hidle] at hbusy
      cases hbusy
    · rw [hidle] at hbusy
      cases hbusy
  | none =>
    rcases hcan.2 hlast with ⟨hlive, hall, tail, htail, hhttp⟩ | hclock
    · obtain ⟨t', ht'⟩ := isSome_iff_exists.1 hhttp
      left
      rw [getD_none, read_back_timestamp, if_neg (not_le.2 hlive), hall, take_length, htail]
      dsimp only
      rw [le_read_back ht']
      exact le_of_getLast? h.sorted htail ht'
    · exact .inr hclock

theorem Covered.next_timestamp {now_ms : ℤ} (hcan : s.CanStamp now_ms)
    (hidle : s.stage = .idle) : (s.next_timestamp now_ms).Covered := by
  have hcover := h.last_spec hcan hidle
  rw [TimedLog.next_timestamp, if_pos (Int.add_one_le_of_lt hcan.1)]
  refine ⟨h.sorted, fun _ _ => .inr ⟨_, .inl rfl⟩, fun t' ht' t ht => ?_, fun t' ht' => ?_,
    h.in_range⟩
  · cases ht'
    rcases hcover with hle | hclock
    · exact lt_of_lt_of_le (Int.lt_add_one_of_le (hle t ht)) (le_max_right ..)
    · exact lt_of_lt_of_le (hclock t ht) (le_max_left ..)
  · cases ht'

theorem Covered.submit_http (hstage : s.stage = .stamped t') :
    ({ s with log := s.log ++ [.http t'], stage := .submitted t' } : TimedLog).Covered := by
  have hlt := h.stamped t' hstage
  have htimes : http_times (s.log ++ [.http t']) = http_times s.log ++ [t'] :=
    http_times_append ..
  refine ⟨?_, fun _ _ => .inr ⟨_, .inr rfl⟩, fun _ hbusy => ?_, fun t'' ht'' t ht => ?_, h.in_range⟩
  · rw [htimes, pairwise_append]
    refine ⟨h.sorted, pairwise_singleton .., fun t ht t'' ht'' => ?_⟩
    rw [mem_singleton.1 ht'']
    exact hlt t ht
  · cases hbusy
  · cases ht''
    rw [htimes] at ht
    rcases mem_append.1 ht with ht | ht
    · exact le_of_lt (hlt t ht)
    · exact le_of_eq (mem_singleton.1 ht)

theorem Covered.frame {s' : TimedLog}
    (hlog : (http_times s'.log).Sublist (http_times s.log))
    (hmemory : s'.last_timestamp_ms = none ∨
      s'.last_timestamp_ms = s.last_timestamp_ms ∧ (s'.stage = s.stage ∨ s.stage = .idle))
    (hstage : s'.stage = s.stage ∨ ∀ t', s'.stage ≠ .stamped t' ∧ s'.stage ≠ .submitted t')
    (hrange : s'.overflowed = s.overflowed) : s'.Covered where
  sorted := h.sorted.sublist hlog
  remembered := by
    intro last hlast
    rcases hmemory with hnone | ⟨hsame, hgoes⟩
    · rw [hnone] at hlast
      cases hlast
    rw [hsame] at hlast
    rcases h.remembered last hlast with hle | ⟨t', hbusy⟩
    · exact .inl fun t ht => hle t (hlog.subset ht)
    rcases hgoes with hgoes | hidle
    · rw [hgoes]
      exact .inr ⟨t', hbusy⟩
    · rw [hidle] at hbusy
      rcases hbusy with hbusy | hbusy <;> cases hbusy
  stamped := by
    intro t' ht' t ht
    rcases hstage with hsame | hother
    · exact h.stamped t' (hsame ▸ ht') t (hlog.subset ht)
    · exact absurd ht' (hother t').1
  submitted := by
    intro t' ht' t ht
    rcases hstage with hsame | hother
    · exact h.submitted t' (hsame ▸ ht') t (hlog.subset ht)
    · exact absurd ht' (hother t').2
  in_range := hrange.trans h.in_range

theorem Covered.submit_kafka (headers : List TimeHeader)
    (hidle : s.stage = .idle) : (s.submit_kafka headers).Covered := by
  have hlog : (http_times (s.log ++ [.kafka headers])).Sublist (http_times s.log) := by
    rw [http_times_append, show (TimedEntry.kafka headers).http_time.toList = [] from rfl,
      append_nil]
  refine h.frame hlog (.inr ⟨rfl, .inr hidle⟩) (.inr fun t' => ?_) rfl
  unfold TimedLog.submit_kafka
  dsimp only
  split_ifs
  · exact ⟨nofun, nofun⟩
  · exact ⟨nofun, nofun⟩

end

theorem le_note_timestamp (last : Option ℤ) (t : ℤ) : t ≤ note_timestamp last t := by
  cases last with
  | none => exact le_refl t
  | some last => exact le_max_right last t

theorem Covered.note (h : s.Covered) (hstage : s.stage = .submitted t' ∨
    s.stage = .produced t') (hcan : s.CanNote) :
    ({ s with last_timestamp_ms := some (note_timestamp s.last_timestamp_ms t'), stage := .idle } :
      TimedLog).Covered := by
  have hcover : ∀ t ∈ http_times s.log, t ≤ note_timestamp s.last_timestamp_ms t' := by
    intro t ht
    rcases hstage with hhttp | hkafka
    · exact (h.submitted t' hhttp t ht).trans (le_note_timestamp _ _)
    cases hlast : s.last_timestamp_ms with
    | none => exact hcan hlast t' (by rw [hkafka]; rfl) t ht
    | some last =>
      rcases h.remembered last hlast with hle | ⟨t'', hbusy⟩
      · exact (hle t ht).trans (le_max_left last t')
      · rw [hkafka] at hbusy
        rcases hbusy with hbusy | hbusy <;> cases hbusy
  refine ⟨h.sorted, fun last hlast => ?_, nofun, nofun, h.in_range⟩
  cases hlast
  exact .inl hcover

theorem Covered.keep (h : s.Covered) (kept : ℕ) : (s.keep kept).Covered :=
  h.frame (http_times_take_sublist ..) (.inr ⟨rfl, .inl rfl⟩) (.inl rfl) rfl

theorem Covered.step (h : s.Covered) {a : Step} (ha : s.Recalls a) : (s.step a).Covered := by
  cases a with
  | stamp now_ms =>
    rw [TimedLog.step]
    split_ifs with hidle
    · exact h.next_timestamp ha hidle
    · exact h
  | submit_http =>
    rw [TimedLog.step]
    split
    · next t hstage => exact h.submit_http hstage
    · exact h
  | submit_kafka headers =>
    rw [TimedLog.step]
    split_ifs with hidle
    · exact h.submit_kafka headers hidle
    · exact h
  | note =>
    rw [TimedLog.step]
    split
    · next t hstage => exact h.note (.inl hstage) ha
    · next t hstage => exact h.note (.inr hstage) ha
    · exact h
  | abandon =>
    rw [TimedLog.step]
    split
    · exact h.frame (List.Sublist.refl _) (.inl rfl) (.inr fun _ => ⟨nofun, nofun⟩) rfl
    · exact h
  | confirm durable =>
    rw [TimedLog.step]
    split_ifs
    · exact h.frame (List.Sublist.refl _) (.inr ⟨rfl, .inl rfl⟩) (.inl rfl) rfl
    · exact h
  | trim trimmed => exact h.frame (List.Sublist.refl _) (.inr ⟨rfl, .inl rfl⟩) (.inl rfl) rfl
  | reset_memory => exact h.frame (List.Sublist.refl _) (.inl rfl) (.inl rfl) rfl
  | reopen kept => exact h.keep kept
  | change_owner kept =>
    exact (h.keep kept).frame (List.Sublist.refl _) (.inl rfl) (.inr fun _ => ⟨nofun, nofun⟩) rfl

theorem covered_start : ({} : TimedLog).Covered :=
  ⟨List.Pairwise.nil, nofun, nofun, nofun, rfl⟩

/-- While each timestamp and note can rely on what the owner knows, the timestamps of the durable
HTTP appends increase, and computing them never overflows. -/
theorem http_timestamps_increase (steps : List Step)
    (h : Run.EachStep TimedLog.step {} steps Recalls) :
    Run.Always TimedLog.step {} steps Monotonic := by
  have hcovered := Run.always_of_eachStep covered_start
    (fun (s : TimedLog) a (hs : s.Covered) (ha : s.Recalls a) => hs.step ha) h
  exact fun n => (hcovered n).monotonic

/-- After a failed append a new owner's clock is far behind: its timestamp still follows the one it
reads back. After a trim to the end of the log, the clock of the next owner is past all of them. -/
theorem http_timestamps_increase_after_reset :
    ∃ s : TimedLog, s.Monotonic ∧ http_times (s.log.take s.durable) = [100, 250, 251, 300] := by
  let steps : List Step := [.stamp 100, .submit_http, .note,
    .submit_kafka [⟨true, 200⟩, ⟨false, 900⟩], .note, .confirm 2, .reset_memory,
    .stamp 250, .submit_http, .note, .confirm 3, .trim 2, .change_owner 3, .stamp 50, .submit_http,
    .note, .confirm 4, .trim 4, .change_owner 4, .stamp 300, .submit_http, .note, .confirm 5]
  exact ⟨Run.after TimedLog.step {} steps 23,
    http_timestamps_increase steps (by decide +kernel) 23, by decide +kernel⟩

/-- A client's own times hide the HTTP appends before them from a new owner, so does a trim to the
end, and a batch stamped at the largest time leaves no later one. -/
theorem client_times_break_http_timestamps :
    http_times (Run.run TimedLog.step {} [.stamp 100, .submit_http, .note, .submit_kafka [⟨false, 7⟩],
        .confirm 2, .change_owner 2, .stamp 50, .submit_http, .note, .confirm 3]).log = [100, 50] ∧
      ¬ (Run.run TimedLog.step {} [.stamp 100, .submit_http, .note, .submit_kafka [⟨false, 7⟩],
        .confirm 2, .change_owner 2, .stamp 50, .submit_http, .note, .confirm 3]).Monotonic ∧
      http_times (Run.run TimedLog.step {} [.stamp 100, .submit_http, .note, .confirm 1, .trim 1,
        .change_owner 1, .stamp 50, .submit_http, .note, .confirm 2]).log = [100, 50] ∧
      (Run.run TimedLog.step {} [.submit_kafka [⟨true, I64_MAX⟩], .note, .stamp 100]).overflowed =
        true := by
  decide +kernel

end TimedLog

end PicoMq.Server
