import PicoMq.Library.Proofs.OrdMapProofs
import PicoMq.Library.Proofs.RunProofs
import PicoMq.Topics.Modify
import PicoMq.Topics.Proofs.TopicProofs

/-!
# Proofs: modifying a topic

A request is granted only where the very bytes it read are the last version.
-/

namespace PicoMq.Topics.TopicRow

open List OrdMap

variable {s s' : TopicRow} {id : ℕ}

/-! ## What a step can do -/

/-- The request of the modification may still get to the metadata. -/
def IsOpen : Phase → Prop
  | .loading _ | .proposed .. | .abandoned .. => True
  | .stored _ | .unchanged _ | .failed _ => False

/-- What a modification knows in a phase. -/
def Sound (s : TopicRow) (id : ℕ) (m : Modification) : Phase → Prop
  | .loading _ => True
  | .proposed stored now_ms next | .abandoned stored now_ms next _ =>
    ∃ topic, Topic.decode stored = .ok topic ∧ topic.id = m.topic.id ∧
      next = m.change.apply now_ms topic
  | .stored next =>
    ∃ (i : ℕ) (now_ms : Int64), s.versions[i]? = some ⟨some next.encode, .modified id now_ms⟩
  | .unchanged topic =>
    ∃ (i : ℕ) (v : Version) (stored : List UInt8) (now_ms : Int64), s.versions[i]? = some v ∧
      v.stored = some stored ∧ Topic.decode stored = .ok topic ∧ m.change.apply now_ms topic = topic
  | .failed _ => True

/-- The ways a step can end. -/
inductive End (s : TopicRow) : TopicRow → Prop where
  | idle : End s s
  | learned (views : OrdMap ℕ ℕ) : End s { s with views }
  | refused (id : TopicId) : End s { s with ids := id :: s.ids }
  | created (id : TopicId) (name : TopicName) (command : CreateCommand) (now_ms : Int64)
      (hid : id ∉ s.ids) (hnone : s.current = none) :
      End s (({ s with ids := id :: s.ids } : TopicRow).push
        (some (command.candidate id name now_ms).encode) (.created id))
  | removed : End s (s.push none .removed)
  | started (id : ℕ) (m : Modification) (hnew : s.modifications.get id = none)
      (hphase : m.phase = .loading none) : End s (s.put_modification id m)
  | moved (id : ℕ) (m m' : Modification) (hget : s.modifications.get id = some m)
      (hopen : IsOpen m.phase) (htopic : m'.topic = m.topic) (hchange : m'.change = m.change)
      (hsound : s.Sound id m m.phase → s.Sound id m' m'.phase) : End s (s.put_modification id m')
  | landed (id : ℕ) (m : Modification) (phase : Phase) (stored : List UInt8) (now_ms : Int64)
      (next : Topic) (hget : s.modifications.get id = some m) (hopen : IsOpen m.phase)
      (hcurrent : s.current = some stored)
      (hsound : s.Sound id m m.phase → s.Sound id m (.proposed stored now_ms next))
      (hphase : phase = .stored next ∨ ∃ error, phase = .failed error) :
      End s ((s.put_modification id { m with phase }).push (some next.encode) (.modified id now_ms))

theorem sound_loaded (s : TopicRow) (id : ℕ) (m : Modification) (synced : Option ℕ)
    (now_ms : Int64) :
    s.Sound id { m with phase := s.loaded m synced now_ms } (s.loaded m synced now_ms) := by
  unfold loaded
  cases hread : s.get_kv m.node with
  | none =>
    dsimp only
    split
    · trivial
    · trivial
  | some stored =>
    dsimp only
    cases hdecode : Topic.decode stored with
    | error error => trivial
    | ok topic =>
      dsimp only
      by_cases hid : topic.id = m.topic.id
      · rw [if_pos hid]
        split
        · rename_i hsame
          obtain ⟨v, hv, hstored⟩ := Option.bind_eq_some_iff.1 hread
          exact ⟨_, v, stored, now_ms, hv, hstored, hdecode, hsame⟩
        · exact ⟨topic, hdecode, hid, rfl⟩
      · rw [if_neg hid]
        trivial

theorem step_end (s : TopicRow) (a : Step) : End s (s.step a) := by
  cases a with
  | learn node version =>
    dsimp only [step]
    split
    · exact .learned _
    · exact .idle
  | create id name command now_ms =>
    dsimp only [step]
    cases TopicName.parse name with
    | error error => exact .idle
    | ok name =>
      dsimp only
      by_cases hid : id ∈ s.ids
      · rw [if_pos hid]
        exact .idle
      · rw [if_neg hid]
        split
        · rename_i hnone
          exact .created id name command now_ms hid hnone
        · exact .refused id
  | remove stored =>
    dsimp only [step]
    split
    · exact .removed
    · exact .idle
  | start id node topic change now_ms =>
    dsimp only [step]
    split
    · exact .idle
    · rename_i hnot
      have hnew : s.modifications.contains_key id = false :=
        Bool.eq_false_iff.2 fun hkey => hnot (.inl hkey)
      exact .started id _ (contains_key_eq_false.1 hnew) rfl
  | load id now_ms =>
    dsimp only [step]
    cases hget : s.modifications.get id with
    | none => exact .idle
    | some m =>
      dsimp only
      split
      · rename_i synced hphase
        split
        · refine .moved id m _ hget ?_ rfl rfl fun _ => sound_loaded s id m synced now_ms
          rw [hphase]
          trivial
        · exact .idle
      · exact .idle
  | land id =>
    dsimp only [step]
    cases hget : s.modifications.get id with
    | none => exact .idle
    | some m =>
      dsimp only
      split
      · rename_i stored now_ms next hphase
        have hopen : IsOpen m.phase := by
          rw [hphase]
          trivial
        split
        · rename_i hcurrent
          refine .landed id m (.stored next) stored now_ms next hget hopen hcurrent ?_ (.inl rfl)
          rw [hphase]
          exact fun h => h
        · refine .moved id m _ hget hopen rfl rfl fun _ => ?_
          unfold conflicted
          dsimp only
          split
          · trivial
          · trivial
      · rename_i stored now_ms next error hphase
        have hopen : IsOpen m.phase := by
          rw [hphase]
          trivial
        split
        · rename_i hcurrent
          refine .landed id m (.failed error) stored now_ms next hget hopen hcurrent ?_
            (.inr ⟨error, rfl⟩)
          rw [hphase]
          exact fun h => h
        · exact .moved id m _ hget hopen rfl rfl fun _ => trivial
      · exact .idle
  | fail id error =>
    dsimp only [step]
    cases hget : s.modifications.get id with
    | none => exact .idle
    | some m =>
      dsimp only
      split
      · rename_i synced hphase
        refine .moved id m _ hget ?_ rfl rfl fun _ => trivial
        rw [hphase]
        trivial
      · rename_i stored now_ms next hphase
        have hopen : IsOpen m.phase := by
          rw [hphase]
          trivial
        refine .moved id m _ hget hopen rfl rfl ?_
        rw [hphase]
        exact fun h => h
      · exact .idle

/-! ## The versions -/

/-- The modifications are the same calls, however far they are. -/
def KeepsCalls (s s' : TopicRow) : Prop :=
  ∀ id m, s.modifications.get id = some m → ∃ m', s'.modifications.get id = some m' ∧
    m'.topic = m.topic ∧ m'.change = m.change

/-- How the versions follow each other. -/
structure Linked (s : TopicRow) : Prop where
  changed : ∀ i v w stored next, s.versions[i]? = some v → s.versions[i + 1]? = some w →
    v.stored = some stored → w.stored = some next →
    ∃ id now_ms m topic, w.cause = .modified id now_ms ∧ s.modifications.get id = some m ∧
      Topic.decode stored = .ok topic ∧ topic.id = m.topic.id ∧
      next = (m.change.apply now_ms topic).encode
  once : ∀ (i j : ℕ) v w id now_ms now_ms', s.versions[i]? = some v → s.versions[j]? = some w →
    v.cause = .modified id now_ms → w.cause = .modified id now_ms' → i = j
  grows : ∀ (i j : ℕ) v w stored later topic topic', i ≤ j → s.versions[i]? = some v →
    s.versions[j]? = some w → v.stored = some stored → w.stored = some later →
    Topic.decode stored = .ok topic → Topic.decode later = .ok topic' → topic.id = topic'.id →
    topic.partitions ≤ topic'.partitions ∧ (topic.closed → topic'.closed)

theorem Linked.of_keepsCalls (h : Linked s) (hversions : s'.versions = s.versions)
    (hcalls : KeepsCalls s s') : Linked s' := by
  refine ⟨?_, ?_, ?_⟩
  · intro i v w stored next hv hw hstored hnext
    rw [hversions] at hv hw
    obtain ⟨id, now_ms, m, topic, hcause, hget, hdecode, hid, hchange⟩ :=
      h.changed i v w stored next hv hw hstored hnext
    obtain ⟨m', hget', htopic, hsame⟩ := hcalls id m hget
    rw [← htopic] at hid
    rw [← hsame] at hchange
    exact ⟨id, now_ms, m', topic, hcause, hget', hdecode, hid, hchange⟩
  · rw [hversions]
    exact h.once
  · rw [hversions]
    exact h.grows

theorem getElem?_push {l : List Version} {new v : Version} {i : ℕ} (h : (l ++ [new])[i]? = some v) :
    l[i]? = some v ∨ i = l.length ∧ v = new := by
  rcases Nat.lt_trichotomy i l.length with hlt | heq | hgt
  · rw [getElem?_append_left hlt] at h
    exact .inl h
  · subst heq
    rw [getElem?_concat_length] at h
    exact .inr ⟨rfl, (Option.some.inj h).symm⟩
  · rw [getElem?_eq_none (by simp; omega)] at h
    cases h

theorem Linked.push (h : Linked s) (new : Version)
    (hchanged : ∀ stored next, s.current = some stored → new.stored = some next →
      ∃ id now_ms m topic, new.cause = .modified id now_ms ∧ s.modifications.get id = some m ∧
        Topic.decode stored = .ok topic ∧ topic.id = m.topic.id ∧
        next = (m.change.apply now_ms topic).encode)
    (honce : ∀ v ∈ s.versions, ∀ id now_ms now_ms', v.cause = .modified id now_ms →
      new.cause ≠ .modified id now_ms')
    (hgrows : ∀ (i : ℕ) v stored later topic topic', s.versions[i]? = some v →
      v.stored = some stored → new.stored = some later → Topic.decode stored = .ok topic →
      Topic.decode later = .ok topic' → topic.id = topic'.id →
      topic.partitions ≤ topic'.partitions ∧ (topic.closed → topic'.closed)) :
    Linked (s.push new.stored new.cause) := by
  refine ⟨?_, ?_, ?_⟩
  · intro i v w stored next hv hw hstored hnext
    rcases getElem?_push hw with hw | ⟨hi, rfl⟩
    · rcases getElem?_push hv with hv | ⟨hi, rfl⟩
      · exact h.changed i v w stored next hv hw hstored hnext
      · rw [getElem?_eq_none (by omega)] at hw
        cases hw
    · rcases getElem?_push hv with hv | ⟨hi', rfl⟩
      · refine hchanged stored next ?_ hnext
        rw [current, getLast?_eq_getElem?, ← hi, Nat.add_sub_cancel, hv]
        exact hstored
      · omega
  · intro i j v w id now_ms now_ms' hv hw hcause hcause'
    rcases getElem?_push hv with hv | ⟨hi, rfl⟩
    · rcases getElem?_push hw with hw | ⟨hj, rfl⟩
      · exact h.once i j v w id now_ms now_ms' hv hw hcause hcause'
      · exact absurd hcause' (honce v (mem_of_getElem? hv) id now_ms now_ms' hcause)
    · rcases getElem?_push hw with hw | ⟨hj, rfl⟩
      · exact absurd hcause (honce w (mem_of_getElem? hw) id now_ms' now_ms hcause')
      · rw [hi, hj]
  · intro i j v w stored later topic topic' hij hv hw hstored hlater hdecode hdecode' hid
    rcases getElem?_push hw with hw | ⟨hj, rfl⟩
    · rcases getElem?_push hv with hv | ⟨hi, rfl⟩
      · exact h.grows i j v w stored later topic topic' hij hv hw hstored hlater hdecode hdecode' hid
      · rw [getElem?_eq_none (by omega)] at hw
        cases hw
    · rcases getElem?_push hv with hv | ⟨hi, rfl⟩
      · exact hgrows i v stored later topic topic' hv hstored hlater hdecode hdecode' hid
      · cases hstored.symm.trans hlater
        cases hdecode.symm.trans hdecode'
        exact ⟨UInt32.le_refl _, fun h => h⟩

/-! ## The invariant -/

structure Invariant (s : TopicRow) : Prop where
  linked : Linked s
  /-- A modification that has stored a version does not go on. -/
  finished : ∀ v ∈ s.versions, ∀ id now_ms, v.cause = .modified id now_ms →
    ∃ m, s.modifications.get id = some m ∧ ¬ IsOpen m.phase
  sound : ∀ id m, s.modifications.get id = some m → s.Sound id m m.phase
  ids : ∀ v ∈ s.versions, ∀ stored topic, v.stored = some stored →
    Topic.decode stored = .ok topic → topic.id ∈ s.ids

theorem invariant_empty : Invariant {} := by
  have hversion : ∀ (i : ℕ) (v : Version), ({} : TopicRow).versions[i]? = some v →
      v = ⟨none, .initial⟩ := by
    intro i v hv
    exact mem_singleton.1 (mem_of_getElem? hv)
  refine ⟨⟨?_, ?_, ?_⟩, ?_, ?_, ?_⟩
  · intro i v w stored next hv hw hstored
    cases hversion i v hv
    cases hstored
  · intro i j v w id now_ms now_ms' hv hw hcause
    cases hversion i v hv
    cases hcause
  · intro i j v w stored later topic topic' hij hv hw hstored
    cases hversion i v hv
    cases hstored
  · intro v hv id now_ms hcause
    cases mem_singleton.1 hv
    cases hcause
  · intro id m hget
    cases hget
  · intro v hv stored topic hstored
    cases mem_singleton.1 hv
    cases hstored

theorem Sound.push {m : Modification} {phase : Phase} (h : s.Sound id m phase)
    (stored : Option (List UInt8)) (cause : Cause) : (s.push stored cause).Sound id m phase := by
  have hkept : ∀ (i : ℕ) v, s.versions[i]? = some v → (s.push stored cause).versions[i]? = some v := by
    intro i v hv
    have hlt := (List.getElem?_eq_some_iff.1 hv).1
    exact (getElem?_append_left hlt).trans hv
  cases phase with
  | loading | proposed | abandoned | failed => exact h
  | stored next =>
    obtain ⟨i, now_ms, hv⟩ := h
    exact ⟨i, now_ms, hkept i _ hv⟩
  | unchanged topic =>
    obtain ⟨i, v, bytes, now_ms, hv, hrest⟩ := h
    exact ⟨i, v, bytes, now_ms, hkept i v hv, hrest⟩

theorem keepsCalls_put {m' : Modification}
    (hsame : ∀ m, s.modifications.get id = some m → m'.topic = m.topic ∧ m'.change = m.change) :
    KeepsCalls s (s.put_modification id m') := by
  intro id' m hget
  by_cases hid : id' = id
  · subst hid
    exact ⟨m', get_insert_self .., hsame m hget⟩
  · refine ⟨m, ?_, rfl, rfl⟩
    show (s.modifications.insert id m').get id' = _
    rw [get_insert, if_neg hid]
    exact hget

section

variable (h : Invariant s)
include h

theorem Invariant.put {m' : Modification}
    (hopen : ∀ m, s.modifications.get id = some m →
      IsOpen m.phase ∧ m'.topic = m.topic ∧ m'.change = m.change)
    (hsound : s.Sound id m' m'.phase) : Invariant (s.put_modification id m') where
  linked := h.linked.of_keepsCalls rfl (keepsCalls_put fun m hget => (hopen m hget).2)
  finished := by
    intro v hv id' now_ms hcause
    obtain ⟨m, hget, hclosed⟩ := h.finished v hv id' now_ms hcause
    by_cases hid : id' = id
    · subst hid
      exact absurd (hopen m hget).1 hclosed
    · refine ⟨m, ?_, hclosed⟩
      show (s.modifications.insert id m').get id' = _
      rw [get_insert, if_neg hid]
      exact hget
  sound := by
    intro id' m hget
    rcases get_insert_cases hget with ⟨rfl, rfl⟩ | ⟨-, hget⟩
    · exact hsound
    · exact h.sound id' m hget
  ids := h.ids

theorem Invariant.push {stored : Option (List UInt8)} {cause : Cause}
    (hcause : ∀ id now_ms, cause ≠ .modified id now_ms)
    (hlinked : Linked (s.push stored cause))
    (hids : ∀ bytes topic, stored = some bytes → Topic.decode bytes = .ok topic →
      topic.id ∈ s.ids) : Invariant (s.push stored cause) where
  linked := hlinked
  finished := by
    intro v hv id now_ms hmodified
    rcases mem_append.1 hv with hv | hv
    · exact h.finished v hv id now_ms hmodified
    · cases mem_singleton.1 hv
      exact absurd hmodified (hcause id now_ms)
  sound := fun id m hget => (h.sound id m hget).push stored cause
  ids := by
    intro v hv bytes topic hstored hdecode
    rcases mem_append.1 hv with hv | hv
    · exact h.ids v hv bytes topic hstored hdecode
    · cases mem_singleton.1 hv
      exact hids bytes topic hstored hdecode

theorem Invariant.draw (id : TopicId) :
    Invariant { s with ids := id :: s.ids } where
  linked := h.linked.of_keepsCalls rfl fun _ m hget => ⟨m, hget, rfl, rfl⟩
  finished := h.finished
  sound := h.sound
  ids := fun v hv stored topic hstored hdecode =>
    mem_cons_of_mem _ (h.ids v hv stored topic hstored hdecode)

theorem Invariant.land {m : Modification} {phase : Phase}
    {stored : List UInt8} {now_ms : Int64} {next : Topic}
    (hget : s.modifications.get id = some m) (hopen : IsOpen m.phase)
    (hcurrent : s.current = some stored) (hsound : s.Sound id m (.proposed stored now_ms next))
    (hphase : phase = .stored next ∨ ∃ error, phase = .failed error) :
    Invariant ((s.put_modification id { m with phase }).push (some next.encode)
      (.modified id now_ms)) := by
  obtain ⟨topic, hdecode, hid, rfl⟩ := hsound
  obtain ⟨last, hlast, hstored⟩ := Option.bind_eq_some_iff.1 hcurrent
  rw [getLast?_eq_getElem?] at hlast
  have hlinked : Linked (s.push (some (m.change.apply now_ms topic).encode)
      (.modified id now_ms)) := by
    refine h.linked.push ⟨_, _⟩ ?_ ?_ ?_
    · intro stored' next' hcurrent' hnext
      cases hcurrent.symm.trans hcurrent'
      cases hnext
      exact ⟨id, now_ms, m, topic, rfl, hget, hdecode, hid, rfl⟩
    · intro v hv id' t t' hcause hsame
      cases hsame
      obtain ⟨m', hget', hclosed⟩ := h.finished v hv id t hcause
      cases hget.symm.trans hget'
      exact hclosed hopen
    · intro i v bytes later t t' hv hbytes hlater ht ht' hsame
      cases hlater
      obtain ⟨hid', hpartitions, hclosed⟩ := Topic.decode_change hdecode ht'
      have hlt := (List.getElem?_eq_some_iff.1 hv).1
      obtain ⟨hpartitions', hclosed'⟩ := h.linked.grows i _ v last bytes stored t topic (by omega) hv
        hlast hbytes hstored ht hdecode (hsame.trans hid')
      exact ⟨UInt32.le_trans hpartitions' hpartitions, fun hc => hclosed (hclosed' hc)⟩
  have hkeeps : KeepsCalls s (s.put_modification id { m with phase }) := by
    refine keepsCalls_put fun m' hget' => ?_
    cases hget.symm.trans hget'
    exact ⟨rfl, rfl⟩
  refine ⟨hlinked.of_keepsCalls rfl hkeeps, ?_, ?_, ?_⟩
  · intro v hv id' t hcause
    by_cases hid' : id' = id
    · subst hid'
      refine ⟨{ m with phase }, get_insert_self .., ?_⟩
      rcases hphase with rfl | ⟨error, rfl⟩
      · exact fun h => h
      · exact fun h => h
    · rcases mem_append.1 hv with hv | hv
      · obtain ⟨m', hget', hclosed⟩ := h.finished v hv id' t hcause
        refine ⟨m', ?_, hclosed⟩
        show (s.modifications.insert id { m with phase }).get id' = _
        rw [get_insert, if_neg hid']
        exact hget'
      · cases mem_singleton.1 hv
        cases hcause
        exact absurd rfl hid'
  · intro id' m' hget'
    rcases get_insert_cases hget' with ⟨rfl, rfl⟩ | ⟨-, hget'⟩
    · rcases hphase with rfl | ⟨error, rfl⟩
      · exact ⟨s.versions.length, now_ms, getElem?_concat_length⟩
      · trivial
    · exact (h.sound id' m' hget').push _ _
  · intro v hv bytes t hbytes ht
    rcases mem_append.1 hv with hv | hv
    · exact h.ids v hv bytes t hbytes ht
    · cases mem_singleton.1 hv
      cases hbytes
      rw [(Topic.decode_change hdecode ht).1]
      exact h.ids last (mem_of_getElem? hlast) stored topic hstored hdecode

theorem Invariant.step (a : Step) : Invariant (s.step a) := by
  have hend := step_end s a
  generalize s.step a = s' at hend ⊢
  cases hend with
  | idle => exact h
  | learned views =>
    exact ⟨h.linked.of_keepsCalls rfl fun _ m hget => ⟨m, hget, rfl, rfl⟩, h.finished, h.sound,
      h.ids⟩
  | refused id => exact h.draw id
  | created id name command now_ms hid hnone =>
    have hid' : ∀ topic, Topic.decode (command.candidate id name now_ms).encode = .ok topic →
        topic.id = id := fun topic hdecode => Topic.decode_encode_id hdecode
    refine (h.draw id).push (fun _ _ hcause => by cases hcause) ?_ ?_
    · refine (h.draw id).linked.push ⟨_, _⟩ ?_ ?_ ?_
      · intro stored next hcurrent
        cases hnone.symm.trans hcurrent
      · intro v hv id' t t' _ hcause
        cases hcause
      · intro i v stored later topic topic' hv hstored hlater hdecode hdecode' hsame
        cases hlater
        rw [hid' topic' hdecode'] at hsame
        exact absurd (hsame ▸ h.ids v (mem_of_getElem? hv) stored topic hstored hdecode) hid
    · intro bytes topic hbytes hdecode
      cases hbytes
      rw [hid' topic hdecode]
      exact mem_cons_self
  | removed =>
    refine h.push (fun _ _ hcause => by cases hcause) ?_ (fun _ _ hnone => by cases hnone)
    refine h.linked.push ⟨_, _⟩ ?_ ?_ ?_
    · intro stored next _ hnext
      cases hnext
    · intro v hv id' t t' _ hcause
      cases hcause
    · intro i v stored later topic topic' hv hstored hlater
      cases hlater
  | started id m hnew hphase =>
    refine h.put ?_ ?_
    · intro m' hget
      rw [hnew] at hget
      cases hget
    · rw [hphase]
      trivial
  | moved id m m' hget hopen htopic hchange hsound =>
    refine h.put ?_ (hsound (h.sound id m hget))
    intro m₀ hget₀
    cases hget.symm.trans hget₀
    exact ⟨hopen, htopic, hchange⟩
  | landed id m phase stored now_ms next hget hopen hcurrent hsound hphase =>
    exact h.land hget hopen hcurrent (hsound (h.sound id m hget)) hphase

end

/-- In every run, the versions of the record are the changes of one modification each, one after the
other. -/
theorem modifications_are_serial (steps : List Step) : Serial (Run.run step {} steps) := by
  have h := Run.invariant invariant_empty (fun s a hs => hs.step a) steps
  refine ⟨h.linked.changed, h.linked.once, ?_, ?_, h.linked.grows⟩
  · intro id m next hget hphase
    have hsound := h.sound id m hget
    rw [hphase] at hsound
    exact hsound
  · intro id m topic hget hphase
    have hsound := h.sound id m hget
    rw [hphase] at hsound
    exact hsound

-- Two nodes have read the same record. The request of the second one comes too late and is made again.
example :
    let command : CreateCommand := ⟨"text/plain", 1, none, none, {}⟩
    let topic := command.candidate 7 ⟨"/a", "a"⟩ 0
    (Run.run step {} [.create 7 "a" command 0, .learn 1 1, .learn 2 1,
      .start 1 1 topic (.update { partitions := some 3 }) 0, .start 2 2 topic (.seal_topic none) 0,
      .load 1 0, .load 2 0, .land 1, .land 2, .learn 2 2, .load 2 0, .land 2]).versions.map
        Version.cause = [.initial, .created 7, .modified 1 0, .modified 2 0] := by
  decide +kernel

end PicoMq.Topics.TopicRow
