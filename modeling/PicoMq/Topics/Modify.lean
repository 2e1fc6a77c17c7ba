import PicoMq.Library.OrdMap
import PicoMq.Topics.Topic

/-!
# Modifying a topic

A modification reads the record in its node's view and asks for the exact bytes it has read to be
replaced; if they are no longer there it begins again. A view may lag behind, and a request that its
caller has given up may still get to the metadata log.
-/

namespace PicoMq.Topics

def MAX_WRITE_ATTEMPTS : ℕ := 16

/-- Which command wrote a version. -/
inductive Cause where
  | initial
  | created (id : TopicId)
  | removed
  | modified (modification : ℕ) (now_ms : Int64)
deriving DecidableEq, Repr

/-- What stands under the name from one metadata command to the next. -/
structure Version where
  stored : Option (List UInt8)
  cause : Cause
deriving DecidableEq, Repr

/-- How far a modification has come. -/
inductive Phase where
  /-- About to read; after one that found nothing, `synced` is the version the view has to show. -/
  | loading (synced : Option ℕ)
  /-- The request to put `next` in the place of `stored` is on its way. -/
  | proposed (stored : List UInt8) (now_ms : Int64) (next : Topic)
  /-- So it is, but the caller has been told of an error. -/
  | abandoned (stored : List UInt8) (now_ms : Int64) (next : Topic) (error : ServiceError)
  /-- Answered with the record that was stored. -/
  | stored (next : Topic)
  /-- Answered with the record as it was read. -/
  | unchanged (current : Topic)
  | failed (error : ServiceError)
deriving DecidableEq

/-- A request to change a topic that its caller has read. -/
structure Modification where
  node : ℕ
  topic : Topic
  change : Change
  attempts : ℕ := 0
  phase : Phase := .loading none
deriving DecidableEq

/-- What has stood under one name, and who reads and changes it. -/
structure TopicRow where
  versions : List Version := [⟨none, .initial⟩]
  /-- The version that a node's view shows. -/
  views : OrdMap ℕ ℕ := .empty
  /-- The topic ids that were drawn. -/
  ids : List TopicId := []
  modifications : OrdMap ℕ Modification := .empty

namespace TopicRow

variable (s : TopicRow)

/-- The record that stands there now. -/
def current : Option (List UInt8) := s.versions.getLast?.bind Version.stored

def view (node : ℕ) : ℕ := (s.views.get node).getD 0

def get_kv (node : ℕ) : Option (List UInt8) := s.versions[s.view node]?.bind Version.stored

def not_found : ServiceError := ⟨.notFound, "NotFound"⟩

def changed_concurrently : ServiceError := ⟨.conflict, "topic changed concurrently"⟩

inductive Step where
  /-- The view of a node gets to a version. -/
  | learn (node version : ℕ)
  /-- The record of a new topic gets to the metadata. -/
  | create (id : TopicId) (name : String) (command : CreateCommand) (now_ms : Int64)
  /-- The removal of the record that was read as `stored` gets to the metadata. -/
  | remove (stored : List UInt8)
  /-- A caller that has read the record as `topic` asks for a change. -/
  | start (id node : ℕ) (topic : Topic) (change : Change) (now_ms : Int64)
  | load (id : ℕ) (now_ms : Int64)
  /-- The request of a modification gets to the metadata. -/
  | land (id : ℕ)
  /-- The caller is told that the metadata are not available, or gives up. -/
  | fail (id : ℕ) (error : ServiceError)

def put_modification (id : ℕ) (m : Modification) : TopicRow :=
  { s with modifications := s.modifications.insert id m }

def push (stored : Option (List UInt8)) (cause : Cause) : TopicRow :=
  { s with versions := s.versions ++ [⟨stored, cause⟩] }

/-- A modification in its node's view: what it does next. -/
def loaded (m : Modification) (synced : Option ℕ) (now_ms : Int64) : Phase :=
  match s.get_kv m.node with
  | some stored =>
    match Topic.decode stored with
    | .error error => .failed error
    | .ok current =>
      if current.id = m.topic.id then
        let next := m.change.apply now_ms current
        if next = current then .unchanged current else .proposed stored now_ms next
      else .failed not_found
  | none => if synced.isSome then .failed not_found else .loading (some (s.versions.length - 1))

/-- A caller whose record has changed reads it again, a limited number of times. -/
def conflicted (m : Modification) : Modification :=
  { m with
    attempts := m.attempts + 1
    phase :=
      if m.attempts + 1 < MAX_WRITE_ATTEMPTS then .loading none else .failed changed_concurrently }

/-- One step of a node or of the metadata. -/
def step : Step → TopicRow
  | .learn node version =>
    if s.view node ≤ version ∧ version < s.versions.length then
      { s with views := s.views.insert node version }
    else s
  | .create id name command now_ms =>
    match TopicName.parse name with
    | .ok name =>
      if id ∈ s.ids then s
      else
        let s : TopicRow := { s with ids := id :: s.ids }
        if s.current = none then
          s.push (some (command.candidate id name now_ms).encode) (.created id)
        else s
    | .error _ => s
  | .remove stored => if s.current = some stored then s.push none .removed else s
  | .start id node topic change now_ms =>
    -- A touch that would not move the deadline is not made.
    if s.modifications.contains_key id ∨ (change = .touch ∧ topic.touched now_ms = topic) then s
    else s.put_modification id { node, topic, change }
  | .load id now_ms =>
    match s.modifications.get id with
    | some m =>
      match m.phase with
      | .loading synced =>
        if ∀ version ∈ synced, version ≤ s.view m.node then
          s.put_modification id { m with phase := s.loaded m synced now_ms }
        else s
      | _ => s
    | none => s
  | .land id =>
    match s.modifications.get id with
    | some m =>
      match m.phase with
      | .proposed stored now_ms next =>
        if s.current = some stored then
          (s.put_modification id { m with phase := .stored next }).push (some next.encode)
            (.modified id now_ms)
        else s.put_modification id (conflicted m)
      | .abandoned stored now_ms next error =>
        let s' := s.put_modification id { m with phase := .failed error }
        if s.current = some stored then s'.push (some next.encode) (.modified id now_ms) else s'
      | _ => s
    | none => s
  | .fail id error =>
    match s.modifications.get id with
    | some m =>
      match m.phase with
      | .loading _ => s.put_modification id { m with phase := .failed error }
      | .proposed stored now_ms next =>
        s.put_modification id { m with phase := .abandoned stored now_ms next error }
      | _ => s
    | none => s

end TopicRow

/-- The versions of the record, one after the other. -/
structure TopicRow.Serial (s : TopicRow) : Prop where
  /-- A version that follows another is the change of a modification, applied to that one. -/
  changed : ∀ i v w stored next, s.versions[i]? = some v → s.versions[i + 1]? = some w →
    v.stored = some stored → w.stored = some next →
    ∃ id now_ms m topic, w.cause = .modified id now_ms ∧ s.modifications.get id = some m ∧
      Topic.decode stored = .ok topic ∧ topic.id = m.topic.id ∧
      next = (m.change.apply now_ms topic).encode
  /-- A modification stores one version at most. -/
  once : ∀ (i j : ℕ) v w id now_ms now_ms', s.versions[i]? = some v → s.versions[j]? = some w →
    v.cause = .modified id now_ms → w.cause = .modified id now_ms' → i = j
  /-- A modification that is answered with a new record has stored it. -/
  kept : ∀ id m next, s.modifications.get id = some m → m.phase = .stored next →
    ∃ (i : ℕ) (now_ms : Int64), s.versions[i]? = some ⟨some next.encode, .modified id now_ms⟩
  /-- A modification that is answered with the record it read has nothing to change in it. -/
  seen : ∀ id m topic, s.modifications.get id = some m → m.phase = .unchanged topic →
    ∃ (i : ℕ) (v : Version) (stored : List UInt8) (now_ms : Int64), s.versions[i]? = some v ∧
      v.stored = some stored ∧ Topic.decode stored = .ok topic ∧ m.change.apply now_ms topic = topic
  /-- The versions of one topic never lose a partition and are never opened again. -/
  grows : ∀ (i j : ℕ) v w stored later topic topic', i ≤ j → s.versions[i]? = some v →
    s.versions[j]? = some w → v.stored = some stored → w.stored = some later →
    Topic.decode stored = .ok topic → Topic.decode later = .ok topic' → topic.id = topic'.id →
    topic.partitions ≤ topic'.partitions ∧ (topic.closed → topic'.closed)

end PicoMq.Topics
