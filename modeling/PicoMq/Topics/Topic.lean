import PicoMq.Common
import PicoMq.Library.Wire

/-!
# The record of a topic

The record that stands in the metadata under a topic's name: its fields, its encoding, and the changes
that are made to it. Integers are big-endian.
-/

namespace PicoMq.Topics

open Wire

inductive ErrorKind where
  | notFound
  | conflict
  | closed
  | badRequest
  | invalidName
  | timeout
  | unavailable
  | internal
deriving DecidableEq, Repr

structure ServiceError where
  kind : ErrorKind
  message : String
deriving DecidableEq, Repr

/-! ## Fields -/

def corrupt (message : String) : ServiceError := ⟨.internal, message⟩

def truncated : ServiceError := corrupt "metadata record truncated"

def put_u8 (n : UInt8) : List UInt8 := be_bytes 1 n.toNat

def put_u32 (n : UInt32) : List UInt8 := be_bytes 4 n.toNat

def put_u64 (n : UInt64) : List UInt8 := be_bytes 8 n.toNat

def put_i64 (x : Int64) : List UInt8 := put_u64 x.toUInt64

/-- The length is cast to an `i32`. -/
def put_str (value : String) : List UInt8 := be_bytes 4 value.utf8ByteSize ++ utf8 value

def put_opt_i64 (value : Option Int64) : List UInt8 :=
  put_u8 (if value.isSome then 1 else 0) ++ put_i64 (value.getD 0)

def put_opt_u64 (value : Option UInt64) : List UInt8 :=
  put_u8 (if value.isSome then 1 else 0) ++ put_u64 (value.getD 0)

def get_u8 : Reader ServiceError UInt8 := do
  let n ← Reader.be_word 1 truncated
  pure (UInt8.ofNat n)

def get_u32 : Reader ServiceError UInt32 := do
  let n ← Reader.be_word 4 truncated
  pure (UInt32.ofNat n)

def get_u64 : Reader ServiceError UInt64 := do
  let n ← Reader.be_word 8 truncated
  pure (UInt64.ofNat n)

def get_i64 : Reader ServiceError Int64 := do
  let n ← get_u64
  pure n.toInt64

def get_i32 : Reader ServiceError ℤ := do
  let n ← Reader.be_word 4 truncated
  pure (to_signed 31 n)

/-- The text after its length. -/
def take_str (len : ℤ) : Reader ServiceError String :=
  if len < 0 then Reader.fail (corrupt "negative length")
  else do
    let bytes ← Reader.take len.toNat truncated
    match of_utf8 bytes with
    | some value => pure value
    | none => Reader.fail (corrupt "invalid UTF-8")

def get_str : Reader ServiceError String := do
  let len ← get_i32
  take_str len

def get_opt_i64 : Reader ServiceError (Option Int64) := do
  let present ← get_u8
  let value ← get_i64
  pure (if present = 1 then some value else none)

def get_opt_u64 : Reader ServiceError (Option UInt64) := do
  let present ← get_u8
  let value ← get_u64
  pure (if present = 1 then some value else none)

def expect_version (expected : UInt8) (what : String) : Reader ServiceError Unit := do
  let version ← get_u8
  if version ≠ expected then
    Reader.fail (corrupt s!"unknown {what} version {version}")
  else pure ()

/-! ## Names -/

def canonical (spelling : String) : String :=
  String.ofList (Common.canonical '/' '.' spelling.toList)

structure TopicName where
  spelling : String
  canonical : String
deriving DecidableEq, Repr

def invalid_name (message : String) : ServiceError := ⟨.invalidName, message⟩

def TopicName.parse (spelling : String) : Except ServiceError TopicName :=
  let spelling := if spelling.toList.head? = some '/' then spelling else "/" ++ spelling
  let canonical := Topics.canonical spelling
  if canonical = "" then .error (invalid_name "topic name must not be empty")
  else if canonical.toList.head? = some '_' then
    .error (invalid_name "the _ namespace is reserved")
  else .ok { spelling, canonical }

/-! ## Topics -/

/-- The 16 bytes of the id, the first one the highest. -/
abbrev TopicId := BitVec 128

/-- The append that closed the topic. -/
structure ClosedBy where
  producer_id : String
  epoch : UInt64
  seq : UInt64
deriving DecidableEq, Repr

abbrev Retention := Common.Retention UInt64

/-- The record of a topic. -/
structure Topic where
  id : TopicId
  name : TopicName
  partitions : UInt32
  content_type : String
  ttl_seconds : Option UInt64
  expires_at_ms : Option Int64
  deadline_ms : Int64
  closed : Bool
  closed_by : Option ClosedBy
  retention : Retention
deriving DecidableEq, Repr

namespace Topic

def VERSION : UInt8 := 3

def expired (self : Topic) (now_ms : Int64) : Bool :=
  0 < self.deadline_ms && self.deadline_ms < now_ms

/-- The topic as it is after it was used. The deadline moves on in coarse steps only. -/
def touched (self : Topic) (now_ms : Int64) : Topic :=
  match self.ttl_seconds with
  | none => self
  | some ttl =>
    if self.expires_at_ms.isSome then self
    else
      let next := now_ms + ttl.toInt64 * 1000
      let coarsen := max (ttl.toInt64 * 100) 1000
      if 0 < self.deadline_ms ∧ next - self.deadline_ms < coarsen then self
      else { self with deadline_ms := next }

def put_closed_by : Option ClosedBy → List UInt8
  | some closed_by =>
    put_u8 1 ++ (put_str closed_by.producer_id ++ (put_u64 closed_by.epoch ++ put_u64 closed_by.seq))
  | none => put_u8 0

def encode (self : Topic) : List UInt8 :=
  put_u8 VERSION ++ (be_bytes 16 self.id.toNat ++ (put_str self.name.spelling ++
    (put_u32 self.partitions ++ (put_str self.content_type ++
      (put_opt_i64 (self.ttl_seconds.map UInt64.toInt64) ++ (put_opt_i64 self.expires_at_ms ++
        (put_i64 self.deadline_ms ++ (put_u8 (if self.closed then 1 else 0) ++
          (put_closed_by self.closed_by ++
            (put_opt_u64 self.retention.ms ++ put_opt_u64 self.retention.bytes))))))))))

def get_name : Reader ServiceError TopicName := do
  let spelling ← get_str
  match TopicName.parse spelling with
  | .ok name => pure name
  | .error error => Reader.fail error

def get_closed_by : Reader ServiceError (Option ClosedBy) := do
  let present ← get_u8
  if present = 0 then pure none
  else
    let producer_id ← get_str
    let epoch ← get_i64
    let seq ← get_i64
    pure (some { producer_id, epoch := epoch.toUInt64, seq := seq.toUInt64 })

def reader : Reader ServiceError Topic := do
  expect_version VERSION "topic"
  let id ← Reader.be_word 16 truncated
  let name ← get_name
  let partitions ← get_u32
  let content_type ← get_str
  let ttl_seconds ← get_opt_i64
  let expires_at_ms ← get_opt_i64
  let deadline_ms ← get_i64
  let closed ← get_u8
  let closed_by ← get_closed_by
  let ms ← get_opt_u64
  let bytes ← get_opt_u64
  pure {
    id := BitVec.ofNat 128 id
    name
    partitions
    content_type
    ttl_seconds := ttl_seconds.map Int64.toUInt64
    expires_at_ms
    deadline_ms
    closed := closed = 1
    closed_by
    retention := { ms, bytes } }

def decode (bytes : List UInt8) : Except ServiceError Topic :=
  reader.decode (fun _ => corrupt "trailing bytes after topic") bytes

end Topic

/-! ## Commands -/

structure CreateCommand where
  content_type : String
  partitions : UInt32
  ttl_seconds : Option UInt64
  expires_at_ms : Option Int64
  retention : Retention
deriving DecidableEq, Repr

def deadline_of (ttl_seconds : Option UInt64) (expires_at_ms : Option Int64) (now_ms : Int64) :
    Int64 :=
  match expires_at_ms, ttl_seconds with
  | some expires, _ => expires
  | none, some ttl => now_ms + ttl.toInt64 * 1000
  | none, none => 0

def CreateCommand.candidate (command : CreateCommand) (id : TopicId) (name : TopicName)
    (now_ms : Int64) : Topic where
  id
  name
  partitions := command.partitions
  content_type := command.content_type
  ttl_seconds := command.ttl_seconds
  expires_at_ms := command.expires_at_ms
  deadline_ms := deadline_of command.ttl_seconds command.expires_at_ms now_ms
  closed := false
  closed_by := none
  retention := command.retention

structure UpdateTopicCommand where
  retention_ms : Option (Option UInt64) := none
  retention_bytes : Option (Option UInt64) := none
  partitions : Option UInt32 := none
deriving DecidableEq, Repr

def UpdateTopicCommand.apply (command : UpdateTopicCommand) (topic : Topic) : Topic :=
  { topic with
    retention := {
      ms := command.retention_ms.getD topic.retention.ms
      bytes := command.retention_bytes.getD topic.retention.bytes }
    partitions :=
      match command.partitions with
      | some partitions => max topic.partitions partitions
      | none => topic.partitions }

/-- A change to the record. -/
inductive Change where
  | seal_topic (closed_by : Option ClosedBy)
  | touch
  | update (command : UpdateTopicCommand)
deriving DecidableEq, Repr

def Change.apply (change : Change) (now_ms : Int64) (topic : Topic) : Topic :=
  match change with
  | .seal_topic closed_by =>
    ({ topic with
      closed := true
      closed_by := if closed_by.isSome then closed_by else topic.closed_by } : Topic).touched now_ms
  | .touch => topic.touched now_ms
  | .update command => command.apply topic

end PicoMq.Topics
