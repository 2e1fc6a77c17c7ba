import PicoMq.Library.BatchLog
import PicoMq.Library.OrdMap

/-!
# Sealing a topic

A topic of one partition: its row, its stream, and the write requests on their way. A request holds
the topic's lock on its own node: an HTTP append shares it until the append is durable, a Kafka
produce request until it is submitted, and a close has it for itself until the row is written.
-/

namespace PicoMq.Server

/-- What a request wants of the topic. -/
inductive Write where
  /-- An HTTP append. -/
  | append
  /-- A Kafka produce request. -/
  | produce
  /-- An HTTP append that closes the topic afterwards, with or without records. -/
  | close
deriving DecidableEq, Repr

/-- A write request that has found the topic open. -/
structure Request where
  node : ℕ
  write : Write
  /-- Where its records end, once they are submitted; 0 if there are none. -/
  submitted : Option ℕ
deriving DecidableEq, Repr

namespace Request

/-- Holds the topic's lock on its node with others. -/
def shares (r : Request) : Bool :=
  match r.write with
  | .append => true
  | .produce => r.submitted.isNone
  | .close => false

/-- Holds the topic's lock on its node alone. -/
def excludes (r : Request) : Bool := r.write = .close

end Request

/-- A topic on several nodes, with a record of who was told what. -/
structure Topic where
  /-- The row of the topic. -/
  closed : Bool := false
  /-- The node that closed it. -/
  closer : Option ℕ := none
  /-- The nodes whose view shows the topic closed. -/
  told : List ℕ := []
  /-- The node that holds the stream open. -/
  owner : Option ℕ := none
  confirm_offset : ℕ := 0
  /-- The nodes that have a handle of the stream, with the durable end it shows. -/
  handles : OrdMap ℕ ℕ := .empty
  /-- The appends, each with the number of its request. -/
  log : BatchLog ℕ := .empty
  requests : OrdMap ℕ Request := .empty
  /-- Where each append ended that was ever submitted, lost ones too. -/
  appended : List ℕ := []
  /-- Where the records end that producers were told of. -/
  acknowledged : List ℕ := []
  /-- Where readers were told that they have read all of a closed topic. -/
  reported : List ℕ := []

namespace Topic

inductive Step where
  /-- A request takes the lock and finds the topic open. -/
  | start (id node : ℕ) (write : Write)
  /-- It submits its records to the stream its node holds open. -/
  | submit (id record_count : ℕ)
  /-- The next batch in flight becomes durable. -/
  | durable
  /-- A request whose records are durable is answered; a close writes the row first. -/
  | finish (id : ℕ)
  /-- A request ends without an answer. -/
  | drop (id : ℕ)
  /-- A retry of an append that ended at `last` is answered as a duplicate of it. -/
  | retry (last : ℕ)
  /-- The stream is opened on a node, for the first time or after a transfer or a failure. -/
  | openOn (node : ℕ)
  /-- A node gives up its handle. -/
  | release (node : ℕ)
  /-- The view of a node gets to the row. -/
  | learn (node : ℕ)
  /-- A reader on a node reads on from the durable end that its handle shows. -/
  | read (node : ℕ)
deriving DecidableEq, Repr

variable (self : Topic)

/-- Whether the topic's lock on the node can be taken for this. -/
def lock (node : ℕ) (write : Write) : Bool :=
  self.requests.values.all fun r =>
    r.node ≠ node || (!r.excludes && (write ≠ .close || !r.shares))

/-- A node whose view shows the topic closed refuses. -/
def start (id node : ℕ) (write : Write) : Topic :=
  if self.requests.contains_key id = false ∧ self.lock node write ∧ node ∉ self.told then
    { self with requests := self.requests.insert id ⟨node, write, none⟩ }
  else self

/-- Appends to the stream, if the node of the request holds it open. -/
def submit (id record_count : ℕ) : Topic :=
  match self.requests.get id with
  | some ⟨node, write, none⟩ =>
    if self.owner = some node ∧ (0 < record_count ∨ write = .close) then
      let log := self.log.append record_count id
      let last := if record_count = 0 then 0 else log.next_offset
      { self with
        log
        requests := self.requests.insert id ⟨node, write, some last⟩
        appended := last :: self.appended }
    else self
  | _ => self

def durable : Topic :=
  match self.log.since self.confirm_offset with
  | [] => self
  | batch :: _ =>
    { self with
      confirm_offset := batch.last_offset
      handles :=
        match self.owner with
        | some node => self.handles.insert node batch.last_offset
        | none => self.handles }

/-- The row is written, unless the topic is closed already. -/
def seal_topic (node : ℕ) : Topic :=
  { self with
    closed := true
    closer := if self.closed then self.closer else some node
    told := node :: self.told }

def finish (id : ℕ) : Topic :=
  match self.requests.get id with
  | some ⟨node, write, some last⟩ =>
    if last ≤ self.confirm_offset then
      let sealed := if write = .close then self.seal_topic node else self
      { sealed with
        requests := self.requests.remove id, acknowledged := last :: self.acknowledged }
    else self
  | _ => self

def retry (last : ℕ) : Topic :=
  if last ∈ self.appended then { self with acknowledged := last :: self.acknowledged } else self

/-- What was in flight is gone, and the requests that waited for it fail. -/
def open_stream (node : ℕ) : Topic :=
  { self with
    owner := some node
    handles := self.handles.insert node self.confirm_offset
    log := self.log.truncate self.confirm_offset
    requests := self.requests.retain fun id =>
      (self.requests.get id).all fun r => r.submitted.all fun last => last ≤ self.confirm_offset }

def release (node : ℕ) : Topic :=
  { self with
    owner := if self.owner = some node then none else self.owner
    handles := self.handles.remove node }

def read (node : ℕ) : Topic :=
  match self.handles.get node with
  | some durable_end =>
    if node ∈ self.told then { self with reported := durable_end :: self.reported } else self
  | none => self

def step : Step → Topic
  | .start id node write => self.start id node write
  | .submit id record_count => self.submit id record_count
  | .durable => self.durable
  | .finish id => self.finish id
  | .drop id => { self with requests := self.requests.remove id }
  | .retry last => self.retry last
  | .openOn node => self.open_stream node
  | .release node => self.release node
  | .learn node => if self.closed then { self with told := node :: self.told } else self
  | .read node => self.read node

/-! ## What readers rely on -/

/-- Where a reader was told that it has read all of the closed topic, nothing follows. -/
def Final : Prop :=
  ∀ n ∈ self.reported, self.confirm_offset ≤ n ∧ ∀ last ∈ self.acknowledged, last ≤ n

/-- The row is written while nothing is in flight, and then only its node may still submit.
Duplicates are of durable appends, and readers are on the owner. -/
def Settled : Step → Prop
  | .finish id =>
    ∀ r ∈ self.requests.get id, r.write = .close → self.closed = false →
      self.log.next_offset = self.confirm_offset
  | .submit id _ => ∀ r ∈ self.requests.get id, self.closed → self.closer = some r.node
  | .retry last => last ≤ self.confirm_offset
  | .read node => self.owner = some node
  | _ => True

instance (self : Topic) : Decidable self.Final :=
  inferInstanceAs (Decidable (∀ n ∈ self.reported, _ ∧ ∀ last ∈ self.acknowledged, last ≤ n))

instance (self : Topic) : DecidablePred self.Settled
  | .finish id => inferInstanceAs (Decidable (∀ r ∈ self.requests.get id, _ → _ → _))
  | .submit id _ => inferInstanceAs (Decidable (∀ r ∈ self.requests.get id, _ → _))
  | .retry last => inferInstanceAs (Decidable (last ≤ self.confirm_offset))
  | .read node => inferInstanceAs (Decidable (self.owner = some node))
  | .start _ _ _ | .durable | .drop _ | .openOn _ | .release _ | .learn _ => .isTrue trivial

end Topic

end PicoMq.Server
