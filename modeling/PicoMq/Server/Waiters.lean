import Mathlib.Data.String.Basic
import PicoMq.Library.OrdMap

/-!
# Waiting at the tail

A reader looks at the confirmed offset, and registers after that; an append becomes durable and then
notifies.
-/

namespace PicoMq.Server

/-- A reader that waits for an offset of a log. -/
structure Waiter where
  /-- Stands for the sending end of the channel the reader parks on. -/
  token : ℕ
  wait_offset : ℕ
deriving DecidableEq, Repr

/-- The waiters of a node, in a queue for each log. -/
structure StreamWaiterRegistry where
  waiters : OrdMap String (List Waiter) := OrdMap.empty
  next_token : ℕ := 0
  stopped : Bool := false
deriving DecidableEq

namespace StreamWaiterRegistry

variable (r : StreamWaiterRegistry)

variable (name : String)

def queue : List Waiter := (r.waiters.get name).getD []

/-- A log without waiters has no entry. -/
def set_queue (queue : List Waiter) : StreamWaiterRegistry :=
  { r with
    waiters := if queue = [] then r.waiters.remove name else r.waiters.insert name queue }

/-- The first part of `wait`: a new token, and a waiter with it at the end of the queue. -/
def register (offset : ℕ) : StreamWaiterRegistry × ℕ :=
  let token := r.next_token + 1
  ({ r with
      next_token := token
      waiters := r.waiters.insert name (r.queue name ++ [⟨token, offset⟩]) }, token)

/-- The last part of `wait`, after the timeout. -/
def deregister (token : ℕ) : StreamWaiterRegistry :=
  match r.waiters.get name with
  | none => r
  | some queue => r.set_queue name (queue.filter fun w => w.token ≠ token)

/-- The registry, and the tokens it sends to. -/
def notify_append (next_record_offset : ℕ) : StreamWaiterRegistry × List ℕ :=
  match r.waiters.get name with
  | none => (r, [])
  | some queue =>
    (r.set_queue name (queue.filter fun w => ¬ w.wait_offset < next_record_offset),
      (queue.filter fun w => w.wait_offset < next_record_offset).map Waiter.token)

/-- Everyone who waits for the log is woken. -/
def notify_closed : StreamWaiterRegistry × List ℕ :=
  ({ r with waiters := r.waiters.remove name }, (r.queue name).map Waiter.token)

/-- The second half of `stop`, which takes the lock. -/
def drain : StreamWaiterRegistry × List ℕ :=
  ({ r with waiters := OrdMap.empty }, r.waiters.values.flatten.map Waiter.token)

end StreamWaiterRegistry

/-! ## Calls of `wait_appended` -/

inductive WaitOutcome where
  | woken
  | timed_out
  /-- The node is stopping: the call fails. -/
  | stopping
deriving DecidableEq, Repr

/-- How far a call has come. -/
inductive WaitPhase where
  | begun
  /-- The confirmed offset was read, and is not past the offset waited for. -/
  | checked
  | parked (token : ℕ)
  /-- The timeout lapsed, and the waiter is to be taken out of the registry. -/
  | lapsed (token : ℕ)
  | returned (outcome : WaitOutcome)
deriving DecidableEq, Repr

namespace WaitPhase

def token : WaitPhase → Option ℕ
  | parked token | lapsed token => some token
  | _ => none

/-- The timeout has not lapsed and the call has not returned. -/
def waiting : WaitPhase → Bool
  | begun | checked | parked _ => true
  | lapsed _ | returned _ => false

end WaitPhase

structure WaitCall where
  name : String
  offset : ℕ
  phase : WaitPhase := .begun
  /-- A notification that concerns the call ran while it was waiting. -/
  due : Bool := false
deriving DecidableEq, Repr

namespace WaitCall

/-- The append is past the offset that the call waits for. -/
def concerned (call : WaitCall) (name : String) (next_record_offset : ℕ) : Bool :=
  call.name = name ∧ call.offset < next_record_offset

def note_append (name : String) (next_record_offset : ℕ) (call : WaitCall) : WaitCall :=
  { call with
    due := call.due || call.phase.waiting && call.concerned name next_record_offset }

def note_closed (name : String) (call : WaitCall) : WaitCall :=
  { call with due := call.due || call.phase.waiting && call.name = name }

end WaitCall

/-- A node with its registry, the confirmed offsets of its logs and the calls so far. -/
structure WaitingNode where
  registry : StreamWaiterRegistry := {}
  /-- The tokens that were sent to. -/
  sent : List ℕ := []
  confirm_offset : OrdMap String ℕ := OrdMap.empty
  calls : OrdMap ℕ WaitCall := OrdMap.empty
deriving DecidableEq

namespace WaitingNode

inductive Step where
  | call (c : ℕ) (name : String) (offset : ℕ)
  /-- The next action of the call's own task. -/
  | advance (c : ℕ)
  /-- The task of a parked call runs when the timeout has passed. -/
  | lapse (c : ℕ)
  /-- Appends up to `offset` are durable. -/
  | confirm (name : String) (offset : ℕ)
  /-- The task of a durable append that ends at `next_record_offset` notifies. -/
  | notify_append (name : String) (next_record_offset : ℕ)
  | notify_closed (name : String)
  | set_stopped
  | drain
deriving DecidableEq, Repr

variable (s : WaitingNode)

def confirmed (name : String) : ℕ := (s.confirm_offset.get name).getD 0

def set_phase (c : ℕ) (call : WaitCall) (phase : WaitPhase) : WaitingNode :=
  { s with calls := s.calls.insert c { call with phase := phase } }

/-- A call that was woken, or timed out, looks whether the node is stopping. -/
def outcome (outcome : WaitOutcome) : WaitPhase :=
  .returned (if s.registry.stopped then .stopping else outcome)

/-- The task of a call checks the offset, parks, or returns. -/
def advance (c : ℕ) (call : WaitCall) : WaitingNode :=
  match call.phase with
  | .begun =>
    s.set_phase c call (if call.offset < s.confirmed call.name then .returned .woken else .checked)
  | .checked =>
    if s.registry.stopped then s.set_phase c call (.returned .stopping)
    else
      let (registry, token) := s.registry.register call.name call.offset
      { s.set_phase c call (.parked token) with registry }
  | .parked token => if token ∈ s.sent then s.set_phase c call (s.outcome .woken) else s
  | .lapsed token =>
    { s.set_phase c call (s.outcome .timed_out) with
      registry := s.registry.deregister call.name token }
  | .returned _ => s

/-- The channel is looked at before the timer. -/
def lapse (c : ℕ) (call : WaitCall) : WaitingNode :=
  match call.phase with
  | .parked token =>
    s.set_phase c call (if token ∈ s.sent then s.outcome .woken else .lapsed token)
  | _ => s

/-- The registry after a notification, and what it sent. -/
def send (notified : StreamWaiterRegistry × List ℕ) : WaitingNode :=
  { s with registry := notified.1, sent := s.sent ++ notified.2 }

def step : Step → WaitingNode
  | .call c name offset =>
    match s.calls.get c with
    | none => { s with calls := s.calls.insert c { name, offset } }
    | some _ => s
  | .advance c =>
    match s.calls.get c with
    | none => s
    | some call => s.advance c call
  | .lapse c =>
    match s.calls.get c with
    | none => s
    | some call => s.lapse c call
  | .confirm name offset =>
    { s with confirm_offset := s.confirm_offset.insert name (max (s.confirmed name) offset) }
  | .notify_append name next_record_offset =>
    if next_record_offset ≤ s.confirmed name then
      { s.send (s.registry.notify_append name next_record_offset) with
        calls := s.calls.map (WaitCall.note_append name next_record_offset) }
    else s
  | .notify_closed name =>
    { s.send (s.registry.notify_closed name) with calls := s.calls.map (WaitCall.note_closed name) }
  | .set_stopped => { s with registry := { s.registry with stopped := true } }
  | .drain => if s.registry.stopped then s.send s.registry.drain else s

/-- The call has returned because it was woken; on a stopping node it failed at once. -/
def Woken (c : ℕ) : Prop :=
  ∃ call, s.calls.get c = some call ∧
    (call.phase = .returned .woken ∨
      s.registry.stopped = true ∧ call.phase = .returned .stopping)

/-- Every call that a notification concerned has returned woken, or does so with its next action. -/
def NoLostWakeup : Prop :=
  ∀ c call, s.calls.get c = some call → call.due = true →
    (s.step (.advance c)).Woken c ∧ ((s.step (.lapse c)).step (.advance c)).Woken c

/-- No notification comes while a call it concerns has looked at the log and is not registered. -/
def Unhurried : Step → Prop
  | .notify_append name next_record_offset =>
    ∀ call ∈ s.calls.values, call.concerned name next_record_offset = true →
      call.phase ≠ .checked
  | .notify_closed name =>
    ∀ call ∈ s.calls.values, call.name = name → call.phase ≠ .begun ∧ call.phase ≠ .checked
  | _ => True

instance (s : WaitingNode) (a : Step) : Decidable (s.Unhurried a) :=
  match a with
  | .notify_append _ _ => inferInstanceAs (Decidable (∀ call ∈ s.calls.values, _ → _))
  | .notify_closed _ => inferInstanceAs (Decidable (∀ call ∈ s.calls.values, _ → _))
  | .call .. | .advance _ | .lapse _ | .confirm .. | .set_stopped | .drain => .isTrue trivial

end WaitingNode

end PicoMq.Server
