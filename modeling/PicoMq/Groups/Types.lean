import Mathlib.Data.String.Basic
import PicoMq.Groups.Offsets

/-!
# Members of a consumer group and their requests

Subscribed members are assigned whole streams; the leader of Kafka clients assigns partitions.
Instants and durations are numbers of milliseconds; shared pointers to names are the names.
-/

namespace PicoMq.Groups

abbrev Bytes := List UInt8

abbrev StreamName := String

/-- A set of names. -/
abbrev NameSet := OrdMap String Unit

/-- Why the coordinator refuses a request. -/
inductive GroupError where
  | coordinatorNotAvailable
  | notCoordinator
  | illegalGeneration
  | inconsistentProtocol
  | unknownMember
  | rebalanceInProgress
  | invalidRequest
  | storage
  | groupNotFound
  | nonEmpty
  | memberIdRequired
  | capacityExceeded
  | fencedInstance
  | superseded
  | unauthorized
deriving DecidableEq, Repr

/-- The phase a group is in. -/
inductive GroupState where
  | empty
  | preparingRebalance
  | completingRebalance
  | stable
deriving DecidableEq, Repr

/-! ## Members -/

/-- A protocol that a Kafka client offers, with its own metadata for it. -/
structure JoinProtocol where
  name : String
  metadata : Bytes
deriving DecidableEq, Repr

/-- What a join asks for. -/
inductive Membership where
  | subscribed (subscription : List StreamName)
  | client (protocol_type : String) (protocols : List JoinProtocol)
deriving DecidableEq, Repr

/-- What a member takes part as, with its current assignment. -/
inductive Role where
  | subscribed (subscription : NameSet) (assignment : List StreamName)
  | client (protocols : List JoinProtocol) (assignment : Bytes)
deriving DecidableEq

structure Member where
  instance_id : Option String
  role : Role
  session_timeout : ℕ
  rebalance_timeout : ℕ
  last_heartbeat : ℕ
deriving DecidableEq

/-- The kind of members a group has, fixed by the first join. -/
inductive Mode where
  | subscribed
  | client (protocol_type protocol_name leader : String)
deriving DecidableEq, Repr

namespace Role

def subscription : Role → Option NameSet
  | subscribed subscription _ => some subscription
  | client _ _ => none

def set_streams (streams : List StreamName) : Role → Role
  | subscribed subscription _ => subscribed subscription streams
  | client protocols assignment => client protocols assignment

def set_assignment (assignment : Bytes) : Role → Role
  | subscribed subscription streams => subscribed subscription streams
  | client protocols _ => client protocols assignment

/-- Whether the member is a client that knows the protocol. -/
def knows (protocol : String) : Role → Bool
  | subscribed _ _ => false
  | client protocols _ => protocols.any fun p => p.name = protocol

/-- Whether the role holds a pointer to the name. -/
def holds (name : StreamName) : Role → Bool
  | subscribed subscription assignment =>
    subscription.contains_key name || assignment.contains name
  | client _ _ => false

end Role

def Member.subscription (m : Member) : Option NameSet := m.role.subscription

/-! ## Requests and their answers -/

/-- A join. One without a member id is known by its instance id, or new. -/
structure JoinInput where
  group_id : String
  member_id : String
  instance_id : Option String := none
  membership : Membership
  session_timeout_ms : ℤ
  rebalance_timeout_ms : ℤ
  require_known_member_id : Bool := false
deriving DecidableEq, Repr

/-- A member as it is listed to the leader. -/
structure JoinMember where
  member_id : String
  instance_id : Option String
  metadata : Bytes
deriving DecidableEq, Repr

/-- What a successful join is told. -/
inductive Joined where
  | subscribed (assignment : List StreamName) (members : List String)
  | client (protocol_type protocol_name leader : String) (members : List JoinMember)
deriving DecidableEq, Repr

structure JoinOutcome where
  generation : ℤ
  member_id : String
  result : Except GroupError Joined
deriving DecidableEq, Repr

def JoinOutcome.error (error : GroupError) (member_id : String) : JoinOutcome :=
  ⟨-1, member_id, .error error⟩

/-- Who a request says it comes from. -/
structure MemberFence where
  generation : ℤ
  member_id : String
  instance_id : Option String := none
deriving DecidableEq, Repr

/-- A sync. Only those of the leader bring assignments. -/
structure SyncInput where
  group_id : String
  generation : ℤ
  member_id : String
  instance_id : Option String := none
  assignments : List (String × Bytes) := []
deriving DecidableEq, Repr

structure SyncOutcome where
  protocol_type : String
  protocol_name : String
  assignment : Bytes
deriving DecidableEq, Repr

/-- What is sent to a parked request. -/
inductive Answer where
  | join (outcome : JoinOutcome)
  | sync (result : Except GroupError SyncOutcome)
deriving DecidableEq, Repr

end PicoMq.Groups
