import PicoMq.Groups.Requests

/-!
# The streams of a generation

Within one load of a group every generation has one list of streams for each member, whoever asks
for it and when.
-/

namespace PicoMq.Groups

def Membership.streams : Membership → List StreamName
  | .subscribed subscription => subscription
  | .client _ _ => []

namespace Group

def Action.reloads : Action → Bool
  | .reload _ _ _ _ => true
  | _ => false

/-- The id drawn for a new member was not that of a member before, as `Uuid::new_v4` has it. -/
def NewId (g : Group) : Action → Prop
  | .join now fresh _ input =>
    (g.refresh now).resolve_member_id input = "" →
      fresh ∉ (g.refresh now).members.keys ∧
        ∀ round ∈ (g.refresh now).rounds, fresh ∉ round.members.keys
  | _ => True

instance (g : Group) : ∀ a, Decidable (g.NewId a)
  | .join _ _ _ _ => inferInstanceAs (Decidable (_ → _ ∧ _))
  | .sync _ _ _ | .heartbeat _ _ | .assignment _ _ | .leave _ _ | .expire _ | .begin_commit _ _ _
  | .begin_delete_offsets _ _ | .fetch_offsets _ | .record_applied _ | .snapshot _ _
  | .watch _ _ _ | .reload _ _ _ _ => isTrue trivial

/-- The lists of the generations agree with all answers to joins and with all rounds. -/
structure OneList (lists : ℤ → String → List StreamName) (actions : List Action) (g : Group) :
    Prop where
  /-- A join is told the list of its member, which is contained in the subscription of the join. -/
  joins : ∀ sender outcome streams members, (sender, .join outcome) ∈ g.sent →
    outcome.result = .ok (.subscribed streams members) →
      streams = lists outcome.generation outcome.member_id ∧
        ∃ now fresh input, .join now fresh sender input ∈ actions ∧
          ∀ stream ∈ streams, stream ∈ input.membership.streams
  disjoint : ∀ generation id id', id ≠ id' → ∀ stream ∈ lists generation id,
    stream ∉ lists generation id'
  /-- The members of a round hold streams they want. -/
  contained : ∀ round ∈ g.rounds, round.mode = some .subscribed → ∀ id,
    ∀ stream ∈ lists round.generation id, ∃ m, round.members.get id = some m ∧ stream ∈ m.wanted
  /-- Together they hold every stream that one of them wants. -/
  whole : ∀ round ∈ g.rounds, round.mode = some .subscribed → ∀ id m,
    round.members.get id = some m → ∀ stream ∈ m.wanted,
      ∃ id' ∈ round.members.keys, stream ∈ lists round.generation id'

/-- An answer to an assignment query of subscribed members gives the list of its generation. -/
def QueryAgrees (lists : ℤ → String → List StreamName) (g : Group) (a : Action) : Prop :=
  ∀ now fence streams, a = .assignment now fence →
    (g.expire_members now).mode = some .subscribed →
    (g.assignment now fence).2 = .answered (.ok streams) →
      streams = lists fence.generation fence.member_id

end Group

end PicoMq.Groups
