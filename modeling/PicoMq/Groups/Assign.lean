import Mathlib.Data.List.Sort
import PicoMq.Groups.Types

/-!
# Assignment of streams to subscribed members

The streams with the fewest subscribers come first, each to the subscriber that holds the fewest.
-/

namespace PicoMq.Groups

/-- The streams a member is subscribed to, in order. -/
def Member.wanted (m : Member) : List StreamName :=
  match m.subscription with
  | some subscription => subscription.keys
  | none => []

variable (members : OrdMap String Member)

/-- The members that want each stream, in the order of their ids. -/
def subscribers : OrdMap StreamName (List String) :=
  members.entries.foldl
    (fun subscribers entry =>
      entry.2.wanted.foldl
        (fun subscribers stream =>
          subscribers.insert stream ((subscribers.get stream).getD [] ++ [entry.1]))
        subscribers)
    OrdMap.empty

/-- The streams with their candidates, in the order in which they are given out. -/
def assign_order : List (StreamName × List String) :=
  (subscribers members).entries.insertionSort fun a b =>
    a.2.length < b.2.length ∨ a.2.length = b.2.length ∧ a.1 ≤ b.1

/-- The candidate with the fewest streams; `none` where the program panics. -/
def least_loaded (assignments : OrdMap String (List StreamName)) (candidates : List String) :
    Option String := do
  let loads ← candidates.mapM fun id =>
    (assignments.get id).map fun streams => (toLex (streams.length, id) : ℕ ×ₗ String)
  return (ofLex (← loads.min?)).2

/-- One round of the loop. -/
def assign_stream (assignments : OrdMap String (List StreamName))
    (entry : StreamName × List String) : Option (OrdMap String (List StreamName)) := do
  let chosen ← least_loaded assignments entry.2
  let streams ← assignments.get chosen
  return assignments.insert chosen (streams ++ [entry.1])

/-- The streams of each member; `none` if one of the `expect` calls fails. -/
def assign : Option (OrdMap String (List StreamName)) := do
  let assignments ← (assign_order members).foldlM assign_stream (members.map fun _ => [])
  return assignments.map fun streams => streams.insertionSort (· ≤ ·)

/-- Any two members with the same subscription have lists whose lengths differ by at most one. -/
def Balanced (assignments : OrdMap String (List StreamName)) :
    Prop :=
  ∀ id id' m m', members.get id = some m → members.get id' = some m' →
    m.subscription = m'.subscription → ∃ held held', assignments.get id = some held ∧
      assignments.get id' = some held' ∧ held.length ≤ held'.length + 1 ∧
        held'.length ≤ held.length + 1

end PicoMq.Groups
