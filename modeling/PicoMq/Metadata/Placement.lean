import Mathlib.Data.Rat.Floor
import PicoMq.Metadata.Apply

/-!
# Placement by load

A stream goes to the node with the lowest ratio of streams to slots. The scan compares thousandths
of the ratios, rounded down.
-/

namespace PicoMq.Metadata

namespace MetadataState

variable (s : MetadataState)

/-- The streams opened on a node or placed on it. -/
def streams_of_node (node_id : ℤ) : ℕ :=
  (s.streams.entries.filter fun e =>
    e.2.node_id = node_id ∧ (e.2.state = .opened ∨ e.2.node_id ≠ -1)).length

def slots_of_node (node_id : ℤ) : ℕ :=
  (s.nodes.get node_id).elim 0 (·.slots)

def load_ratio (node_id : ℤ) : ℚ :=
  (s.streams_of_node node_id : ℚ) / (s.slots_of_node node_id : ℚ)

end MetadataState

/-- No node that may take streams has a lower ratio, or the same one and a lower id. -/
structure LowestRatio (s : MetadataState) (n : ℤ) : Prop where
  takes : node_takes_streams s n = true
  lowest : ∀ m, node_takes_streams s m = true → m ≠ n →
    s.load_ratio n < s.load_ratio m ∨ s.load_ratio n = s.load_ratio m ∧ n < m

/-- A number of thousandths lies between the lowest ratio and that of each node with a lower id. -/
def ThousandthsApart (s : MetadataState) : Prop :=
  ∀ n m, LowestRatio s n → node_takes_streams s m = true → m < n →
    ∃ k : ℕ, s.load_ratio n < (k : ℚ) / 1000 ∧ (k : ℚ) / 1000 ≤ s.load_ratio m

end PicoMq.Metadata
