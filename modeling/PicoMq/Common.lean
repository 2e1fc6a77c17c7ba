import Mathlib.Data.List.Basic

/-!
# What the crates share

Names in which slashes and dots are the same, and the limits of a topic.
-/

namespace PicoMq.Common

section Names

variable {α : Type} [DecidableEq α] (slash dot : α)

/-- `strip_prefix('/').unwrap_or(..)`. -/
def unrooted : List α → List α
  | [] => []
  | c :: rest => if c = slash then rest else c :: rest

/-- A name is a list of characters, or of the bytes of its UTF-8. -/
def canonical (spelling : List α) : List α :=
  (unrooted slash spelling).map fun c => if c = slash then dot else c

end Names

/-- How long, and how much of it, is kept; the limits are machine words or natural numbers. -/
structure Retention (ω : Type) where
  ms : Option ω := none
  bytes : Option ω := none
deriving DecidableEq, Repr

end PicoMq.Common
