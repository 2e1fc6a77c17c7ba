import Mathlib.Data.List.Basic

/-!
# Runs of a transition function

A system that takes one step per input, and the states it goes through on a list of inputs.
-/

namespace Run

variable {σ α : Type*}

/-- The state after the inputs `as`. -/
def run (step : σ → α → σ) (s : σ) (as : List α) : σ := as.foldl step s

/-- The state after the first `i` of the inputs `as`; the last state, if there are fewer. -/
def after (step : σ → α → σ) (s : σ) (as : List α) (i : ℕ) : σ := run step s (as.take i)

/-- Every state the run goes through satisfies `P`, the first and the last included. -/
def Always (step : σ → α → σ) (s : σ) (as : List α) (P : σ → Prop) : Prop :=
  ∀ i, P (after step s as i)

/-- Every step the run takes satisfies `Q`, a predicate of the state before it and its input. -/
def EachStep (step : σ → α → σ) (s : σ) (as : List α) (Q : σ → α → Prop) : Prop :=
  ∀ i a, as[i]? = some a → Q (after step s as i) a

end Run
