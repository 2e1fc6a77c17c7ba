import Mathlib.Data.Nat.Init
import PicoMq.Library.Run

/-!
# Proofs: runs of a transition function

What holds initially and is kept by every step holds throughout.
-/

namespace Run

variable {σ α : Type*} {step : σ → α → σ} {s : σ} {as : List α} {i j : ℕ} {P : σ → Prop}
variable {Q : σ → α → Prop}

@[simp] theorem after_zero : after step s as 0 = s := rfl

theorem after_succ {a : α} (h : as[i]? = some a) :
    after step s as (i + 1) = step (after step s as i) a := by
  rw [after, List.take_add_one, h, run, List.foldl_append]; rfl

theorem after_succ_of_none (h : as[i]? = none) : after step s as (i + 1) = after step s as i := by
  rw [after, List.take_add_one, h, Option.toList_none, List.append_nil, after]

theorem after_length : after step s as as.length = run step s as := by
  rw [after, List.take_length]

/-- Past the last input nothing changes, so finitely many states are to be looked at. -/
theorem always_of_le_length (h : ∀ i ≤ as.length, P (after step s as i)) : Always step s as P := by
  intro i
  rcases Nat.le_total i as.length with hle | hle
  · exact h i hle
  · rw [after, List.take_of_length_le hle, ← after_length]
    exact h as.length (Nat.le_refl _)

theorem after_of_le (hij : i ≤ j) (h : P (after step s as i))
    (hstep : ∀ k a, i ≤ k → k < j → as[k]? = some a → P (after step s as k) →
      P (step (after step s as k) a)) : P (after step s as j) := by
  induction j, hij using Nat.le_induction with
  | base => exact h
  | succ j hij ih =>
    have hj := ih fun k a hik hkj => hstep k a hik (Nat.lt_succ_of_lt hkj)
    cases ha : as[j]? with
    | none => rw [after_succ_of_none ha]; exact hj
    | some a => rw [after_succ ha]; exact hstep j a hij (Nat.lt_succ_self j) ha hj

theorem after_invariant (h0 : P s) (hstep : ∀ s a, P s → P (step s a)) (i : ℕ) :
    P (after step s as i) :=
  after_of_le (Nat.zero_le i) h0 fun k a _ _ _ => hstep (after step s as k) a

theorem invariant (h0 : P s) (hstep : ∀ s a, P s → P (step s a)) (as : List α) :
    P (run step s as) := by
  rw [← after_length]; exact after_invariant h0 hstep as.length

/-- What every step keeps under `Q` holds throughout runs whose steps all meet `Q`. -/
theorem always_of_eachStep (h0 : P s)
    (hstep : ∀ s a, P s → Q s a → P (step s a)) (h : EachStep step s as Q) :
    Always step s as P := fun i =>
  after_of_le (Nat.zero_le i) h0 fun k a _ _ ha hP => hstep _ a hP (h k a ha)

theorem eachStep_nil : EachStep step s [] Q := fun i a h => by simp at h

theorem eachStep_cons {a : α} :
    EachStep step s (a :: as) Q ↔ Q s a ∧ EachStep step (step s a) as Q := by
  constructor
  · exact fun h => ⟨h 0 a rfl, fun i b hb => h (i + 1) b hb⟩
  · rintro ⟨h0, h⟩ i b hb
    cases i with
    | zero => cases hb; exact h0
    | succ i => exact h i b hb

/-- Whether all steps of a concrete run meet a condition can be computed. -/
instance decidableEachStep (step : σ → α → σ) (Q : σ → α → Prop) [∀ s a, Decidable (Q s a)] :
    ∀ (s : σ) (as : List α), Decidable (EachStep step s as Q)
  | _, [] => isTrue eachStep_nil
  | s, a :: as =>
    have := decidableEachStep step Q (step s a) as
    decidable_of_iff _ eachStep_cons.symm

/-- When the condition is also necessary, the property holds throughout exactly those runs. -/
theorem always_iff_eachStep {I P : σ → Prop} (hI : I s)
    (hIstep : ∀ s a, I s → I (step s a)) (h0 : P s)
    (hstep : ∀ s a, I s → P s → (P (step s a) ↔ Q s a)) :
    Always step s as P ↔ EachStep step s as Q := by
  constructor
  · intro h i a ha
    have hP' := h (i + 1)
    rw [after_succ ha] at hP'
    exact (hstep _ a (after_invariant hI hIstep i) (h i)).1 hP'
  · intro h i
    have hIP : I (after step s as i) ∧ P (after step s as i) :=
      always_of_eachStep (P := fun t => I t ∧ P t) ⟨hI, h0⟩
        (fun t a ht hq => ⟨hIstep t a ht.1, (hstep t a ht.1 ht.2).2 hq⟩) h i
    exact hIP.2

/-- A property that holds at one point and not at a later one is lost at some step between. -/
theorem exists_step_of_lost (hij : i ≤ j) (h : P (after step s as i))
    (hn : ¬P (after step s as j)) :
    ∃ k a, i ≤ k ∧ k < j ∧ as[k]? = some a ∧ P (after step s as k) ∧
      ¬P (step (after step s as k) a) := by
  by_contra hno
  refine hn (after_of_le hij h fun k a hik hkj ha hP => ?_)
  by_contra hlost
  exact hno ⟨k, a, hik, hkj, ha, hP, hlost⟩

end Run
