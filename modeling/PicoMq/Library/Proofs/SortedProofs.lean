import Mathlib.Data.List.Sort

/-!
# Proofs: scans of sorted lists

What a scan that stops early, a merge of two scans and a cut after some entries keep of a list in
order.
-/

namespace List

variable {α κ : Type*} {l l₁ l₂ : List α}

theorem takeWhile_eq_filter_of_pairwise {p : α → Bool}
    (h : l.Pairwise fun a b => p b = true → p a = true) : l.takeWhile p = l.filter p := by
  induction l with
  | nil => rfl
  | cons a l ih =>
    obtain ⟨hfirst, hrest⟩ := pairwise_cons.1 h
    by_cases ha : p a = true
    · rw [takeWhile_cons_of_pos ha, filter_cons_of_pos ha, ih hrest]
    · have hnone : l.filter p = [] := by
        rw [filter_eq_nil_iff]
        exact fun b hb hpb => ha (hfirst b hb hpb)
      rw [takeWhile_cons_of_neg ha, filter_cons_of_neg ha, hnone]

theorem pairwise_merge_lt [LinearOrder κ] {f : α → κ} (h₁ : l₁.Pairwise fun a b => f a < f b)
    (h₂ : l₂.Pairwise fun a b => f a < f b) (hne : ∀ a ∈ l₁, ∀ b ∈ l₂, f a ≠ f b) :
    (l₁.merge l₂ fun a b => decide (f a ≤ f b)).Pairwise fun a b => f a < f b := by
  have hle : (l₁.merge l₂ fun a b => decide (f a ≤ f b)).Pairwise fun a b =>
      decide (f a ≤ f b) = true := by
    refine pairwise_merge ?_ ?_ l₁ l₂ ?_ ?_
    · intro a b c hab hbc
      exact decide_eq_true ((of_decide_eq_true hab).trans (of_decide_eq_true hbc))
    · intro a b
      simpa using le_total (f a) (f b)
    · exact h₁.imp fun h => decide_eq_true h.le
    · exact h₂.imp fun h => decide_eq_true h.le
  have hkeys : (l₁.merge l₂ fun a b => decide (f a ≤ f b)).Pairwise fun a b => f a ≠ f b := by
    refine (merge_perm_append _).symm.pairwise ?_ fun h => h.symm
    exact pairwise_append.2 ⟨h₁.imp fun h => h.ne, h₂.imp fun h => h.ne, hne⟩
  exact (hle.and hkeys).imp fun h => lt_of_le_of_ne (of_decide_eq_true h.1) h.2

theorem mem_take_of_not_rel {R : α → α → Prop} (h : l.Pairwise R) {n : ℕ} {a b : α}
    (ha : a ∈ l.take n) (hb : b ∈ l) (hab : ¬R a b) : b ∈ l.take n := by
  rw [← take_append_drop n l] at h hb
  rcases mem_append.1 hb with hb | hb
  · exact hb
  · exact absurd ((pairwise_append.1 h).2.2 a ha b hb) hab

theorem le_of_find?_eq_some {α β : Type*} [Preorder β] {f : α → β} {p : α → Bool} {l : List α} {a : α}
    (hl : l.Pairwise fun x y => f x ≤ f y) (h : l.find? p = some a) {b : α} (hb : b ∈ l)
    (hp : p b = true) : f a ≤ f b := by
  obtain ⟨-, before, after, rfl, hbefore⟩ := find?_eq_some_iff_append.1 h
  rcases mem_append.1 hb with hb | hb
  · have hfalse := hbefore b hb
    rw [hp] at hfalse
    cases hfalse
  · rcases mem_cons.1 hb with rfl | hb
    · exact le_rfl
    · exact (pairwise_cons.1 (pairwise_append.1 hl).2.1).1 b hb

end List
