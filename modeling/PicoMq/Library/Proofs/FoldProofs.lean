import Mathlib.Data.List.Basic
import Mathlib.Data.List.Induction

/-!
# Proofs: loops that may fail

Inversion of `Except` sequencing, and the invariant rules for `foldl` and `foldlM` loops.
-/

universe u v

variable {ε : Type u} {α β σ : Type v}

theorem Except.bind_eq_ok_iff {x : Except ε α} {f : α → Except ε β} {b : β} :
    (x >>= f) = Except.ok b ↔ ∃ a, x = Except.ok a ∧ f a = Except.ok b := by
  constructor
  · intro h
    cases x with
    | error e => cases h
    | ok a => exact ⟨a, rfl, h⟩
  · rintro ⟨a, rfl, h⟩
    exact h

theorem Except.map_eq_ok_iff {x : Except ε α} {f : α → β} {b : β} :
    x.map f = .ok b ↔ ∃ a, x = .ok a ∧ f a = b := by
  cases x <;> simp [Except.map]

theorem Except.mapError_eq_ok_iff {ε' : Type u} {f : ε → ε'} {x : Except ε α} {a : α} :
    x.mapError f = Except.ok a ↔ x = Except.ok a := by
  cases x with
  | error e => simp [Except.mapError]
  | ok b => simp [Except.mapError]

theorem List.foldl_unchanged {g : σ → β} {f : σ → α → σ} (h : ∀ s a, g (f s a) = g s) (s : σ)
    (l : List α) : g (l.foldl f s) = g s := by
  induction l generalizing s with
  | nil => rfl
  | cons a l ih => rw [List.foldl_cons, ih, h]

/-- A property kept by every round over an element of `l` is kept by the loop. -/
theorem List.foldl_invariant {P : σ → Prop} {f : σ → α → σ} {l : List α}
    (h : ∀ s, ∀ a ∈ l, P s → P (f s a)) {s : σ} (h0 : P s) : P (l.foldl f s) := by
  induction l generalizing s with
  | nil => exact h0
  | cons a l ih =>
    exact ih (fun s b hb => h s b (List.mem_cons_of_mem _ hb)) (h s a (List.mem_cons_self ..) h0)

theorem List.foldl_scanned {P : List α → σ → Prop} {f : σ → α → σ} {s : σ} (h0 : P [] s)
    (h : ∀ l a s, P l s → P (l ++ [a]) (f s a)) (l : List α) : P l (l.foldl f s) := by
  induction l using List.reverseRecOn with
  | nil => exact h0
  | append_singleton l a ih =>
    rw [List.foldl_append]
    exact h l a _ ih

theorem List.foldlM_cons_ok {f : σ → α → Except ε σ} {a : α} {l : List α} {s s' : σ} :
    (a :: l).foldlM f s = Except.ok s' ↔
      ∃ t, f s a = Except.ok t ∧ l.foldlM f t = Except.ok s' := by
  rw [List.foldlM_cons]; exact Except.bind_eq_ok_iff

/-- What every successful round keeps is kept by a successful loop. -/
theorem List.foldlM_invariant {P : σ → Prop} {f : σ → α → Except ε σ} {l : List α}
    (h : ∀ s s', ∀ a ∈ l, f s a = Except.ok s' → P s → P s') {s s' : σ}
    (hl : l.foldlM f s = Except.ok s') (h0 : P s) : P s' := by
  induction l generalizing s with
  | nil => cases hl; exact h0
  | cons a l ih =>
    obtain ⟨t, ht, htl⟩ := List.foldlM_cons_ok.1 hl
    exact ih (fun s s' b hb => h s s' b (List.mem_cons_of_mem _ hb)) htl
      (h s t a (List.mem_cons_self ..) ht h0)

theorem List.exists_mapM_ok_iff {f : α → Except ε β} {l : List α} :
    (∃ bs, l.mapM f = Except.ok bs) ↔ ∀ a ∈ l, ∃ b, f a = Except.ok b := by
  induction l with
  | nil => exact ⟨by simp, fun _ => ⟨[], rfl⟩⟩
  | cons a l ih =>
    simp only [List.mapM_cons, Except.bind_eq_ok_iff, List.forall_mem_cons, ← ih]
    constructor
    · rintro ⟨bs, b, hb, bs', hbs', -⟩; exact ⟨⟨b, hb⟩, bs', hbs'⟩
    · rintro ⟨⟨b, hb⟩, bs', hbs'⟩; exact ⟨b :: bs', b, hb, bs', hbs', rfl⟩

theorem List.exists_of_mapM_ok {f : α → Except ε β} {l : List α} {bs : List β} {b : β}
    (h : l.mapM f = Except.ok bs) (hb : b ∈ bs) : ∃ a ∈ l, f a = Except.ok b := by
  induction l generalizing bs with
  | nil => cases h; cases hb
  | cons a l ih =>
    simp only [List.mapM_cons, Except.bind_eq_ok_iff] at h
    obtain ⟨b', hb', bs', hbs', hpure⟩ := h
    cases hpure
    rcases List.mem_cons.1 hb with rfl | hb
    · exact ⟨a, List.mem_cons_self .., hb'⟩
    · obtain ⟨a', ha', hok⟩ := ih hbs' hb
      exact ⟨a', List.mem_cons_of_mem _ ha', hok⟩

theorem List.mem_of_mapM_ok {f : α → Except ε β} {l : List α} {bs : List β} {a : α} {b : β}
    (h : l.mapM f = Except.ok bs) (ha : a ∈ l) (hb : f a = Except.ok b) : b ∈ bs := by
  induction l generalizing bs with
  | nil => cases ha
  | cons a' l ih =>
    simp only [List.mapM_cons, Except.bind_eq_ok_iff] at h
    obtain ⟨b', hb', bs', hbs', hpure⟩ := h
    cases hpure
    rcases List.mem_cons.1 ha with rfl | ha
    · cases hb'.symm.trans hb
      exact List.mem_cons_self ..
    · exact List.mem_cons_of_mem _ (ih hbs' ha)

theorem List.mapM_eq_some_map {f : α → Option β} {g : α → β} {l : List α}
    (h : ∀ a ∈ l, f a = some (g a)) : l.mapM f = some (l.map g) := by
  induction l with
  | nil => rfl
  | cons a l ih =>
    rw [List.mapM_cons, h a (List.mem_cons_self ..),
      ih fun b hb => h b (List.mem_cons_of_mem _ hb)]
    rfl

theorem List.find?_reverse_eq_some {κ : Type v} [DecidableEq κ] {k : α → κ} {l : List α} {a : α}
    (ha : a ∈ l) (h : ∀ b ∈ l, k b = k a → b = a) :
    l.reverse.find? (fun b => k b = k a) = some a := by
  cases hfind : l.reverse.find? fun b => k b = k a with
  | none =>
    have := List.find?_eq_none.1 hfind a (List.mem_reverse.2 ha)
    simp at this
  | some b =>
    have hb := List.mem_reverse.1 (List.mem_of_find?_eq_some hfind)
    rw [h b hb (by simpa using List.find?_some hfind)]

section Invariant

variable {I : σ → Prop} {f : σ → α → σ}

theorem List.foldl_adds {P : σ → Prop} {q : α → Prop} (hI : ∀ s a, I s → I (f s a))
    (h : ∀ s a, I s → (P (f s a) ↔ q a ∨ P s)) (l : List α) {s : σ} (h0 : I s) :
    P (l.foldl f s) ↔ (∃ a ∈ l, q a) ∨ P s := by
  induction l generalizing s with
  | nil => simp
  | cons a l ih =>
    rw [List.foldl_cons, ih (hI s a h0), h s a h0, List.exists_mem_cons_iff, or_assoc,
      or_left_comm]

theorem List.foldl_clears {g : σ → Option β} {p : α → Prop} [DecidablePred p]
    (hI : ∀ s a, I s → I (f s a)) (h : ∀ s a, I s → g (f s a) = if p a then none else g s)
    (l : List α) {s : σ} (h0 : I s) :
    g (l.foldl f s) = if ∃ a ∈ l, p a then none else g s := by
  induction l generalizing s with
  | nil => simp
  | cons a l ih =>
    rw [List.foldl_cons, ih (hI s a h0), h s a h0]
    by_cases ha : p a <;> simp [ha]

end Invariant
