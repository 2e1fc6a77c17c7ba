import PicoMq.Server.StreamSeq

/-!
# Proofs: the stream sequence

A ledger covers a value at an offset if it holds that value or a greater one, booked so that
settling keeps it.
-/

namespace PicoMq.Server

open List Option

namespace Ledger

variable {T : Type} {l : Ledger T} {v w : T} {b c : ℕ}

/-! ## The values of a ledger -/

def values (l : Ledger T) : List T := l.durable.toList ++ l.pending.map Prod.fst

theorem mem_values : v ∈ l.values ↔ l.durable = some v ∨ ∃ b, (v, b) ∈ l.pending := by
  simp [values]

theorem last_mem_values (h : l.last = some v) : v ∈ l.values := by
  rw [last, or_eq_some_iff, map_eq_some_iff] at h
  rcases h with ⟨entry, hlast, rfl⟩ | ⟨-, hdurable⟩
  · exact mem_values.2 (.inr ⟨entry.2, mem_of_getLast? hlast⟩)
  · exact mem_values.2 (.inl hdurable)

theorem mem_accept {landed : Option ℕ} (h : v ∈ (l.accept w landed).values) :
    v = w ∨ v ∈ l.values := by
  cases landed with
  | none =>
    rcases mem_values.1 h with hdurable | hpending
    · cases hdurable
      exact .inl rfl
    · exact .inr (mem_values.2 (.inr hpending))
  | some b =>
    rcases mem_values.1 h with hdurable | ⟨c, hpending⟩
    · exact .inr (mem_values.2 (.inl hdurable))
    · rcases mem_append.1 hpending with hpending | hpending
      · exact .inr (mem_values.2 (.inr ⟨c, hpending⟩))
      · rw [mem_singleton] at hpending
        cases hpending
        exact .inl rfl

theorem mem_confirm (h : v ∈ (l.confirm c).values) : v ∈ l.values := by
  rcases mem_values.1 h with hdurable | ⟨b, hpending⟩
  · simp only [confirm, or_eq_some_iff, map_eq_some_iff] at hdurable
    rcases hdurable with ⟨entry, hlast, rfl⟩ | ⟨-, hdurable⟩
    · refine mem_values.2 (.inr ⟨entry.2, ?_⟩)
      exact (takeWhile_sublist _).subset (mem_of_getLast? hlast)
    · exact mem_values.2 (.inl hdurable)
  · exact mem_values.2 (.inr ⟨b, (dropWhile_sublist _).subset hpending⟩)

theorem mem_settle (h : v ∈ (l.settle c).values) : v ∈ l.values := by
  rcases mem_values.1 (mem_confirm h) with hdurable | ⟨b, hpending⟩
  · exact mem_values.2 (.inl hdurable)
  · exact mem_values.2 (.inr ⟨b, (mem_filter.1 hpending).1⟩)

theorem last_of_pending {y : T × ℕ} (h : l.pending.getLast? = some y) : l.last = some y.1 := by
  simp only [last, h, map_some, some_or]

theorem last_of_nil (h : l.pending = []) : l.last = l.durable := by
  simp only [last, h, getLast?_nil, map_none, none_or]

/-! ## What it covers -/

variable [LinearOrder T]

def Ordered (l : Ledger T) : Prop := l.pending.Pairwise fun x y => x.1 < y.1

/-- `w` is greater than the last value. -/
def Below (l : Ledger T) (w : T) : Prop := ∀ u, l.last = some u → u < w

/-- The append at `b` with value `v` is accounted for by a pending value, booked no later, or by the
durable one. -/
def Covers (l : Ledger T) (v : T) (b : ℕ) : Prop :=
  (∃ entry ∈ l.pending, v ≤ entry.1 ∧ entry.2 ≤ b) ∨
    (∃ d, l.durable = some d ∧ v ≤ d) ∧ ∀ entry ∈ l.pending, v < entry.1

/-! ## The last value -/

theorem le_getLast {p : List (T × ℕ)} (h : p.Pairwise fun x y => x.1 < y.1) {x y : T × ℕ}
    (hx : x ∈ p) (hy : p.getLast? = some y) : x.1 ≤ y.1 := by
  obtain ⟨q, rfl⟩ := getLast?_eq_some_iff.1 hy
  rcases mem_append.1 hx with hq | hx
  · exact le_of_lt ((pairwise_append.1 h).2.2 x hq y (mem_singleton_self y))
  · rw [mem_singleton.1 hx]

section

variable (hl : l.Ordered)
include hl

theorem pending_le_last {entry : T × ℕ} (h : entry ∈ l.pending) :
    ∃ u, l.last = some u ∧ entry.1 ≤ u := by
  cases hlast : l.pending.getLast? with
  | none =>
    rw [getLast?_eq_none_iff.1 hlast] at h
    cases h
  | some y => exact ⟨y.1, last_of_pending hlast, le_getLast hl h hlast⟩

theorem Covers.le_last (h : l.Covers v b) : ∃ u, l.last = some u ∧ v ≤ u := by
  rcases h with ⟨entry, hmem, hle, -⟩ | ⟨⟨d, hd, hle⟩, hall⟩
  · obtain ⟨u, hu, hentry⟩ := pending_le_last hl hmem
    exact ⟨u, hu, le_trans hle hentry⟩
  · cases hlast : l.pending.getLast? with
    | none =>
      rw [last_of_nil (getLast?_eq_none_iff.1 hlast)]
      exact ⟨d, hd, hle⟩
    | some y =>
      exact ⟨y.1, last_of_pending hlast, le_of_lt (hall y (mem_of_getLast? hlast))⟩

theorem Covers.lt_of_below (hw : l.Below w) (h : l.Covers v b) : v < w := by
  obtain ⟨u, hu, hle⟩ := h.le_last hl
  exact lt_of_le_of_lt hle (hw u hu)

/-! ## Accepting a value -/

theorem Ordered.accept (hw : l.Below w) (landed : Option ℕ) :
    (l.accept w landed).Ordered := by
  cases landed with
  | none => exact hl
  | some c =>
    refine pairwise_append.2 ⟨hl, pairwise_singleton _ _, fun x hx y hy => ?_⟩
    rw [mem_singleton.1 hy]
    obtain ⟨u, hu, hle⟩ := pending_le_last hl hx
    exact lt_of_le_of_lt hle (hw u hu)

theorem Covers.accept (hw : l.Below w) (h : l.Covers v b) (landed : Option ℕ) :
    (l.accept w landed).Covers v b := by
  have hlt := h.lt_of_below hl hw
  cases landed with
  | none =>
    rcases h with hpending | ⟨-, hall⟩
    · exact .inl hpending
    · exact .inr ⟨⟨w, rfl, le_of_lt hlt⟩, hall⟩
  | some c =>
    rcases h with ⟨entry, hmem, hle⟩ | ⟨hdurable, hall⟩
    · exact .inl ⟨entry, mem_append_left _ hmem, hle⟩
    · refine .inr ⟨hdurable, fun entry hmem => ?_⟩
      rcases mem_append.1 hmem with hmem | hmem
      · exact hall entry hmem
      · rw [mem_singleton.1 hmem]
        exact hlt

end

theorem covers_accept_self : (l.accept w (some b)).Covers w b :=
  .inl ⟨(w, b), mem_append_right _ (mem_singleton_self _), le_refl _, le_refl _⟩

/-! ## Confirming, settling, raising -/

section

variable (hl : l.Ordered)
include hl

theorem Ordered.sublist {l' : Ledger T} (h : l'.pending.Sublist l.pending) :
    l'.Ordered :=
  List.Pairwise.sublist h hl

theorem Ordered.confirm (c : ℕ) : (l.confirm c).Ordered :=
  hl.sublist (dropWhile_sublist _)

theorem Covers.confirm (h : l.Covers v b) (c : ℕ) : (l.confirm c).Covers v b := by
  have hsplit : (l.pending.takeWhile fun entry => entry.2 < c) ++
      (l.pending.dropWhile fun entry => entry.2 < c) = l.pending :=
    takeWhile_append_dropWhile
  have hpairs := hl
  unfold Ordered at hpairs
  rw [← hsplit, pairwise_append] at hpairs
  cases hlast : (l.pending.takeWhile fun entry => entry.2 < c).getLast? with
  | none =>
    have hnil := getLast?_eq_none_iff.1 hlast
    rw [hnil, nil_append] at hsplit
    have heq : l.confirm c = l := by
      simp only [Ledger.confirm, hlast, hsplit, map_none, none_or]
    rw [heq]
    exact h
  | some y =>
    have hdurable : (l.confirm c).durable = some y.1 := by
      simp only [Ledger.confirm, hlast, map_some, some_or]
    have hrest : ∀ entry ∈ (l.confirm c).pending, y.1 < entry.1 := fun entry hentry =>
      hpairs.2.2 y (mem_of_getLast? hlast) entry hentry
    have hcovered : v ≤ y.1 → (l.confirm c).Covers v b := fun hle =>
      .inr ⟨⟨y.1, hdurable, hle⟩, fun entry hentry => lt_of_le_of_lt hle (hrest entry hentry)⟩
    rcases h with ⟨entry, hmem, hle, hb⟩ | ⟨-, hall⟩
    · rw [← hsplit] at hmem
      rcases mem_append.1 hmem with hfront | hback
      · exact hcovered (le_trans hle (le_getLast hpairs.1 hfront hlast))
      · exact .inl ⟨entry, hback, hle, hb⟩
    · refine hcovered (le_of_lt (hall y ?_))
      exact (takeWhile_sublist _).subset (mem_of_getLast? hlast)

theorem Ordered.settle (c : ℕ) : (l.settle c).Ordered := by
  refine Ordered.confirm ?_ c
  exact hl.sublist filter_sublist

theorem Covers.settle (h : l.Covers v b) (hb : b < c) :
    (l.settle c).Covers v b := by
  refine Covers.confirm (hl.sublist filter_sublist) ?_ c
  rcases h with ⟨entry, hmem, hle, hentry⟩ | ⟨hdurable, hall⟩
  · refine .inl ⟨entry, mem_filter.2 ⟨hmem, ?_⟩, hle, hentry⟩
    exact decide_eq_true (lt_of_le_of_lt hentry hb)
  · exact .inr ⟨hdurable, fun entry hmem => hall entry (mem_filter.1 hmem).1⟩

theorem Ordered.raise (w : T) : (l.raise w).Ordered :=
  hl.sublist filter_sublist

end

theorem exists_raise (l : Ledger T) (w : T) :
    ∃ d, l.raise w = { durable := some d, pending := l.pending.filter fun entry => d < entry.1 } ∧
      (∀ u, l.durable = some u → u ≤ d) ∧ (d = w ∨ l.durable = some d) := by
  unfold Ledger.raise
  cases hd : l.durable with
  | none =>
    refine ⟨w, rfl, fun u hu => ?_, .inl rfl⟩
    cases hu
  | some d =>
    by_cases hlt : d < w
    · refine ⟨w, by simp only [if_pos hlt], fun u hu => ?_, .inl rfl⟩
      cases hu
      exact le_of_lt hlt
    · refine ⟨d, by simp only [if_neg hlt], fun u hu => ?_, .inr rfl⟩
      cases hu
      exact le_refl d

theorem mem_raise (h : v ∈ (l.raise w).values) : v = w ∨ v ∈ l.values := by
  obtain ⟨d, heq, -, hd⟩ := exists_raise l w
  rw [heq] at h
  rcases mem_values.1 h with hdurable | ⟨b, hpending⟩
  · cases hdurable
    exact hd.imp id fun hd => mem_values.2 (.inl hd)
  · exact .inr (mem_values.2 (.inr ⟨b, (mem_filter.1 hpending).1⟩))

theorem Covers.raise (h : l.Covers v b) (w : T) : (l.raise w).Covers v b := by
  obtain ⟨d, heq, hge, -⟩ := exists_raise l w
  rw [heq]
  -- what is left pending is above the new durable value
  have hcovered : v ≤ d → Covers
      { durable := some d, pending := l.pending.filter fun entry => d < entry.1 } v b := fun hle =>
    .inr ⟨⟨d, rfl, hle⟩, fun entry hentry =>
      lt_of_le_of_lt hle (of_decide_eq_true (mem_filter.1 hentry).2)⟩
  rcases h with ⟨entry, hmem, hle, hb⟩ | ⟨⟨u, hu, hle⟩, -⟩
  · by_cases hlt : d < entry.1
    · exact .inl ⟨entry, mem_filter.2 ⟨hmem, decide_eq_true hlt⟩, hle, hb⟩
    · exact hcovered (le_trans hle (not_lt.1 hlt))
  · exact hcovered (le_trans hle (hge u hu))

end Ledger

end PicoMq.Server
