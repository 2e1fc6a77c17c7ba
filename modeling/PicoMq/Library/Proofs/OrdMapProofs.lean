import Mathlib.Algebra.BigOperators.Group.List.Basic
import Mathlib.Data.List.Nodup
import Mathlib.Data.Prod.Lex
import Mathlib.Tactic.Ring
import PicoMq.Library.OrdMap

/-!
# Proofs: ordered maps

Lookups after each operation, extensionality, membership in scans, and how a sum over the entries
moves when one entry changes.
-/

namespace OrdMap

open List

variable {K V W : Type*} [LinearOrder K]
variable {k k' : K} {v : V} {m : OrdMap K V} {l : List (K × V)}

/-! ## Lookups -/

theorem lookupEntry_eq_none (h : ∀ e ∈ l, k ≠ e.1) : lookupEntry k l = none := by
  induction l with
  | nil => rfl
  | cons hd tl ih =>
    obtain ⟨k', v'⟩ := hd
    have hne : k ≠ k' := h (k', v') (mem_cons_self ..)
    simp only [lookupEntry, if_neg hne]
    exact ih fun e he => h e (mem_cons_of_mem _ he)

theorem lookupEntry_insertEntry (k k' : K) (v : V) (l : List (K × V)) :
    lookupEntry k' (insertEntry k v l) = if k' = k then some v else lookupEntry k' l := by
  induction l with
  | nil => simp [insertEntry, lookupEntry]
  | cons hd tl ih =>
    obtain ⟨k₀, v₀⟩ := hd
    simp only [insertEntry]
    split_ifs with h1 h2 h3 h4 h5
    · simp [lookupEntry, h2]
    · simp [lookupEntry, h2]
    · simp [lookupEntry, h4]
    · subst h3; simp [lookupEntry, h4]
    · subst h5; simp [lookupEntry, h3, ih]
    · simp [lookupEntry, ih, h5]

theorem lookupEntry_removeEntry (k k' : K) (h : l.Pairwise fun a b => a.1 < b.1) :
    lookupEntry k' (removeEntry k l) = if k' = k then none else lookupEntry k' l := by
  induction l with
  | nil => simp [removeEntry, lookupEntry]
  | cons hd tl ih =>
    obtain ⟨k₀, v₀⟩ := hd
    obtain ⟨hhd, htl⟩ := pairwise_cons.1 h
    simp only [removeEntry]
    by_cases hk : k = k₀
    · subst hk
      rw [if_pos rfl]
      by_cases hk' : k' = k
      · subst hk'
        rw [if_pos rfl]
        exact lookupEntry_eq_none fun e he => ne_of_lt (hhd e he)
      · simp [lookupEntry, hk']
    · rw [if_neg hk]
      simp only [lookupEntry, ih htl]
      by_cases hk' : k' = k
      · subst hk'; simp [hk]
      · simp [hk']

@[simp] theorem get_empty (k : K) : (empty : OrdMap K V).get k = none := rfl

@[simp, grind =] theorem get_insert (m : OrdMap K V) (k k' : K) (v : V) :
    (m.insert k v).get k' = if k' = k then some v else m.get k' :=
  lookupEntry_insertEntry k k' v m.entries

@[simp, grind =] theorem get_remove (m : OrdMap K V) (k k' : K) :
    (m.remove k).get k' = if k' = k then none else m.get k' :=
  lookupEntry_removeEntry k k' m.sorted

theorem get_insert_self (m : OrdMap K V) (k : K) (v : V) : (m.insert k v).get k = some v := by
  rw [get_insert, if_pos rfl]

theorem get_insert_cases {v' : V} (h : (m.insert k v).get k' = some v') :
    k' = k ∧ v' = v ∨ k' ≠ k ∧ m.get k' = some v' := by
  rw [get_insert] at h
  split_ifs at h with hk
  · exact .inl ⟨hk, (Option.some.inj h).symm⟩
  · exact .inr ⟨hk, h⟩

theorem of_get_remove (h : (m.remove k).get k' = some v) : k' ≠ k ∧ m.get k' = some v := by
  rw [get_remove] at h
  split_ifs at h with hk
  exact ⟨hk, h⟩

theorem mem_entries : (k, v) ∈ m.entries ↔ m.get k = some v := by
  obtain ⟨l, h⟩ := m
  show (k, v) ∈ l ↔ lookupEntry k l = some v
  induction l with
  | nil => simp [lookupEntry]
  | cons hd tl ih =>
    obtain ⟨k₀, v₀⟩ := hd
    obtain ⟨hhd, htl⟩ := pairwise_cons.1 h
    by_cases hk : k = k₀
    · subst hk
      have hout : (k, v) ∉ tl := fun hm => lt_irrefl k (hhd (k, v) hm)
      simp [lookupEntry, hout, eq_comm]
    · simp [lookupEntry, hk, ih htl]

@[simp] theorem get_retain (m : OrdMap K V) (p : K → Bool) (k : K) :
    (m.retain p).get k = if p k then m.get k else none := by
  apply Option.ext
  intro v
  rw [← mem_entries (m := m.retain p)]
  simp only [retain, mem_filter, mem_entries]
  by_cases h : p k <;> simp [h]

@[ext] theorem ext {m₁ m₂ : OrdMap K V} (h : ∀ k, m₁.get k = m₂.get k) : m₁ = m₂ := by
  have hmem : ∀ e, e ∈ m₁.entries ↔ e ∈ m₂.entries := fun e => by
    rw [mem_entries, mem_entries, h]
  have hnd : ∀ m : OrdMap K V, m.entries.Nodup := fun m =>
    m.sorted.imp fun hlt he => by rw [he] at hlt; exact lt_irrefl _ hlt
  have hperm : m₁.entries.Perm m₂.entries :=
    (perm_ext_iff_of_nodup (hnd m₁) (hnd m₂)).2 hmem
  have heq : m₁.entries = m₂.entries := hperm.eq_of_pairwise
    (fun a b _ _ hab hba => absurd (lt_trans hab hba) (lt_irrefl _)) m₁.sorted m₂.sorted
  cases m₁; cases m₂; cases heq; rfl

theorem ext_pairs {A B : Type*} [LinearOrder A] [LinearOrder B] {m₁ m₂ : OrdMap (A ×ₗ B) Unit}
    (h : ∀ a b, m₁.get (toLex (a, b)) = some () ↔ m₂.get (toLex (a, b)) = some ()) : m₁ = m₂ :=
  ext fun k => Option.ext fun () => h (ofLex k).1 (ofLex k).2

@[simp]
theorem get_map_with_key (m : OrdMap K V) (f : K → V → W) (k : K) :
    (m.map_with_key f).get k = (m.get k).map (f k) := by
  obtain ⟨l, h⟩ := m
  show lookupEntry k (l.map fun e => (e.1, f e.1 e.2)) = (lookupEntry k l).map (f k)
  clear h
  induction l with
  | nil => rfl
  | cons hd tl ih =>
    obtain ⟨k', v⟩ := hd
    simp only [map_cons, lookupEntry]
    split_ifs with hk
    · rw [hk, Option.map_some]
    · exact ih

@[simp]
theorem get_map (m : OrdMap K V) (f : V → W) (k : K) : (m.map f).get k = (m.get k).map f :=
  get_map_with_key m (fun _ => f) k

theorem is_empty_iff : m.is_empty = true ↔ m = empty := by
  obtain ⟨l, h⟩ := m
  cases l with
  | nil => simp [is_empty, empty]
  | cons e l => simp [is_empty, empty]

theorem contains_key_iff : m.contains_key k = true ↔ ∃ v, m.get k = some v := by
  rw [contains_key, Option.isSome_iff_exists]

theorem contains_key_eq_false : m.contains_key k = false ↔ m.get k = none := by
  rw [contains_key, Option.isSome_eq_false_iff, Option.isNone_iff_eq_none]

theorem mem_keys : k ∈ m.keys ↔ ∃ v, m.get k = some v := by
  simp only [keys, mem_map, Prod.exists, mem_entries]
  constructor
  · rintro ⟨a, b, h, rfl⟩; exact ⟨b, h⟩
  · rintro ⟨v, h⟩; exact ⟨k, v, h, rfl⟩

theorem mem_keys_of_get (h : m.get k = some v) : k ∈ m.keys :=
  mem_keys.2 ⟨v, h⟩

theorem not_mem_keys : k ∉ m.keys ↔ m.get k = none := by
  rw [mem_keys, ← Option.isSome_iff_exists, Bool.not_eq_true, Option.isSome_eq_false_iff,
    Option.isNone_iff_eq_none]

theorem contains_key_iff_mem_keys : m.contains_key k = true ↔ k ∈ m.keys := by
  rw [contains_key_iff, mem_keys]

@[simp] theorem keys_empty : (empty : OrdMap K V).keys = [] := rfl

theorem eq_empty_of_keys (h : m.keys ⊆ []) : m = empty :=
  ext fun _ => not_mem_keys.1 fun hk => not_mem_nil (h hk)

@[simp] theorem mem_keys_insert : k' ∈ (m.insert k v).keys ↔ k' = k ∨ k' ∈ m.keys := by
  simp only [mem_keys, get_insert]
  by_cases hk : k' = k <;> simp [hk]

@[simp] theorem mem_keys_remove : k' ∈ (m.remove k).keys ↔ k' ≠ k ∧ k' ∈ m.keys := by
  simp only [mem_keys, get_remove]
  by_cases hk : k' = k <;> simp [hk]

@[simp] theorem keys_map (m : OrdMap K V) (f : V → W) : (m.map f).keys = m.keys := by
  simp [keys, map, Function.comp_def]

@[simp] theorem keys_map_with_key (m : OrdMap K V) (f : K → V → W) :
    (m.map_with_key f).keys = m.keys := by
  simp [keys, map_with_key, Function.comp_def]

theorem keys_nodup (m : OrdMap K V) : m.keys.Nodup :=
  List.Pairwise.map Prod.fst (fun _ _ hlt => ne_of_lt hlt) m.sorted

theorem mem_values : v ∈ m.values ↔ ∃ k, m.get k = some v := by
  simp only [values, mem_map, Prod.exists, mem_entries]
  constructor
  · rintro ⟨a, b, h, rfl⟩; exact ⟨a, h⟩
  · rintro ⟨k, h⟩; exact ⟨k, v, h, rfl⟩

theorem mem_scan {p : K → Bool} : (k, v) ∈ m.scan p ↔ m.get k = some v ∧ p k = true := by
  rw [scan, mem_filter, mem_entries]

@[simp] theorem insert_remove (m : OrdMap K V) (k : K) (v : V) :
    (m.remove k).insert k v = m.insert k v := by
  ext1 k'
  simp only [get_insert, get_remove]
  split_ifs <;> rfl

theorem insert_remove_comm (h : k ≠ k') : (m.insert k v).remove k' = (m.remove k').insert k v := by
  ext1 k''
  simp only [get_insert, get_remove]
  split_ifs with hremove hinsert
  · exact absurd (hinsert.symm.trans hremove) h
  all_goals rfl

theorem filter_entries_insert {p : K × V → Bool}
    (hp : ∀ v, p (k, v) = false) : (m.insert k v).entries.filter p = m.entries.filter p := by
  show (insertEntry k v m.entries).filter p = _
  induction m.entries with
  | nil => simp [insertEntry, hp]
  | cons hd tl ih =>
    obtain ⟨k', v'⟩ := hd
    simp only [insertEntry]
    split_ifs with hlt heq
    · rw [filter_cons_of_neg (by simp [hp])]
    · subst heq
      rw [filter_cons_of_neg (by simp [hp]), filter_cons_of_neg (by simp [hp])]
    · rw [filter_cons, filter_cons, ih]

theorem remove_of_get_eq_none (h : m.get k = none) : m.remove k = m := by
  ext1 k'
  rw [get_remove]
  split_ifs with hk
  · rw [hk, h]
  · rfl

/-! ## Loops of insertions and removals -/

section Loops

variable {α : Type*}

theorem get_foldl_remove (f : α → K) (l : List α) (m : OrdMap K V) (k : K) :
    (l.foldl (fun m a => m.remove (f a)) m).get k = if ∃ a ∈ l, f a = k then none else m.get k := by
  induction l generalizing m with
  | nil => simp
  | cons a l ih =>
    rw [foldl_cons, ih, get_remove]
    simp only [mem_cons, exists_eq_or_imp]
    by_cases hk : k = f a
    · simp [hk]
    · simp [hk, Ne.symm hk]

/-- After a loop of insertions a key has the value of the last pair that names it. -/
theorem get_foldl_insert (f : α → K) (g : α → V) (l : List α) (m : OrdMap K V) (k : K) :
    (l.foldl (fun m a => m.insert (f a) (g a)) m).get k =
      ((l.reverse.find? fun a => f a = k).map g).or (m.get k) := by
  induction l generalizing m with
  | nil => simp
  | cons a l ih =>
    rw [foldl_cons, ih, get_insert, reverse_cons, find?_append]
    cases h : l.reverse.find? fun a => f a = k with
    | some b => simp
    | none =>
      by_cases hk : k = f a
      · simp [hk]
      · simp [hk, Ne.symm hk]

/-- A map built from pairs that agree on equal keys has exactly those pairs. -/
theorem get_ofList_of_functional (h : ∀ k v v', (k, v) ∈ l → (k, v') ∈ l → v = v') :
    (ofList l).get k = some v ↔ (k, v) ∈ l := by
  rw [ofList, get_foldl_insert, get_empty, Option.or_none]
  cases hf : l.reverse.find? fun e => e.1 = k with
  | none =>
    have := find?_eq_none.1 hf (k, v)
    simp_all
  | some e =>
    have hmem := mem_of_find?_eq_some hf
    have hk := find?_some hf
    simp only [decide_eq_true_eq] at hk
    subst hk
    rw [mem_reverse] at hmem
    simp only [Option.map_some, Option.some.injEq]
    exact ⟨fun hv => hv ▸ hmem, fun hv => h _ _ _ hmem hv⟩

theorem ofList_entries (m : OrdMap K V) : ofList m.entries = m := by
  refine ext fun k => Option.ext fun v => ?_
  rw [get_ofList_of_functional fun k v v' hv hv' => ?_, mem_entries]
  rw [mem_entries] at hv hv'
  exact Option.some.inj (hv.symm.trans hv')

/-- A loop over the entries of a map, seen as building the map up from the empty one. -/
theorem foldl_entries {σ : Type*} {Q : OrdMap K V → σ → Prop} {f : σ → K × V → σ}
    (h : ∀ m' s k v, m'.get k = none →
      (∀ k' v', m'.get k' = some v' → m.get k' = some v') → m.get k = some v → Q m' s →
      Q (m'.insert k v) (f s (k, v))) {s : σ} (h0 : Q empty s) : Q m (m.entries.foldl f s) := by
  suffices hsuffix : ∀ done todo, m.entries = done ++ todo → ∀ s, Q (ofList done) s →
      Q m (todo.foldl f s) from hsuffix [] m.entries rfl s h0
  intro done todo
  induction todo generalizing done with
  | nil =>
    intro hentries s hs
    rw [append_nil] at hentries
    rwa [← hentries, ofList_entries] at hs
  | cons e todo ih =>
    intro hentries s hs
    have hget : ∀ k v, (ofList done).get k = some v → (k, v) ∈ done := by
      intro k v hv
      rw [get_ofList_of_functional fun k v v' hv hv' => ?_] at hv
      · exact hv
      · have hm : ∀ e ∈ done, e ∈ m.entries := fun e he => by simp [hentries, he]
        have h1 := mem_entries.1 (hm _ hv)
        exact Option.some.inj (h1.symm.trans (mem_entries.1 (hm _ hv')))
    refine ih (done ++ [e]) (by simp [hentries]) (f s e) ?_
    rw [ofList, foldl_append]
    refine h (ofList done) s e.1 e.2 ?_ ?_ ?_ hs
    · -- the keys before this entry are smaller
      by_contra hne
      obtain ⟨v, hv⟩ := Option.ne_none_iff_exists'.1 hne
      have hsorted := m.sorted
      rw [hentries, pairwise_append] at hsorted
      exact lt_irrefl _ (hsorted.2.2 _ (hget _ v hv) e (mem_cons_self ..))
    · intro k v hv
      rw [← mem_entries, hentries]
      exact mem_append_left _ (hget k v hv)
    · rw [← mem_entries, hentries]
      exact mem_append_right _ (mem_cons_self ..)

theorem length_insertEntry_le (k : K) (v : V) (l : List (K × V)) :
    (insertEntry k v l).length ≤ l.length + 1 := by
  induction l with
  | nil => simp [insertEntry]
  | cons hd tl ih =>
    obtain ⟨k', v'⟩ := hd
    simp only [insertEntry]
    split_ifs
    · simp
    · simp
    · simpa using ih

theorem get_ofList_unit {l : List (K × Unit)} : (ofList l).get k = some () ↔ (k, ()) ∈ l :=
  get_ofList_of_functional fun _ _ _ _ _ => rfl

theorem get_foldl_tally (l : List K) (m : OrdMap K ℕ) (k : K) :
    (l.foldl (fun m k => m.insert k ((m.get k).getD 0 + 1)) m).get k =
      if l.count k = 0 then m.get k else some ((m.get k).getD 0 + l.count k) := by
  induction l generalizing m with
  | nil => simp
  | cons a l ih =>
    rw [foldl_cons, ih, get_insert, count_cons]
    by_cases hk : k = a
    · subst hk
      simp only [if_true, beq_self_eq_true, Option.getD_some]
      split_ifs <;> simp_all
      omega
    · simp [hk, Ne.symm hk]

theorem get_tally (l : List K) (k : K) :
    (tally l).get k = if l.count k = 0 then none else some (l.count k) := by
  rw [tally, get_foldl_tally]; simp

end Loops

/-! ## Sums over the entries -/

theorem sum_removeEntry (f : K → V → ℕ) (k : K) (l : List (K × V)) :
    ((removeEntry k l).map fun e => f e.1 e.2).sum + ((lookupEntry k l).elim 0 (f k)) =
      (l.map fun e => f e.1 e.2).sum := by
  induction l with
  | nil => simp [removeEntry, lookupEntry]
  | cons hd tl ih =>
    obtain ⟨k₀, v₀⟩ := hd
    by_cases hk : k = k₀
    · subst hk; simp [removeEntry, lookupEntry, add_comm]
    · simp only [removeEntry, lookupEntry, if_neg hk, map_cons, sum_cons, ← ih]
      ring

theorem sum_insertEntry (f : K → V → ℕ) (k : K) (v : V) (h : l.Pairwise fun a b => a.1 < b.1) :
    ((insertEntry k v l).map fun e => f e.1 e.2).sum + ((lookupEntry k l).elim 0 (f k)) =
      (l.map fun e => f e.1 e.2).sum + f k v := by
  induction l with
  | nil => simp [insertEntry, lookupEntry]
  | cons hd tl ih =>
    obtain ⟨k₀, v₀⟩ := hd
    obtain ⟨hhd, htl⟩ := pairwise_cons.1 h
    simp only [insertEntry]
    split_ifs with h1 h2
    · have hnone : lookupEntry k ((k₀, v₀) :: tl) = none := by
        refine lookupEntry_eq_none fun e he => ?_
        rcases mem_cons.1 he with rfl | he
        · exact ne_of_lt h1
        · exact ne_of_lt (lt_trans h1 (hhd e he))
      rw [hnone]
      simp only [map_cons, sum_cons, Option.elim_none]
      ring
    · subst h2
      simp only [lookupEntry, map_cons, sum_cons, if_pos, Option.elim_some]
      ring
    · simp only [lookupEntry, if_neg h2, map_cons, sum_cons]
      have := ih htl
      omega

@[simp] theorem sumBy_empty (f : K → V → ℕ) : (empty : OrdMap K V).sumBy f = 0 := rfl

theorem sumBy_remove (m : OrdMap K V) (f : K → V → ℕ) (k : K) :
    (m.remove k).sumBy f + (m.get k).elim 0 (f k) = m.sumBy f :=
  sum_removeEntry f k m.entries

theorem sumBy_insert (m : OrdMap K V) (f : K → V → ℕ) (k : K) (v : V) :
    (m.insert k v).sumBy f + (m.get k).elim 0 (f k) = m.sumBy f + f k v :=
  sum_insertEntry f k v m.sorted

theorem sumBy_of_get {k : K} {v : V} (h : m.get k = some v) (f : K → V → ℕ) :
    m.sumBy f = (m.remove k).sumBy f + f k v := by
  rw [← sumBy_remove m f k, h, Option.elim_some]

theorem sumBy_insert_of_none {k : K} (h : m.get k = none) (f : K → V → ℕ) (v : V) :
    (m.insert k v).sumBy f = m.sumBy f + f k v := by
  rw [← sumBy_insert m f k v, h, Option.elim_none, Nat.add_zero]

theorem count_values [DecidableEq V] (m : OrdMap K V) (v : V) :
    m.values.count v = m.sumBy fun _ v' => if v' = v then 1 else 0 := by
  obtain ⟨l, h⟩ := m
  show (l.map Prod.snd).count v = (l.map fun e => if e.2 = v then 1 else 0).sum
  clear h
  induction l with
  | nil => rfl
  | cons e l ih =>
    rw [map_cons, count_cons, map_cons, sum_cons, ih]
    simp only [beq_iff_eq]
    omega

theorem count_values_remove [DecidableEq V] (m : OrdMap K V) (k : K) (v : V) :
    (m.remove k).values.count v + (m.get k).toList.count v = m.values.count v := by
  rw [count_values, count_values, ← sumBy_remove m _ k]
  cases m.get k with
  | none => rfl
  | some v' => simp [count_singleton]

theorem count_values_insert [DecidableEq V] (m : OrdMap K V) (k : K) (v v' : V) :
    (m.insert k v).values.count v' + (m.get k).toList.count v' =
      m.values.count v' + [v].count v' := by
  have hinsert := sumBy_insert m (fun _ v'' => if v'' = v' then 1 else 0) k v
  rw [count_values, count_values, count_singleton]
  cases hget : m.get k with
  | none =>
    rw [hget] at hinsert
    simpa using hinsert
  | some v'' =>
    rw [hget] at hinsert
    simpa [count_singleton] using hinsert

theorem sum_scan (m : OrdMap K V) (p : K → Bool) (f : K × V → ℕ) :
    ((m.scan p).map f).sum = m.sumBy fun k v => if p k = true then f (k, v) else 0 := by
  obtain ⟨l, h⟩ := m
  show ((l.filter fun e => p e.1).map f).sum = (l.map fun e => if p e.1 = true then f e else 0).sum
  clear h
  induction l with
  | nil => rfl
  | cons e l ih =>
    rw [map_cons, sum_cons, ← ih]
    by_cases he : p e.1 = true
    · rw [filter_cons_of_pos (by simpa using he), map_cons, sum_cons, if_pos he]
    · rw [filter_cons_of_neg (by simpa using he), if_neg he, Nat.zero_add]

theorem sumBy_ofList_le (l : List (K × V)) (f : K → V → ℕ) :
    (ofList l).sumBy f ≤ (l.map fun e => f e.1 e.2).sum := by
  have hfold : ∀ m : OrdMap K V, (l.foldl (fun m e => m.insert e.1 e.2) m).sumBy f ≤
      m.sumBy f + (l.map fun e => f e.1 e.2).sum := by
    induction l with
    | nil => exact fun m => le_refl _
    | cons e l ih =>
      intro m
      have hinsert := sumBy_insert m f e.1 e.2
      have hrest := ih (m.insert e.1 e.2)
      rw [foldl_cons, map_cons, sum_cons]
      omega
  have hle := hfold empty
  rwa [show (empty : OrdMap K V).sumBy f = 0 from rfl, Nat.zero_add] at hle

theorem sumBy_congr {f g : K → V → ℕ}
    (h : ∀ k v, m.get k = some v → f k v = g k v) : m.sumBy f = m.sumBy g := by
  unfold sumBy
  congr 1
  exact map_congr_left fun e he => h e.1 e.2 (mem_entries.1 he)

theorem sumBy_eq_zero {f : K → V → ℕ}
    (h : ∀ k v, m.get k = some v → f k v = 0) : m.sumBy f = 0 := by
  rw [sumBy_congr h]
  simp [sumBy]

end OrdMap
