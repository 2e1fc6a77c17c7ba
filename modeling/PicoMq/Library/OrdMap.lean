import Mathlib.Algebra.GroupWithZero.Nat
import Mathlib.Order.Lattice

/-!
# Ordered maps

A finite map kept as the list of its entries in strictly increasing key order, so two maps with the
same lookups are equal and iteration order is key order.
-/

/-- A finite map from `K` to `V`, iterated in key order. -/
structure OrdMap (K : Type*) (V : Type*) [LinearOrder K] where
  /-- The entries, in key order. -/
  entries : List (K × V)
  /-- Every key occurs once, and before every greater key. -/
  sorted : entries.Pairwise fun a b => a.1 < b.1

namespace OrdMap

variable {K V W : Type*} [LinearOrder K]

/-! ## Operations on sorted entry lists -/

def lookupEntry (k : K) : List (K × V) → Option V
  | [] => none
  | (k', v) :: l => if k = k' then some v else lookupEntry k l

/-- Insertion in key order, replacing the entry of an equal key. -/
def insertEntry (k : K) (v : V) : List (K × V) → List (K × V)
  | [] => [(k, v)]
  | (k', v') :: l =>
    if k < k' then (k, v) :: (k', v') :: l
    else if k = k' then (k, v) :: l
    else (k', v') :: insertEntry k v l

def removeEntry (k : K) : List (K × V) → List (K × V)
  | [] => []
  | (k', v) :: l => if k = k' then l else (k', v) :: removeEntry k l

theorem mem_insertEntry {k : K} {v : V} {e : K × V} {l : List (K × V)} :
    e ∈ insertEntry k v l → e = (k, v) ∨ e ∈ l := by
  induction l with
  | nil => simp [insertEntry]
  | cons hd tl ih =>
    obtain ⟨k', v'⟩ := hd
    simp only [insertEntry]
    split_ifs <;> grind

theorem removeEntry_sublist (k : K) (l : List (K × V)) : (removeEntry k l).Sublist l := by
  induction l with
  | nil => exact List.Sublist.refl _
  | cons hd tl ih =>
    obtain ⟨k', v'⟩ := hd
    simp only [removeEntry]
    split_ifs
    · exact List.sublist_cons_self _ _
    · exact ih.cons_cons _

theorem insertEntry_sorted {k : K} {v : V} {l : List (K × V)}
    (h : l.Pairwise fun a b => a.1 < b.1) :
    (insertEntry k v l).Pairwise fun a b => a.1 < b.1 := by
  induction l with
  | nil => simp [insertEntry]
  | cons hd tl ih =>
    obtain ⟨k', v'⟩ := hd
    obtain ⟨hhd, htl⟩ := List.pairwise_cons.1 h
    simp only [insertEntry]
    split_ifs with h1 h2
    · refine List.pairwise_cons.2 ⟨fun e he => ?_, h⟩
      rcases List.mem_cons.1 he with rfl | he
      · exact h1
      · exact lt_trans h1 (hhd e he)
    · subst h2
      exact List.pairwise_cons.2 ⟨hhd, htl⟩
    · refine List.pairwise_cons.2 ⟨fun e he => ?_, ih htl⟩
      rcases mem_insertEntry he with rfl | he
      · exact lt_of_le_of_ne (not_lt.1 h1) (Ne.symm h2)
      · exact hhd e he

/-! ## The map operations -/

instance [DecidableEq V] : DecidableEq (OrdMap K V) := fun a b =>
  decidable_of_iff (a.entries = b.entries)
    ⟨fun h => by cases a; cases b; cases h; rfl, fun h => h ▸ rfl⟩

def empty : OrdMap K V := ⟨[], List.Pairwise.nil⟩

instance : Inhabited (OrdMap K V) := ⟨empty⟩

variable (m : OrdMap K V)

def get (k : K) : Option V := lookupEntry k m.entries

def contains_key (k : K) : Bool := (m.get k).isSome

/-- Puts `v` under `k`, replacing what was there. -/
def insert (k : K) (v : V) : OrdMap K V :=
  ⟨insertEntry k v m.entries, insertEntry_sorted m.sorted⟩

def remove (k : K) : OrdMap K V :=
  ⟨removeEntry k m.entries, m.sorted.sublist (removeEntry_sublist k m.entries)⟩

def retain (p : K → Bool) : OrdMap K V :=
  ⟨m.entries.filter fun e => p e.1, m.sorted.sublist List.filter_sublist⟩

/-- The values changed by `f`, under the same keys. -/
def map (f : V → W) : OrdMap K W :=
  ⟨m.entries.map fun e => (e.1, f e.2), m.sorted.map _ fun _ _ h => h⟩

/-- The values changed by `f`, which also sees the key. -/
def map_with_key (f : K → V → W) : OrdMap K W :=
  ⟨m.entries.map fun e => (e.1, f e.1 e.2), m.sorted.map _ fun _ _ h => h⟩

def is_empty : Bool := m.entries.isEmpty

def len : ℕ := m.entries.length

def keys : List K := m.entries.map Prod.fst

def values : List V := m.entries.map Prod.snd

/-- The entries whose key satisfies `p`, in key order: a scan over a range of keys. -/
def scan (p : K → Bool) : List (K × V) := m.entries.filter fun e => p e.1

/-- The map obtained by inserting the pairs of `l` in order. -/
def ofList (l : List (K × V)) : OrdMap K V := l.foldl (fun m e => m.insert e.1 e.2) empty

/-- How often each key occurs in `l`; a key that does not occur has no entry. -/
def tally (l : List K) : OrdMap K ℕ :=
  l.foldl (fun m k => m.insert k ((m.get k).getD 0 + 1)) empty

/-- The sum of `f` over the entries. -/
def sumBy (f : K → V → ℕ) : ℕ := (m.entries.map fun e => f e.1 e.2).sum

end OrdMap
