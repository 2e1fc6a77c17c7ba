import Mathlib.Algebra.Order.Floor.Semifield
import Mathlib.Data.Finset.Max
import PicoMq.Metadata.Placement
import PicoMq.Metadata.Proofs.DerivedProofs

/-!
# Proofs: placement by load

The scan goes wrong only where rounding makes a higher ratio equal to the lowest one.
-/

namespace PicoMq.Metadata

open List MetadataState OrdMap

variable {noop : ℕ} {s : MetadataState} {n m w : ℤ} {l : List (ℤ × NodeRow)}
variable {e : ℤ × NodeRow}

/-! ## Scores -/

def node_score (s : MetadataState) (n : ℤ) : ℕ := s.streams_of_node n * 1000 / s.slots_of_node n

theorem streams_of_node_eq (s : MetadataState) (n : ℤ) :
    s.streams_of_node n = StreamTables.streams_on s.streams n := by
  rw [streams_of_node, StreamTables.streams_on, OrdMap.sumBy]
  induction s.streams.entries with
  | nil => rfl
  | cons e entries ih =>
    rw [map_cons, sum_cons, ← ih]
    by_cases hon : e.2.node_id = n ∧ (e.2.state = .opened ∨ e.2.node_id ≠ -1)
    · have hone : (if e.2.On n then 1 else 0) = 1 := if_pos hon
      rw [filter_cons_of_pos (by simpa using hon), length_cons, hone]
      omega
    · have hnone : (if e.2.On n then 1 else 0) = 0 := if_neg hon
      rw [filter_cons_of_neg (by simpa using hon), hnone]
      omega

theorem streams_by_node_eq (hs : s.Wf) (n : ℤ) :
    (s.streams_by_node.get n).getD 0 = s.streams_of_node n := by
  rw [hs.streams.loads, streams_of_node_eq]
  split_ifs with hzero
  · rw [hzero]
    rfl
  · rfl

theorem load_ratio_nonneg (s : MetadataState) (n : ℤ) : 0 ≤ s.load_ratio n * 1000 := by
  rw [load_ratio]
  positivity

theorem node_score_eq_floor (s : MetadataState) (n : ℤ) :
    node_score s n = ⌊s.load_ratio n * 1000⌋₊ := by
  have hfloor := Nat.floor_div_eq_div (K := ℚ) (s.streams_of_node n * 1000) (s.slots_of_node n)
  rw [node_score, ← hfloor, load_ratio, div_mul_eq_mul_div]
  push_cast
  rfl

theorem node_score_mono (h : s.load_ratio n ≤ s.load_ratio m) : node_score s n ≤ node_score s m := by
  rw [node_score_eq_floor, node_score_eq_floor]
  exact Nat.floor_mono (by linarith)

theorem node_score_lt_iff : node_score s n < node_score s m ↔
    ∃ k : ℕ, s.load_ratio n < (k : ℚ) / 1000 ∧ (k : ℚ) / 1000 ≤ s.load_ratio m := by
  have hbetween : ∀ k : ℕ, (s.load_ratio n < (k : ℚ) / 1000 ↔ node_score s n < k) ∧
      ((k : ℚ) / 1000 ≤ s.load_ratio m ↔ k ≤ node_score s m) := by
    intro k
    rw [node_score_eq_floor, node_score_eq_floor, Nat.floor_lt (load_ratio_nonneg s n),
      Nat.le_floor_iff (load_ratio_nonneg s m)]
    exact ⟨lt_div_iff₀ (by norm_num), div_le_iff₀ (by norm_num)⟩
  constructor
  · intro hlt
    exact ⟨node_score s m, (hbetween _).1.2 hlt, (hbetween _).2.2 le_rfl⟩
  · rintro ⟨k, hn, hm⟩
    exact ((hbetween k).1.1 hn).trans_le ((hbetween k).2.1 hm)

/-! ## The scan -/

def entry_takes (e : ℤ × NodeRow) : Prop := ¬(e.2.slots < 1 ∨ e.2.fenced = true)

def entry_score (s : MetadataState) (e : ℤ × NodeRow) : ℕ :=
  (s.streams_by_node.get e.1).getD 0 * 1000 / e.2.slots

structure Winner (s : MetadataState) (entries : List (ℤ × NodeRow)) (winner : Option (ℤ × ℕ)) :
    Prop where
  scanned : ∀ best, winner = some best → ∃ e ∈ entries, entry_takes e ∧ best = (e.1, entry_score s e)
  least : ∀ e ∈ entries, entry_takes e → ∃ best, winner = some best ∧
    (best.2 < entry_score s e ∨ best.2 = entry_score s e ∧ best.1 ≤ e.1)

theorem Winner.skip {winner : Option (ℤ × ℕ)}
    (h : Winner s l winner) (he : ¬entry_takes e) : Winner s (l ++ [e]) winner where
  scanned best hbest := by
    obtain ⟨e', he', hrest⟩ := h.scanned best hbest
    exact ⟨e', mem_append_left _ he', hrest⟩
  least e' he' htakes := by
    rcases mem_append.1 he' with hmem | hmem
    · exact h.least e' hmem htakes
    · rw [mem_singleton.1 hmem] at htakes
      exact absurd htakes he

theorem Winner.replace {winner : Option (ℤ × ℕ)} (h : Winner s l winner) (he : entry_takes e)
    (hbefore : ∀ best, winner = some best →
      entry_score s e < best.2 ∨ entry_score s e = best.2 ∧ e.1 < best.1) :
    Winner s (l ++ [e]) (some (e.1, entry_score s e)) where
  scanned best hbest := by
    cases hbest
    exact ⟨e, mem_append_right _ (mem_singleton_self e), he, rfl⟩
  least e' he' htakes := by
    refine ⟨_, rfl, ?_⟩
    dsimp only
    rcases mem_append.1 he' with hmem | hmem
    · obtain ⟨best, hbest, hle⟩ := h.least e' hmem htakes
      have hlt := hbefore best hbest
      omega
    · rw [mem_singleton.1 hmem]
      exact .inr ⟨rfl, le_rfl⟩

theorem Winner.keep {best : ℤ × ℕ} (h : Winner s l (some best))
    (hafter : ¬(entry_score s e < best.2 ∨ entry_score s e = best.2 ∧ e.1 < best.1)) :
    Winner s (l ++ [e]) (some best) where
  scanned best' hbest := by
    obtain ⟨e', he', hrest⟩ := h.scanned best' hbest
    exact ⟨e', mem_append_left _ he', hrest⟩
  least e' he' htakes := by
    rcases mem_append.1 he' with hmem | hmem
    · exact h.least e' hmem htakes
    · rw [mem_singleton.1 hmem]
      refine ⟨best, rfl, ?_⟩
      omega

theorem least_loaded_winner (s : MetadataState) :
    ∃ winner, Winner s s.nodes.entries winner ∧ least_loaded s = winner.map Prod.fst := by
  refine ⟨_, ?_, rfl⟩
  refine foldl_scanned (P := Winner s) ⟨?_, ?_⟩ ?_ s.nodes.entries
  · intro best hbest
    cases hbest
  · intro e he
    cases he
  rintro l ⟨id, node⟩ winner hwinner
  dsimp only
  by_cases htakes : node.slots < 1 ∨ node.fenced = true
  · rw [if_pos htakes]
    exact hwinner.skip (not_not.2 htakes)
  · rw [if_neg htakes]
    cases winner with
    | none => exact hwinner.replace htakes nofun
    | some best =>
      dsimp only
      by_cases hbefore : entry_score s (id, node) < best.2 ∨
          entry_score s (id, node) = best.2 ∧ id < best.1
      · refine (if_pos hbefore).symm ▸ hwinner.replace htakes fun best' hbest' => ?_
        cases hbest'
        exact hbefore
      · exact (if_neg hbefore).symm ▸ hwinner.keep hbefore

theorem node_takes_streams_iff : node_takes_streams s n = true ↔
    ∃ node, s.nodes.get n = some node ∧ entry_takes (n, node) := by
  rw [node_takes_streams]
  cases s.nodes.get n with
  | none => simp
  | some node =>
    simp only [entry_takes, Option.any_some, ge_iff_le, Bool.and_eq_true, decide_eq_true_eq,
      Bool.not_eq_eq_eq_not, Bool.not_true, Option.some.injEq, exists_eq_left', not_or, not_lt,
      Bool.not_eq_true]

theorem entry_score_eq (hs : s.Wf) {node : NodeRow} (h : s.nodes.get n = some node) :
    entry_score s (n, node) = node_score s n := by
  rw [entry_score, node_score, streams_by_node_eq hs, slots_of_node, h]
  rfl

theorem least_loaded_eq_some (hs : s.Wf) (h : least_loaded s = some w) :
    node_takes_streams s w = true ∧ ∀ n, node_takes_streams s n = true →
      node_score s w < node_score s n ∨ node_score s w = node_score s n ∧ w ≤ n := by
  obtain ⟨winner, hwinner, heq⟩ := least_loaded_winner s
  obtain ⟨best, rfl, rfl⟩ := Option.map_eq_some_iff.1 (heq.symm.trans h)
  obtain ⟨⟨id, node⟩, hmem, htakes, rfl⟩ := hwinner.scanned best rfl
  have hnode := mem_entries.1 hmem
  refine ⟨node_takes_streams_iff.2 ⟨node, hnode, htakes⟩, fun n hn => ?_⟩
  obtain ⟨node', hnode', htakes'⟩ := node_takes_streams_iff.1 hn
  obtain ⟨_, hbest, hle⟩ := hwinner.least (n, node') (mem_entries.2 hnode') htakes'
  cases hbest
  rw [← entry_score_eq hs hnode, ← entry_score_eq hs hnode']
  exact hle

/-! ## The lowest ratio -/

theorem exists_lowestRatio (h : node_takes_streams s w = true) : ∃ n, LowestRatio s n := by
  have hkeys : ∀ n, node_takes_streams s n = true → n ∈ s.nodes.keys := by
    intro n hn
    obtain ⟨node, hnode, -⟩ := node_takes_streams_iff.1 hn
    exact mem_keys_of_get hnode
  obtain ⟨n, hmem, hmin⟩ := Finset.exists_min_image
    (s.nodes.keys.toFinset.filter fun n => node_takes_streams s n = true)
    (fun n => toLex (s.load_ratio n, n)) ⟨w, by simp [hkeys w h, h]⟩
  refine ⟨n, (Finset.mem_filter.1 hmem).2, fun m hm hne => ?_⟩
  have hle := hmin m (by simp [hkeys m hm, hm])
  rcases Prod.Lex.toLex_le_toLex.1 hle with hlt | ⟨heq, hid⟩
  · exact .inl hlt
  · exact .inr ⟨heq, lt_of_le_of_ne hid hne.symm⟩

theorem lowestRatio_least_loaded (hs : s.Wf) (h : least_loaded s = some w) :
    LowestRatio s w ↔ ThousandthsApart s := by
  obtain ⟨htakes, hleast⟩ := least_loaded_eq_some hs h
  constructor
  · intro hw n m hn hm hlt
    have hnw : n = w := by
      by_contra hne
      have h1 := hw.lowest n hn.takes hne
      have h2 := hn.lowest w hw.takes (Ne.symm hne)
      grind
    subst hnw
    refine node_score_lt_iff.1 ?_
    rcases hleast m hm with hscore | ⟨-, hle⟩
    · exact hscore
    · omega
  · intro hapart
    obtain ⟨n, hn⟩ := exists_lowestRatio htakes
    by_cases heq : n = w
    · exact heq ▸ hn
    -- Otherwise the scan has preferred `w` to `n`, although its ratio is not lower.
    exfalso
    have hratio : s.load_ratio n ≤ s.load_ratio w := by
      rcases hn.lowest w htakes (Ne.symm heq) with hlt | ⟨hsame, -⟩
      · exact hlt.le
      · exact hsame.le
    have hscore := node_score_mono hratio
    have hwn : w < n := by
      have := hleast n hn.takes
      omega
    have hlt := node_score_lt_iff.2 (hapart n w hn htakes hwn)
    have := hleast n hn.takes
    omega

/-! ## Runs -/

section Runs

variable {log : List MetadataCommand} {i sid : ℕ} {p : Proposer} {row row' : StreamRow}

/-- An accepted placement without a requested node moves a stream to the node with the lowest ratio,
exactly if no rounding hides that node. -/
theorem placed_on_lowest_ratio (hacc : Accepted noop log i (.placeStream p sid none))
    (hrow : (history noop log i).streams.get sid = some row)
    (hrow' : (history noop log (i + 1)).streams.get sid = some row')
    (hmoved : row'.node_id ≠ row.node_id) :
    LowestRatio (history noop log i) row'.node_id ↔
      ThousandthsApart (history noop log i) := by
  have hs : (history noop log i).Wf := history_wf log i
  obtain ⟨r, hr⟩ := hacc.2
  rw [history_succ hacc.1, step] at hrow'
  obtain ⟨row₀, hrow₀, ⟨-, heq⟩ | ⟨-, -, winner, hwinner, heq⟩⟩ := place_stream_ok (apply_ok hr).2
  · rw [heq, hrow] at hrow'
    cases hrow'
    exact absurd rfl hmoved
  · cases hrow.symm.trans hrow₀
    obtain rfl := hs.streams.keyed sid row hrow
    have hnode : row'.node_id = winner := by
      rw [heq] at hrow'
      have hcontrol := StreamTables.control_eq_some hrow'
      rw [(put_stream_frame _).2.1, StreamTables.control_put_stream, if_pos rfl] at hcontrol
      exact (congrArg StreamRow.node_id (Option.some.inj hcontrol)).symm
    rw [hnode]
    exact lowestRatio_least_loaded hs hwinner

/-- Two nodes with `slots` and `slots'` slots, and `count` streams that are placed. -/
def placements (slots slots' count : ℕ) : List MetadataCommand :=
  [.registerNode 1 0 "a" slots .empty "wal", .registerNode 2 0 "b" slots' .empty "wal",
    .createStreams ⟨1, 0⟩ count] ++
    (range count).map fun sid => .placeStream ⟨1, 0⟩ sid none

theorem placed_on_lowest_ratio_of_two :
    (history 1000 (placements 1 4 3) 5).load_ratio 1 = 1 ∧
      (history 1000 (placements 1 4 3) 5).load_ratio 2 = 1 / 4 ∧
      LowestRatio (history 1000 (placements 1 4 3) 5) 2 := by
  have hone : (history 1000 (placements 1 4 3) 5).load_ratio 1 = 1 := by decide +kernel
  have hquarter : (history 1000 (placements 1 4 3) 5).load_ratio 2 = 1 / 4 := by decide +kernel
  have hnodes : ∀ m, node_takes_streams (history 1000 (placements 1 4 3) 5) m = true →
      m = 1 ∨ m = 2 := by
    intro m hm
    obtain ⟨node, hnode, -⟩ := node_takes_streams_iff.1 hm
    have hkeys : (history 1000 (placements 1 4 3) 5).nodes.keys = [1, 2] := by decide +kernel
    have hmem := mem_keys_of_get hnode
    rw [hkeys] at hmem
    simpa using hmem
  have hapart : ThousandthsApart (history 1000 (placements 1 4 3) 5) := by
    intro n m hn hm hlt
    obtain ⟨rfl, rfl⟩ : n = 2 ∧ m = 1 := by
      have hn' := hnodes n hn.takes
      have hm' := hnodes m hm
      omega
    rw [hone, hquarter]
    exact ⟨1000, by norm_num, by norm_num⟩
  have hacc : Accepted 1000 (placements 1 4 3) 5 (.placeStream ⟨1, 0⟩ 2 none) :=
    ⟨rfl, .id 2, by decide +kernel⟩
  have hrow : (history 1000 (placements 1 4 3) 5).streams.get 2 =
      some ⟨2, -1, 0, 0, .closed, -1, 0⟩ := by decide +kernel
  have hrow' : (history 1000 (placements 1 4 3) 6).streams.get 2 =
      some ⟨2, -1, 0, 0, .closed, 2, 0⟩ := by decide +kernel
  exact ⟨hone, hquarter, (placed_on_lowest_ratio hacc hrow hrow' (by decide)).2 hapart⟩

/-- A node with 2000 slots and one stream and one with a single slot and none score the same. -/
theorem placed_on_higher_ratio :
    Accepted 1000 (placements 2000 1 2) 4 (.placeStream ⟨1, 0⟩ 1 none) ∧
      (history 1000 (placements 2000 1 2) 5).streams.get 1 = some ⟨1, -1, 0, 0, .closed, 1, 0⟩ ∧
      node_takes_streams (history 1000 (placements 2000 1 2) 4) 2 = true ∧
      (history 1000 (placements 2000 1 2) 4).load_ratio 2 <
        (history 1000 (placements 2000 1 2) 4).load_ratio 1 := by
  refine ⟨⟨rfl, .id 1, ?_⟩, ?_, ?_, ?_⟩
  · decide +kernel
  · decide +kernel
  · decide +kernel
  · decide +kernel

end Runs

end PicoMq.Metadata
