import Mathlib.Data.Nat.Bitwise
import Mathlib.Tactic.Positivity
import Mathlib.Tactic.Ring
import Mathlib.Tactic.Zify
import PicoMq.Library.Wire

/-!
# Proofs: binary formats

The proof that a reader inverts a writer is put together from fields, as the format is. Neither a
proper prefix nor a proper extension of an encoding decodes.
-/

namespace Wire

open List Nat Reader

namespace Reader

variable {ε α β σ : Type} {r : Reader ε α} {f : α → Reader ε β} {bytes bytes' : List UInt8}
variable {a : α} {b : β}

@[simp] theorem run_fail (e : ε) : (fail e : Reader ε α).run bytes = .error e := rfl

theorem run_bind : (r >>= f).run bytes =
    match r.run bytes with
    | .error e => .error e
    | .ok (a, rest) => (f a).run rest := rfl

theorem run_take (n : ℕ) (truncated : ε) : (take n truncated).run bytes =
    if bytes.length < n then .error truncated else .ok (bytes.take n, bytes.drop n) := rfl

/-! ## Reading back what was written -/

theorem Reads.pure : Reads (pure a : Reader ε α) [] a := fun _ => rfl

section

variable (h : Reads r bytes a) {truncated : ε} {n : ℕ}
include h

theorem Reads.bind (h' : Reads (f a) bytes' b) :
    Reads (r >>= f) (bytes ++ bytes') b := by
  intro rest
  rw [append_assoc, run_bind, h]
  exact h' rest

theorem Reads.after {rest : List UInt8} {result : Except ε (β × List UInt8)}
    (hrun : (r >>= f).run (bytes ++ rest) = result) : (f a).run rest = result := by
  rwa [run_bind, h] at hrun

theorem Reads.bind_nil (h' : Reads (f a) [] b) : Reads (r >>= f) bytes b := by
  have hseq := h.bind h'
  rwa [append_nil] at hseq

theorem Reads.last {g : α → β} :
    Reads (r >>= fun a => Pure.pure (g a)) bytes (g a) := by
  intro rest
  rw [run_bind, h]
  rfl

end

theorem Reads.many_map {γ : Type} {put : γ → List UInt8} {val : γ → α} {l : List γ}
    (h : ∀ c ∈ l, Reads r (put c) (val c)) :
    Reads (many r l.length) (l.flatMap put) (l.map val) := by
  induction l with
  | nil => exact Reads.pure
  | cons c l ih =>
    have hfirst := h c (mem_cons_self ..)
    have hrest := ih fun d hd => h d (mem_cons_of_mem _ hd)
    exact hfirst.bind hrest.last

theorem Reads.many {put : α → List UInt8} {l : List α} (h : ∀ a ∈ l, Reads r (put a) a) :
    Reads (Reader.many r l.length) (l.flatMap put) l := by
  have hmap : Reads (Reader.many r l.length) (l.flatMap put) (l.map id) := Reads.many_map h
  rwa [map_id] at hmap

/-- A loop reads what its rounds read, each in the state that the rounds before it lead to. -/
theorem Reads.loop {γ : Type} {body : σ → Reader ε σ} {put : γ → List UInt8} {next : σ → γ → σ}
    {l : List γ} (h : ∀ s, ∀ c ∈ l, Reads (body s) (put c) (next s c)) (s : σ) :
    Reads (loop body l.length s) (l.flatMap put) (l.foldl next s) := by
  induction l generalizing s with
  | nil => exact Reads.pure
  | cons c l ih =>
    have hfirst := h s c (mem_cons_self ..)
    exact hfirst.bind (ih (fun s d hd => h s d (mem_cons_of_mem _ hd)) (next s c))

theorem Reads.take (h : bytes.length = n) :
    Reads (take n truncated) bytes bytes := by
  intro rest
  have hlen : ¬(bytes ++ rest).length < n := by rw [length_append]; omega
  rw [run_take, if_neg hlen, take_left' h, drop_left' h]

theorem Reads.within (h : Reads r bytes a) : Reads (within r bytes) [] a := by
  have hrun := h []
  rw [append_nil] at hrun
  rw [Reader.within, hrun]
  exact Reads.pure

/-! ## Whole messages -/

section Decode

variable {trailing : ℕ → ε} {P : α → Prop} {ε : Type}

theorem decode_eq_ok_iff : r.decode trailing bytes = .ok a ↔ r.run bytes = .ok (a, []) := by
  unfold decode
  cases hr : r.run bytes with
  | error e => simp
  | ok result =>
    obtain ⟨a', rest⟩ := result
    by_cases hrest : rest = []
    · simp [hrest]
    · simp [hrest]

theorem Reads.decode (h : Reads r bytes a) : r.decode trailing bytes = .ok a := by
  rw [decode_eq_ok_iff]
  simpa using h []

/-- A proper prefix of an encoding does not decode: the reader would leave the missing bytes. -/
theorem Reads.decode_left {missing : List UInt8} (h : Reads r (bytes ++ missing) a)
    (hne : missing ≠ []) : ∃ e, r.decode trailing bytes = .error e := by
  cases hd : r.decode trailing bytes with
  | error e => exact ⟨e, rfl⟩
  | ok a' =>
    have hrun := r.stable bytes a' [] missing (decode_eq_ok_iff.1 hd)
    have hwhole := h []
    rw [append_nil, hrun] at hwhole
    cases hwhole
    exact absurd rfl hne

/-- A proper extension of an encoding does not decode: bytes are left over. -/
theorem Reads.decode_append {more : List UInt8} (h : Reads r bytes a) (hne : more ≠ []) :
    ∃ e, r.decode trailing (bytes ++ more) = .error e := by
  refine ⟨trailing more.length, ?_⟩
  unfold Reader.decode
  rw [h more]
  simp [hne]

end Decode

/-! ## What readers yield -/

theorem Yields.bind_of {Q : β → Prop} (h : Yields r P)
    (h' : ∀ a, P a → Yields (f a) Q) : Yields (r >>= f) Q := by
  intro bytes b rest hrun
  rw [run_bind] at hrun
  cases hr : r.run bytes with
  | error e => rw [hr] at hrun; cases hrun
  | ok result =>
    rw [hr] at hrun
    exact h' result.1 (h bytes result.1 result.2 hr) result.2 b rest hrun

theorem Yields.bind {P : β → Prop} (h : ∀ a, Yields (f a) P) : Yields (r >>= f) P :=
  .bind_of (P := fun _ => True) (fun _ _ _ _ => trivial) fun a _ => h a

theorem Yields.pure (h : P a) : Yields (pure a : Reader ε α) P := by
  intro bytes b rest hrun
  cases hrun
  exact h

theorem Yields.fail (e : ε) : Yields (fail e : Reader ε α) P := by
  intro bytes b rest hrun
  cases hrun

theorem yields_take (n : ℕ) (truncated : ε) : Yields (take n truncated) fun l => l.length = n := by
  intro bytes l rest hrun
  rw [run_take] at hrun
  split_ifs at hrun with hlen
  cases hrun
  rw [length_take]
  omega

theorem Yields.many (h : Yields r P) (n : ℕ) :
    Yields (many r n) fun l => l.length = n ∧ ∀ a ∈ l, P a := by
  induction n with
  | zero => exact .pure ⟨rfl, by simp⟩
  | succ n ih =>
    refine h.bind_of fun a ha => ih.bind_of fun l hl => .pure ⟨?_, ?_⟩
    · rw [length_cons, hl.1]
    · exact forall_mem_cons.2 ⟨ha, hl.2⟩

theorem Yields.loop {body : σ → Reader ε σ} {P : ℕ → σ → Prop}
    (h : ∀ k s, P k s → Yields (body s) (P (k + 1))) {k n : ℕ} {s : σ} (h0 : P k s) :
    Yields (loop body n s) (P (k + n)) := by
  induction n generalizing k s with
  | zero => exact .pure h0
  | succ n ih =>
    refine (h k s h0).bind_of fun s' hs' => ?_
    rw [← succ_add_eq_add_succ]
    exact ih hs'

/-! ## Readers that read alike -/

section Maps

variable {γ : Type} {g : Reader ε γ} {k : γ → Reader ε α} {k' : γ → Reader ε β} {q : Reader ε β}
  {m : α → β}

theorem Maps.bind_of {P : γ → Prop} (hg : Yields g P) (h : ∀ c, P c → Maps m (k c) (k' c)) :
    Maps m (g >>= k) (g >>= k') := by
  intro bytes
  rw [run_bind, run_bind]
  cases hrun : g.run bytes with
  | error e => rfl
  | ok result => exact h result.1 (hg bytes result.1 result.2 hrun) result.2

theorem Maps.bind (h : ∀ c, Maps m (k c) (k' c)) : Maps m (g >>= k) (g >>= k') :=
  .bind_of (P := fun _ => True) (fun _ _ _ _ => trivial) fun c _ => h c

theorem Maps.within (h : Maps m r q) (bytes : List UInt8) :
    Maps m (within r bytes) (within q bytes) := by
  intro input
  rw [Reader.within, Reader.within, h]
  cases r.run bytes <;> rfl

theorem Maps.many (h : Maps m r q) (n : ℕ) : Maps (List.map m) (many r n) (many q n) := by
  induction n with
  | zero => exact fun _ => rfl
  | succ n ih =>
    intro bytes
    rw [Reader.many, Reader.many, run_bind, run_bind, h]
    cases r.run bytes with
    | error e => rfl
    | ok result =>
      change (Reader.many q n >>= _).run result.2 = Except.map _ ((Reader.many r n >>= _).run result.2)
      rw [run_bind, run_bind, ih]
      cases (Reader.many r n).run result.2 <;> rfl

end Maps

end Reader

/-! ## Words -/

@[simp] theorem length_le_bytes (width n : ℕ) : (le_bytes width n).length = width := by
  induction width generalizing n with
  | zero => rfl
  | succ width ih => rw [le_bytes, length_cons, ih]

theorem of_le_bytes_le_bytes (width n : ℕ) :
    of_le_bytes (le_bytes width n) = n % 2 ^ (8 * width) := by
  induction width generalizing n with
  | zero => simp [le_bytes, of_le_bytes, mod_one]
  | succ width ih =>
    have hpow : 2 ^ (8 * (width + 1)) = 256 * 2 ^ (8 * width) := by
      rw [Nat.mul_succ, Nat.pow_add, Nat.mul_comm]
    rw [le_bytes, of_le_bytes, ih, hpow, mod_mul]
    simp

theorem of_le_bytes_lt (bytes : List UInt8) : of_le_bytes bytes < 2 ^ (8 * bytes.length) := by
  induction bytes with
  | nil => simp [of_le_bytes]
  | cons b bytes ih =>
    have hpow : 2 ^ (8 * (bytes.length + 1)) = 256 * 2 ^ (8 * bytes.length) := by
      rw [Nat.mul_succ, Nat.pow_add, Nat.mul_comm]
    have hb : b.toNat < 256 := UInt8.toNat_lt b
    rw [of_le_bytes, length_cons, hpow]
    omega

@[simp] theorem length_be_bytes (width n : ℕ) : (be_bytes width n).length = width := by
  rw [be_bytes, length_reverse, length_le_bytes]

theorem of_be_bytes_be_bytes (width n : ℕ) :
    of_be_bytes (be_bytes width n) = n % 2 ^ (8 * width) := by
  rw [of_be_bytes, be_bytes, reverse_reverse, of_le_bytes_le_bytes]

theorem reads_be_word {width n : ℕ} (h : IsUnsigned (8 * width) n) :
    (be_word width truncated).Reads (be_bytes width n) n := by
  have hword : (be_word width truncated).Reads (be_bytes width n)
      (of_be_bytes (be_bytes width n)) := (Reader.Reads.take (length_be_bytes width n)).last
  rwa [of_be_bytes_be_bytes, mod_eq_of_lt h] at hword

theorem reads_word_mod (width n : ℕ) (truncated : ε) :
    (word width truncated).Reads (le_bytes width n) (n % 2 ^ (8 * width)) := by
  rw [← of_le_bytes_le_bytes]
  exact (Reader.Reads.take (length_le_bytes width n)).last

theorem reads_word {width n : ℕ} (h : IsUnsigned (8 * width) n) :
    (word width truncated).Reads (le_bytes width n) n := by
  have hword := reads_word_mod width n truncated
  rwa [mod_eq_of_lt h] at hword

theorem yields_word (width : ℕ) (truncated : ε) :
    (word width truncated).Yields (IsUnsigned (8 * width)) := by
  intro bytes n rest hrun
  rw [word, run_bind, run_take] at hrun
  split_ifs at hrun with hlen
  cases hrun
  have hlt := of_le_bytes_lt (bytes.take width)
  rwa [length_take, min_eq_left (by omega)] at hlt

theorem to_unsigned_lt (bits : ℕ) (x : ℤ) : to_unsigned bits x < 2 ^ (bits + 1) := by
  have hpos : (0 : ℤ) < 2 ^ (bits + 1) := by positivity
  have hlt := Int.emod_lt_of_pos x hpos
  have hnonneg := Int.emod_nonneg x hpos.ne'
  unfold to_unsigned
  zify
  rwa [Int.toNat_of_nonneg hnonneg]

theorem bmod_of_isSigned {bits : ℕ} {x : ℤ} (h : IsSigned bits x) :
    x.bmod (2 ^ (bits + 1)) = x := by
  have hpow : ((2 ^ (bits + 1) : ℕ) : ℤ) = 2 * 2 ^ bits := by push_cast; ring
  obtain ⟨hlo, hhi⟩ := h
  refine Int.bmod_eq_of_le ?_ ?_ <;> rw [hpow] <;> omega

theorem to_signed_to_unsigned {bits : ℕ} {x : ℤ} (h : IsSigned bits x) :
    to_signed bits (to_unsigned bits x) = x := by
  have hpos : (0 : ℤ) < 2 ^ (bits + 1) := by positivity
  have hcast : ((to_unsigned bits x : ℕ) : ℤ) = x % 2 ^ (bits + 1) :=
    Int.toNat_of_nonneg (Int.emod_nonneg x hpos.ne')
  have hmod : x % 2 ^ (bits + 1) = x % ((2 ^ (bits + 1) : ℕ) : ℤ) := by push_cast; rfl
  rw [to_signed, hcast, hmod, Int.emod_bmod, bmod_of_isSigned h]

theorem isSigned_to_signed (bits n : ℕ) : IsSigned bits (to_signed bits n) := by
  have hpow : 2 ^ (bits + 1) = 2 * 2 ^ bits := by rw [pow_succ, mul_comm]
  have hpos : 0 < 2 ^ (bits + 1) := Nat.two_pow_pos _
  have hlo := Int.le_bmod (x := n) hpos
  have hhi := Int.bmod_lt (x := n) hpos
  unfold IsSigned to_signed
  rw [hpow] at hlo hhi ⊢
  push_cast at hlo hhi ⊢
  omega

/-! ## Fields at fixed positions -/

section Positions

variable {buf bytes rest : List UInt8} {pos k width : ℕ}

theorem slice_append_left (h : pos + width ≤ buf.length) :
    slice (buf ++ rest) pos width = slice buf pos width := by
  rw [slice, drop_append_of_le_length (by omega),
    take_append_of_le_length (by rw [length_drop]; omega), slice]

theorem slice_append_right (h : buf.length ≤ pos) :
    slice (buf ++ rest) pos width = slice rest (pos - buf.length) width := by
  rw [slice, drop_append, drop_of_length_le h, nil_append, slice]

theorem slice_append_self (h : buf.length = width) : slice (buf ++ rest) 0 width = buf := by
  rw [slice, drop_zero, take_left' h]

theorem getElem?_slice (i : ℕ) :
    (slice buf pos width)[i]? = if i < width then buf[pos + i]? else none := by
  rw [slice, getElem?_take, getElem?_drop]

section

variable (h : pos + bytes.length ≤ buf.length)
include h

theorem getElem?_splice (i : ℕ) :
    (splice buf pos bytes)[i]? =
      if i < pos then buf[i]? else if i < pos + bytes.length then bytes[i - pos]? else buf[i]? := by
  have htake : (buf.take pos).length = pos := by rw [length_take]; omega
  rw [splice, append_assoc, getElem?_append, htake]
  by_cases hi : i < pos
  · rw [if_pos hi, if_pos hi, getElem?_take, if_pos hi]
  · rw [if_neg hi, if_neg hi, getElem?_append]
    by_cases hmid : i < pos + bytes.length
    · rw [if_pos hmid, if_pos (by omega)]
    · rw [if_neg hmid, if_neg (by omega), getElem?_drop]
      congr 1
      omega

theorem length_splice : (splice buf pos bytes).length = buf.length := by
  rw [splice, length_append, length_append, length_take, length_drop]
  omega

theorem slice_splice_self : slice (splice buf pos bytes) pos bytes.length = bytes := by
  refine ext_getElem? fun i => ?_
  rw [getElem?_slice, getElem?_splice h]
  by_cases hi : i < bytes.length
  · rw [if_pos hi, if_neg (by omega), if_pos (by omega), Nat.add_sub_cancel_left]
  · rw [if_neg hi, getElem?_eq_none (by omega)]

theorem slice_splice_of_disjoint (hdis : k + width ≤ pos ∨ pos + bytes.length ≤ k) :
    slice (splice buf pos bytes) k width = slice buf k width := by
  refine ext_getElem? fun i => ?_
  rw [getElem?_slice, getElem?_slice, getElem?_splice h]
  by_cases hi : i < width
  · rw [if_pos hi, if_pos hi]
    by_cases hbefore : k + i < pos
    · rw [if_pos hbefore]
    · rw [if_neg hbefore, if_neg (by omega)]
  · rw [if_neg hi, if_neg hi]

theorem drop_splice (hk : pos + bytes.length ≤ k) : (splice buf pos bytes).drop k = buf.drop k := by
  refine ext_getElem? fun i => ?_
  rw [getElem?_drop, getElem?_drop, getElem?_splice h, if_neg (by omega),
    if_neg (by omega)]

theorem splice_append_left : splice (buf ++ rest) pos bytes = splice buf pos bytes ++ rest := by
  rw [splice, take_append_of_le_length (by omega), drop_append_of_le_length h, splice]
  simp only [append_assoc]

end

theorem splice_append_right :
    splice (buf ++ rest) (buf.length + pos) bytes = buf ++ splice rest pos bytes := by
  rw [splice, take_length_add_append, add_assoc, drop_length_add_append, splice]
  simp only [append_assoc]

end Positions

/-! ## Sequences of items -/

section Items

variable {ε α : Type} {step : List UInt8 → Except ε (α × ℕ)} {bytes chunk rest : List UInt8}

theorem items_in_of_error {rounds : ℕ} {e : ε} (hne : bytes ≠ []) (h : step bytes = .error e) :
    items_in step (rounds + 1) bytes = .error e := by
  rw [items_in, if_neg hne, h]
  rfl

theorem items_in_of_ok {rounds n : ℕ} {a : α} (hne : bytes ≠ []) (h : step bytes = .ok (a, n)) :
    items_in step (rounds + 1) bytes = (items_in step rounds (bytes.drop n)).map (a :: ·) := by
  rw [items_in, if_neg hne, h]
  cases hrest : items_in step rounds (bytes.drop n) <;> simp [hrest, Except.map, bind, Except.bind]

theorem exists_chunks_of_items {as : List α}
    (hlen : ∀ bytes a n, step bytes = .ok (a, n) → 0 < n ∧ n ≤ bytes.length)
    (h : items step bytes = .ok as) :
    ∃ chunks : List (List UInt8), bytes = chunks.flatten ∧
      List.Forall₂ (fun a chunk => ∃ rest, step (chunk ++ rest) = .ok (a, chunk.length)) as
        chunks := by
  suffices hall : ∀ rounds bytes as, bytes.length ≤ rounds → items_in step rounds bytes = .ok as →
      ∃ chunks : List (List UInt8), bytes = chunks.flatten ∧
        List.Forall₂ (fun a chunk => ∃ rest, step (chunk ++ rest) = .ok (a, chunk.length)) as
          chunks from hall _ _ _ le_rfl h
  intro rounds
  induction rounds with
  | zero =>
    intro bytes as hrounds h
    obtain rfl : bytes = [] := eq_nil_of_length_eq_zero (by omega)
    cases h
    exact ⟨[], rfl, .nil⟩
  | succ rounds ih =>
    intro bytes as hrounds h
    by_cases hnil : bytes = []
    · subst hnil
      cases h
      exact ⟨[], rfl, .nil⟩
    · cases hstep : step bytes with
      | error e => rw [items_in_of_error hnil hstep] at h; cases h
      | ok first =>
        obtain ⟨hpos, hle⟩ := hlen _ _ _ hstep
        rw [items_in_of_ok hnil hstep] at h
        cases hrest : items_in step rounds (bytes.drop first.2) with
        | error e => rw [hrest] at h; cases h
        | ok more =>
          rw [hrest] at h
          cases h
          have hdrop : (bytes.drop first.2).length ≤ rounds := by rw [length_drop]; omega
          obtain ⟨chunks, hflat, hchunks⟩ := ih _ _ hdrop hrest
          have htake : (bytes.take first.2).length = first.2 := length_take_of_le hle
          refine ⟨bytes.take first.2 :: chunks, ?_, .cons ⟨bytes.drop first.2, ?_⟩ hchunks⟩
          · rw [flatten_cons, ← hflat, take_append_drop]
          · rw [take_append_drop, htake, hstep]

theorem exists_items_of_items {ε' β : Type} {step' : List UInt8 → Except ε' (β × ℕ)} {as : List α}
    (hstep : ∀ bytes a n, step bytes = .ok (a, n) → ∃ b, step' bytes = .ok (b, n))
    (h : items step bytes = .ok as) : ∃ bs, items step' bytes = .ok bs := by
  suffices hall : ∀ rounds bytes as, items_in step rounds bytes = .ok as →
      ∃ bs, items_in step' rounds bytes = .ok bs from hall _ _ _ h
  intro rounds
  induction rounds with
  | zero => exact fun _ _ _ => ⟨[], rfl⟩
  | succ rounds ih =>
    intro bytes as h
    by_cases hnil : bytes = []
    · exact ⟨[], by rw [items_in, if_pos hnil]⟩
    · cases hfirst : step bytes with
      | error e => rw [items_in_of_error hnil hfirst] at h; cases h
      | ok first =>
        obtain ⟨b, hb⟩ := hstep _ _ _ hfirst
        rw [items_in_of_ok hnil hfirst] at h
        obtain ⟨more, hmore⟩ : ∃ more, items_in step rounds (bytes.drop first.2) = .ok more := by
          cases hrest : items_in step rounds (bytes.drop first.2) with
          | error e => rw [hrest] at h; cases h
          | ok more => exact ⟨more, rfl⟩
        obtain ⟨bs, hbs⟩ := ih _ _ hmore
        exact ⟨b :: bs, by rw [items_in_of_ok hnil hb, hbs]; rfl⟩

variable (hpos : ∀ bytes a n, step bytes = .ok (a, n) → 0 < n)

include hpos

theorem items_in_congr {rounds rounds' : ℕ} (h : bytes.length ≤ rounds)
    (h' : bytes.length ≤ rounds') : items_in step rounds bytes = items_in step rounds' bytes := by
  induction rounds generalizing rounds' bytes with
  | zero =>
    obtain rfl : bytes = [] := eq_nil_of_length_eq_zero (by omega)
    cases rounds' <;> rfl
  | succ rounds ih =>
    by_cases hnil : bytes = []
    · subst hnil
      cases rounds' <;> rfl
    · have hlen := length_pos_iff.2 hnil
      obtain ⟨rounds', rfl⟩ : ∃ m, rounds' = m + 1 := ⟨rounds' - 1, by omega⟩
      cases hstep : step bytes with
      | error e => rw [items_in_of_error hnil hstep, items_in_of_error hnil hstep]
      | ok first =>
        have hn := hpos _ _ _ hstep
        have hdrop : (bytes.drop first.2).length < bytes.length := by
          rw [length_drop]
          omega
        have hrest : items_in step rounds (bytes.drop first.2) =
            items_in step rounds' (bytes.drop first.2) := ih (by omega) (by omega)
        rw [items_in_of_ok hnil hstep, items_in_of_ok hnil hstep, hrest]

theorem items_of_ok {a : α} (hne : bytes ≠ []) (h : step bytes = .ok (a, n)) :
    items step bytes = (items step (bytes.drop n)).map (a :: ·) := by
  have hlen := length_pos_iff.2 hne
  have hn := hpos _ _ _ h
  have hdrop : (bytes.drop n).length ≤ bytes.length - 1 := by rw [length_drop]; omega
  have hunroll : items_in step (bytes.length - 1 + 1) bytes = _ := items_in_of_ok hne h
  rw [Nat.sub_add_cancel hlen] at hunroll
  rw [items, hunroll, items_in_congr hpos hdrop le_rfl, items]

theorem items_append {a : α} (h : step (chunk ++ rest) = .ok (a, chunk.length)) :
    items step (chunk ++ rest) = (items step rest).map (a :: ·) := by
  have hchunk := hpos _ _ _ h
  have hne : chunk ++ rest ≠ [] := by
    intro hnil
    rw [append_eq_nil_iff] at hnil
    rw [hnil.1, length_nil] at hchunk
    omega
  rw [items_of_ok hpos hne h, drop_left]

end Items

/-! ## Variable-length words -/

theorem and_low (n : ℕ) : n &&& 0x7f = n % 128 := and_two_pow_sub_one_eq_mod n 7

theorem and_high (h : n < 256) : n &&& 0x80 = 0 ↔ n < 128 := by
  have hbit := and_two_pow n 7
  rw [show (2 : ℕ) ^ 7 = 0x80 from rfl] at hbit
  rw [hbit, testBit_eq_decide_div_mod_eq]
  by_cases hn : n < 128
  · rw [div_eq_of_lt hn]
    simp [hn]
  · rw [show n / 128 = 1 by omega]
    simp [hn]

theorem low_or_high (h : n < 128) : n ||| 0x80 = n + 128 := by
  have hor := two_pow_add_eq_or_of_lt (i := 7) (b := n) (by omega) 1
  rw [Nat.or_comm]
  simpa [add_comm] using hor.symm

theorem shiftLeft_split (value index : ℕ) :
    (value % 128) <<< (7 * index) ||| (value >>> 7) <<< (7 * (index + 1)) =
      value <<< (7 * index) := by
  have hsplit : value % 128 ||| (value >>> 7) <<< 7 = value := by
    have hor := two_pow_add_eq_or_of_lt (i := 7) (b := value % 128) (by omega) (value >>> 7)
    rw [Nat.or_comm, Nat.shiftLeft_eq, Nat.mul_comm, ← hor, Nat.shiftRight_eq_div_pow]
    omega
  rw [show 7 * (index + 1) = 7 + 7 * index by omega, shiftLeft_add, ← shiftLeft_or_distrib,
    hsplit]

section Varint

variable {ε : Type} {bits n rounds index acc value : ℕ} {truncated too_long : ε}

theorem run_varint_cons (b : UInt8) (rest : List UInt8) :
    (Reader.varint bits truncated too_long (n + 1) index acc).run (b :: rest) =
      (if b.toNat &&& 0x80 = 0 then
        pure (acc ||| ((b.toNat &&& 0x7f) <<< (7 * index)) % 2 ^ bits)
      else Reader.varint bits truncated too_long n (index + 1)
        (acc ||| ((b.toNat &&& 0x7f) <<< (7 * index)) % 2 ^ bits)).run rest := by
  have htake : (Reader.take 1 truncated).run (b :: rest) = .ok ([b], rest) := by
    simp [Reader.run_take]
  rw [Reader.varint, Reader.run_bind, htake]
  simp [of_le_bytes]

theorem reads_varint_last (hn : 0 < n) (hvalue : value < 128)
    (hfits : value <<< (7 * index) < 2 ^ bits) :
    (Reader.varint bits truncated too_long n index acc).Reads [UInt8.ofNat value]
      (acc ||| value <<< (7 * index)) := by
  obtain ⟨n, rfl⟩ : ∃ m, n = m + 1 := ⟨n - 1, by omega⟩
  have hbyte : (UInt8.ofNat value).toNat = value :=
    UInt8.toNat_ofNat_of_lt' (by show value < 256; omega)
  intro rest
  rw [singleton_append, run_varint_cons, hbyte, if_pos ((and_high (by omega)).2 hvalue),
    and_low, mod_eq_of_lt hvalue, mod_eq_of_lt hfits]
  rfl

theorem reads_varint_from (hn : rounds < n) (hvalue : value < 2 ^ (7 * (rounds + 1)))
    (hfits : value <<< (7 * index) < 2 ^ bits) :
    (Reader.varint bits truncated too_long n index acc).Reads (varint rounds value)
      (acc ||| value <<< (7 * index)) := by
  induction rounds generalizing n index acc value with
  | zero => exact reads_varint_last hn hvalue hfits
  | succ rounds ih =>
    rw [varint]
    by_cases hbig : 0x80 ≤ value
    · obtain ⟨n, rfl⟩ : ∃ m, n = m + 1 := ⟨n - 1, by omega⟩
      rw [if_pos hbig, and_low, low_or_high (mod_lt _ (by omega))]
      have hbyte : (UInt8.ofNat (value % 128 + 128)).toNat = value % 128 + 128 :=
        UInt8.toNat_ofNat_of_lt' (by show value % 128 + 128 < 256; omega)
      have hhigh : ¬value % 128 + 128 &&& 0x80 = 0 := by
        rw [and_high (by omega)]
        omega
      -- both parts of the number stay in the word, since the whole number does
      have hsplit := shiftLeft_split value index
      have hlow : (value % 128) <<< (7 * index) < 2 ^ bits :=
        lt_of_le_of_lt (by rw [← hsplit]; exact left_le_or) hfits
      have hrest : (value >>> 7) <<< (7 * (index + 1)) < 2 ^ bits :=
        lt_of_le_of_lt (by rw [← hsplit]; exact right_le_or) hfits
      have hshift : value >>> 7 < 2 ^ (7 * (rounds + 1)) := by
        rw [show 7 * (rounds + 1 + 1) = 7 * (rounds + 1) + 7 by omega, pow_add] at hvalue
        rw [shiftRight_eq_div_pow]
        exact Nat.div_lt_of_lt_mul (by rwa [Nat.mul_comm])
      intro rest
      have hread : (Reader.varint bits truncated too_long n (index + 1)
          (acc ||| (value % 128) <<< (7 * index))).run (varint rounds (value >>> 7) ++ rest) =
          .ok (_, rest) := ih (by omega) hshift hrest rest
      rw [Nat.or_assoc, hsplit] at hread
      rw [cons_append, run_varint_cons, hbyte, if_neg hhigh, and_low, add_mod_right,
        mod_mod, mod_eq_of_lt hlow]
      exact hread
    · rw [if_neg hbig]
      exact reads_varint_last (by omega) (by omega) hfits

theorem reads_varint (hn : rounds < n) (hvalue : value < 2 ^ (7 * (rounds + 1)))
    (hbits : value < 2 ^ bits) :
    (Reader.varint bits truncated too_long n 0 0).Reads (varint rounds value) value := by
  have hread : (Reader.varint bits truncated too_long n 0 0).Reads (varint rounds value)
      (0 ||| value <<< (7 * 0)) := reads_varint_from hn hvalue (by simpa using hbits)
  simpa using hread

theorem varint_eq_of_lt {rounds' : ℕ} (hle : rounds ≤ rounds')
    (hvalue : value < 2 ^ (7 * (rounds + 1))) : varint rounds' value = varint rounds value := by
  induction rounds generalizing rounds' value with
  | zero =>
    cases rounds' with
    | zero => rfl
    | succ rounds' =>
      have hsmall : ¬0x80 ≤ value := by omega
      simp only [varint, if_neg hsmall]
  | succ rounds ih =>
    obtain ⟨rounds', rfl⟩ : ∃ m, rounds' = m + 1 := ⟨rounds' - 1, by omega⟩
    rw [show 7 * (rounds + 1 + 1) = 7 * (rounds + 1) + 7 by omega, pow_add] at hvalue
    have hshift : value >>> 7 < 2 ^ (7 * (rounds + 1)) := by
      rw [shiftRight_eq_div_pow]
      exact Nat.div_lt_of_lt_mul (by rwa [Nat.mul_comm])
    rw [varint, varint, ih (by omega) hshift]

theorem length_varint_pos (rounds value : ℕ) : 0 < (varint rounds value).length := by
  cases rounds with
  | zero => simp [varint]
  | succ rounds =>
    rw [varint]
    split_ifs <;> simp

end Varint

/-! ## Zigzag -/

theorem getLsbD_neg_and_one {w i : ℕ} (hi : i < w) (raw : BitVec w) :
    (-(raw &&& 1)).getLsbD i = raw.getLsbD 0 := by
  have hbit : raw &&& 1 = if raw.getLsbD 0 then 1#w else 0#w := by
    refine BitVec.eq_of_getLsbD_eq fun j hj => ?_
    cases h : raw.getLsbD 0 with
    | false => rcases j with _ | j <;> simp [h]
    | true => rcases j with _ | j <;> simp [h]
  rw [hbit]
  cases raw.getLsbD 0 with
  | false => simp
  | true => simp [BitVec.neg_one_eq_allOnes, hi]

theorem getLsbD_zigzag {w i : ℕ} (hi : i < w) (x : BitVec w) :
    (zigzag x).getLsbD i = ((!decide (i < 1) && x.getLsbD (i - 1)) ^^ x.msb) := by
  have hsign : (x.sshiftRight (w - 1)).getLsbD i = x.msb := by
    rw [BitVec.getLsbD_sshiftRight]
    rcases i with _ | i
    · rw [if_pos (by omega), add_zero, ← BitVec.msb_eq_getLsbD_last]
      simp [hi.ne']
    · rw [if_neg (by omega)]
      simp [hi]
  rw [zigzag, BitVec.getLsbD_xor, hsign, BitVec.getLsbD_shiftLeft]
  simp [hi]

@[simp] theorem unzigzag_zigzag {w : ℕ} (x : BitVec w) : unzigzag (zigzag x) = x := by
  refine BitVec.eq_of_getLsbD_eq fun i hi => ?_
  rw [unzigzag, BitVec.getLsbD_xor, getLsbD_neg_and_one hi, getLsbD_zigzag (by omega),
    BitVec.getLsbD_ushiftRight]
  by_cases hlast : 1 + i < w
  · rw [getLsbD_zigzag hlast]
    simp
  · -- the shift brings in a zero, which the sign turns into the highest bit
    have hmsb : x.msb = x.getLsbD i := by
      rw [BitVec.msb_eq_getLsbD_last, show w - 1 = i by omega]
    simp [BitVec.getLsbD_of_ge _ _ (by omega : w ≤ 1 + i), hmsb]

theorem toInt_unzigzag {bits : ℕ} {x : ℤ} (h : IsSigned bits x) :
    (unzigzag (BitVec.ofNat (bits + 1) (zigzag (BitVec.ofInt (bits + 1) x)).toNat)).toInt = x := by
  rw [BitVec.ofNat_toNat, BitVec.setWidth_eq, unzigzag_zigzag, BitVec.toInt_ofInt,
    bmod_of_isSigned h]

/-! ## Text -/

@[simp] theorem length_utf8 (s : String) : (utf8 s).length = s.utf8ByteSize := by
  rw [utf8, Array.length_toList]
  rfl

@[simp] theorem of_utf8_utf8 (s : String) : of_utf8 (utf8 s) = some s := by
  have hbytes : (⟨(utf8 s).toArray⟩ : ByteArray) = s.toUTF8 := by
    unfold utf8
    simp
  rw [of_utf8, hbytes, String.fromUTF8?, dif_pos (show s.toUTF8.IsValidUTF8 from s.isValidUTF8)]
  rfl

theorem length_of_of_utf8 {bytes : List UInt8} {s : String} (h : of_utf8 bytes = some s) :
    s.utf8ByteSize = bytes.length := by
  unfold of_utf8 String.fromUTF8? at h
  split_ifs at h
  cases h
  exact size_toArray

end Wire
