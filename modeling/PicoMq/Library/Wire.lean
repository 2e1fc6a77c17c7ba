import Mathlib.Algebra.Order.Ring.Int

/-!
# Binary formats

Readers that consume bytes from the front of their input, and the encodings of machine words and of
text.
-/

namespace Wire

/-! ## Readers -/

/-- Consumes some bytes and yields a value and the bytes that are left, or fails. -/
structure Reader (ε α : Type) where
  run : List UInt8 → Except ε (α × List UInt8)
  stable : ∀ bytes a rest more, run bytes = .ok (a, rest) →
    run (bytes ++ more) = .ok (a, rest ++ more)

namespace Reader

variable {ε α β σ : Type}

def fail (e : ε) : Reader ε α where
  run _ := .error e
  stable _ _ _ _ h := by cases h

instance : Monad (Reader ε) where
  pure a := ⟨fun bytes => .ok (a, bytes), fun _ _ _ _ h => by cases h; rfl⟩
  bind r f :=
    { run := fun bytes =>
        match r.run bytes with
        | .error e => .error e
        | .ok (a, rest) => (f a).run rest
      stable := fun bytes b rest more h => by
        cases hr : r.run bytes with
        | error e => rw [hr] at h; cases h
        | ok result =>
          rw [hr] at h
          rw [r.stable bytes result.1 result.2 more hr]
          exact (f result.1).stable result.2 b rest more h }

def take (n : ℕ) (truncated : ε) : Reader ε (List UInt8) where
  run bytes := if bytes.length < n then .error truncated else .ok (bytes.take n, bytes.drop n)
  stable bytes a rest more h := by
    split_ifs at h with hlen
    cases h
    rw [if_neg (by rw [List.length_append]; omega), List.take_append_of_le_length (by omega),
      List.drop_append_of_le_length (by omega)]

def many (r : Reader ε α) : ℕ → Reader ε (List α)
  | 0 => pure []
  | n + 1 => do
    let a ← r
    let as ← many r n
    pure (a :: as)

/-- A loop of `n` rounds that reads in every round and carries a state along. -/
def loop (body : σ → Reader ε σ) : ℕ → σ → Reader ε σ
  | 0, s => pure s
  | n + 1, s => do
    let s ← body s
    loop body n s

/-- Reads a value from bytes that were cut out before; what it leaves of them is dropped. -/
def within (r : Reader ε α) (bytes : List UInt8) : Reader ε α :=
  match r.run bytes with
  | .error e => fail e
  | .ok (a, _) => pure a

/-- Reads a whole message: bytes that are left over are an error. -/
def decode (r : Reader ε α) (trailing : ℕ → ε) (bytes : List UInt8) : Except ε α :=
  match r.run bytes with
  | .error e => .error e
  | .ok (a, rest) => if rest = [] then .ok a else .error (trailing rest.length)

/-- The reader takes exactly `bytes` off any input that starts with them, and yields `a`. -/
def Reads (r : Reader ε α) (bytes : List UInt8) (a : α) : Prop :=
  ∀ rest, r.run (bytes ++ rest) = .ok (a, rest)

/-- Whatever the reader yields satisfies `P`. -/
def Yields (r : Reader ε α) (P : α → Prop) : Prop :=
  ∀ bytes a rest, r.run bytes = .ok (a, rest) → P a

/-- The second reader reads what the first one reads, and yields its value under `f`. -/
def Maps (f : α → β) (r : Reader ε α) (q : Reader ε β) : Prop :=
  ∀ bytes, q.run bytes = (r.run bytes).map (Prod.map f id)

end Reader

/-! ## Words -/

/-- The low `width` bytes of a number, the lowest first. -/
def le_bytes : ℕ → ℕ → List UInt8
  | 0, _ => []
  | width + 1, n => UInt8.ofNat n :: le_bytes width (n / 256)

def of_le_bytes : List UInt8 → ℕ
  | [] => 0
  | b :: bytes => b.toNat + 256 * of_le_bytes bytes

/-- The low `width` bytes of a number, the highest first. -/
def be_bytes (width n : ℕ) : List UInt8 := (le_bytes width n).reverse

def of_be_bytes (bytes : List UInt8) : ℕ := of_le_bytes bytes.reverse

/-- The number is an unsigned word of so many bits. -/
def IsUnsigned (bits n : ℕ) : Prop := n < 2 ^ bits

/-- The number is a signed word of `bits + 1` bits. -/
def IsSigned (bits : ℕ) (x : ℤ) : Prop := -2 ^ bits ≤ x ∧ x < 2 ^ bits

instance (bits n : ℕ) : Decidable (IsUnsigned bits n) := inferInstanceAs (Decidable (_ < _))

instance (bits : ℕ) (x : ℤ) : Decidable (IsSigned bits x) := inferInstanceAs (Decidable (_ ∧ _))

/-- A signed word of `bits + 1` bits as an unsigned one. -/
def to_unsigned (bits : ℕ) (x : ℤ) : ℕ := (x % 2 ^ (bits + 1)).toNat

def to_signed (bits n : ℕ) : ℤ := (n : ℤ).bmod (2 ^ (bits + 1))

/-- A word of `width` bytes, the lowest byte first. -/
def Reader.word {ε : Type} (width : ℕ) (truncated : ε) : Reader ε ℕ := do
  let bytes ← Reader.take width truncated
  pure (of_le_bytes bytes)

/-- A word of `width` bytes, the highest byte first. -/
def Reader.be_word {ε : Type} (width : ℕ) (truncated : ε) : Reader ε ℕ := do
  let bytes ← Reader.take width truncated
  pure (of_be_bytes bytes)

/-! ## Fields at fixed positions -/

def slice (buf : List UInt8) (pos width : ℕ) : List UInt8 := (buf.drop pos).take width

/-- The buffer with `bytes` written over what stands from `pos` on. -/
def splice (buf : List UInt8) (pos : ℕ) (bytes : List UInt8) : List UInt8 :=
  buf.take pos ++ bytes ++ buf.drop (pos + bytes.length)

/-! ## Sequences of items

The items follow each other and each says itself how long it is. -/

section Items

variable {ε α : Type}

/-- At most `rounds` items; `step` reads the first one of its input and returns its length. -/
def items_in (step : List UInt8 → Except ε (α × ℕ)) : ℕ → List UInt8 → Except ε (List α)
  | 0, _ => .ok []
  | rounds + 1, bytes =>
    if bytes = [] then .ok []
    else do
      let (a, len) ← step bytes
      let as ← items_in step rounds (bytes.drop len)
      .ok (a :: as)

/-- The items of the whole input. None is empty, so there are no more of them than bytes. -/
def items (step : List UInt8 → Except ε (α × ℕ)) (bytes : List UInt8) : Except ε (List α) :=
  items_in step bytes.length bytes

end Items

/-! ## Variable-length words

Seven bits a byte, the lowest first; every byte but the last has its high bit set. -/

/-- The varint of a number that has no more than `7 * (rounds + 1)` bits. -/
def varint : ℕ → ℕ → List UInt8
  | 0, value => [UInt8.ofNat value]
  | rounds + 1, value =>
    if 0x80 ≤ value then UInt8.ofNat (value &&& 0x7f ||| 0x80) :: varint rounds (value >>> 7)
    else [UInt8.ofNat value]

/-- Reads a varint in at most `rounds` bytes; what is shifted out of `bits` bits is lost. -/
def Reader.varint {ε : Type} (bits : ℕ) (truncated too_long : ε) : ℕ → ℕ → ℕ → Reader ε ℕ
  | 0, _, _ => .fail too_long
  | rounds + 1, index, value => do
    let byte ← Reader.take 1 truncated
    let byte := of_le_bytes byte
    let value := value ||| ((byte &&& 0x7f) <<< (7 * index)) % 2 ^ bits
    if byte &&& 0x80 = 0 then pure value
    else Reader.varint bits truncated too_long rounds (index + 1) value

/-- Numbers of small magnitude get small codes: the sign goes into the lowest bit. -/
def zigzag {w : ℕ} (x : BitVec w) : BitVec w := (x <<< 1) ^^^ x.sshiftRight (w - 1)

def unzigzag {w : ℕ} (raw : BitVec w) : BitVec w := (raw >>> 1) ^^^ -(raw &&& 1)

/-! ## Text -/

def utf8 (s : String) : List UInt8 := s.toUTF8.data.toList

def of_utf8 (bytes : List UInt8) : Option String := String.fromUTF8? ⟨bytes.toArray⟩

end Wire
