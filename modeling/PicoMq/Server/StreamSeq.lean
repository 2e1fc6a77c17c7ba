import Mathlib.Order.Lattice
import Mathlib.Order.Nat

/-!
# The stream sequence

An HTTP append may carry a value that must be greater than those of all appends before it. The owner
keeps the values in a ledger and writes it to a row, by compare and set, before it submits.
-/

namespace PicoMq.Server

variable {T : Type} [LinearOrder T]

/-- Values accepted in order, each with the offset its append started at. -/
structure Ledger (T : Type) where
  durable : Option T := none
  pending : List (T × ℕ) := []
deriving DecidableEq, Repr

namespace Ledger

def last (self : Ledger T) : Option T := (self.pending.getLast?.map Prod.fst).or self.durable

def accept (self : Ledger T) (value : T) (landed : Option ℕ) : Ledger T :=
  match landed with
  | some base_offset => { self with pending := self.pending ++ [(value, base_offset)] }
  | none => { self with durable := some value }

def confirm (self : Ledger T) (durable_end : ℕ) : Ledger T :=
  let durable := self.pending.takeWhile fun entry => entry.2 < durable_end
  { durable := (durable.getLast?.map Prod.fst).or self.durable
    pending := self.pending.dropWhile fun entry => entry.2 < durable_end }

def settle (self : Ledger T) (durable_end : ℕ) : Ledger T :=
  let retained := self.pending.filter fun entry => entry.2 < durable_end
  { self with pending := retained : Ledger T }.confirm durable_end

def raise (self : Ledger T) (floor : T) : Ledger T :=
  let durable :=
    match self.durable with
    | some durable => if durable < floor then floor else durable
    | none => floor
  { durable := some durable, pending := self.pending.filter fun entry => durable < entry.1 }

end Ledger

/-- The row of a stream: the ledger of the owner at one epoch. -/
structure Row (T : Type) where
  epoch : ℕ
  ledger : Ledger T
deriving DecidableEq, Repr

/-- The `Stream-Seq` of one stream, with the row this owner last wrote or loaded. -/
structure StreamSeq (T : Type) where
  ledger : Ledger T := {}
  written : Option (Row T) := none
deriving DecidableEq, Repr

/-- The stream is owned at this epoch. -/
structure Moved where
  epoch : ℕ
deriving DecidableEq, Repr

namespace StreamSeq

/-- What the owner at `epoch` makes of the row when it loads its producers. -/
def load (epoch durable_end : ℕ) (row : Option (Row T)) : Except Moved (Option (StreamSeq T)) :=
  match row with
  | some row =>
    if epoch < row.epoch then .error ⟨row.epoch⟩
    else .ok (some { ledger := row.ledger.settle durable_end, written := some row })
  | none => .ok none

def stream_seq_regressed (self : Option (StreamSeq T)) (seq : T) : Bool :=
  (self.bind fun stream_seq => stream_seq.ledger.last).any fun last => seq ≤ last

/-- The new state and the row to write. -/
def accept_stream_seq (self : Option (StreamSeq T)) (epoch : ℕ) (seq : T) (landed : Option ℕ) :
    StreamSeq T × Row T :=
  let stream_seq := self.getD {}
  let ledger := stream_seq.ledger.accept seq landed
  ({ stream_seq with ledger }, { epoch, ledger })

/-- Folds in a row that an earlier owner wrote, and returns the row to write instead. -/
def merge_stream_seq (self : StreamSeq T) (epoch : ℕ) (stored : Row T) (durable_end : ℕ) :
    Except Moved (StreamSeq T × Row T) :=
  if epoch ≤ stored.epoch then .error ⟨stored.epoch⟩
  else
    let theirs := stored.ledger.settle durable_end
    let ledger :=
      match theirs.last with
      | some floor => self.ledger.raise floor
      | none => self.ledger
    .ok ({ ledger, written := some stored }, { epoch, ledger })

def confirm_stream_seq (self : Option (StreamSeq T)) (durable_end : ℕ) : Option (StreamSeq T) :=
  self.map fun stream_seq => { stream_seq with ledger := stream_seq.ledger.confirm durable_end }

end StreamSeq

end PicoMq.Server
