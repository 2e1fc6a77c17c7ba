import PicoMq.Library.OrdMap

/-!
# The SQL store of the metadata log

The statements of `MetaStore`, each one atomic. A caller may be told of a failure although the
statement took effect.
-/

namespace PicoMq.Sql

inductive StoreError where
  | sql (message : String)
  | corrupt (message : String)
deriving DecidableEq

def StoreError.display : StoreError → String
  | .sql message => s!"sql: {message}"
  | .corrupt message => s!"corrupt store: {message}"

/-- Indexes are persisted as signed words. -/
def to_i64 (value : ℕ) (what : String) : Except StoreError ℕ :=
  if value < 2 ^ 63 then .ok value else .error (.corrupt s!"{what} {value} exceeds i64")

/-- The tables of the metadata log: `meta_log` by index, and the one row of `meta_snapshot`. -/
structure MetaStore (Payload : Type) where
  meta_log : OrdMap ℕ Payload := .empty
  meta_snapshot : Option (ℕ × Payload) := none

namespace MetaStore

variable {Payload : Type}

variable (store : MetaStore Payload)

/-- The snapshot's applied index, `0` without a snapshot. -/
def covered : ℕ := (store.meta_snapshot.map Prod.fst).getD 0

/-! ## Statements -/

/-- Appends `payload` at exactly `idx`; answers whether this call won the slot. -/
def append (idx : ℕ) (payload : Payload) :
    Except StoreError (MetaStore Payload × Bool) := do
  let idx ← to_i64 idx "log idx"
  if store.covered < idx ∧ !store.meta_log.contains_key idx then
    return ({ store with meta_log := store.meta_log.insert idx payload }, true)
  else
    return (store, false)

def last_idx : ℕ :=
  max (store.meta_log.keys.max?.getD 0) store.covered

/-- The rows above `after`, ascending, at most `limit`. -/
def fetch_after (after limit : ℕ) :
    Except StoreError (List (ℕ × Payload)) := do
  let after ← to_i64 after "after idx"
  return (store.meta_log.scan fun idx => decide (after < idx)).take limit

def load_snapshot : Option (ℕ × Payload) := store.meta_snapshot

/-- The applied index of the current snapshot, without its payload. -/
def snapshot_idx : Option ℕ := store.meta_snapshot.map Prod.fst

/-- Overwrites the snapshot, unless the stored one already covers `applied_idx`. -/
def store_snapshot (applied_idx : ℕ) (payload : Payload) :
    Except StoreError (MetaStore Payload × Unit) := do
  let applied_idx ← to_i64 applied_idx "snapshot idx"
  match store.meta_snapshot with
  | none => return ({ store with meta_snapshot := some (applied_idx, payload) }, ())
  | some (stored, _) =>
    if stored < applied_idx then
      return ({ store with meta_snapshot := some (applied_idx, payload) }, ())
    else
      return (store, ())

def truncate_log (up_to : ℕ) :
    Except StoreError (MetaStore Payload × Unit) := do
  let up_to ← to_i64 up_to "truncate idx"
  return ({ store with meta_log := store.meta_log.retain fun idx => decide (up_to < idx) }, ())

end MetaStore

/-! ## Calls -/

/-- What can go wrong around a statement: it is not executed, or it is and its answer is lost. -/
inductive Fault where
  | before (message : String)
  | after (message : String)
deriving DecidableEq

def Fault.message : Fault → String
  | .before message => message
  | .after message => message

def read {T : Type} (fault : Option Fault) (answer : Except StoreError T) : Except StoreError T :=
  match fault with
  | none => answer
  | some fault => .error (.sql fault.message)

/-- The store a write leaves, what the statement did, and what the caller is told. -/
structure Call (Payload T : Type) where
  store : MetaStore Payload
  executed : Option T
  answer : Except StoreError T

/-- A call of a statement, under a fault or none. -/
def call {Payload T : Type} (fault : Option Fault) (store : MetaStore Payload)
    (statement : MetaStore Payload → Except StoreError (MetaStore Payload × T)) : Call Payload T :=
  match fault, statement store with
  | some (.before message), _ => ⟨store, none, .error (.sql message)⟩
  | _, .error error => ⟨store, none, .error error⟩
  | some (.after message), .ok (store, done) => ⟨store, some done, .error (.sql message)⟩
  | none, .ok (store, done) => ⟨store, some done, .ok done⟩

end PicoMq.Sql
