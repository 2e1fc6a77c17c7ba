import PicoMq.Metadata.Engine
import PicoMq.Sql.Store

/-!
# The maintenance lease

One row of the SQL store, changed by conditional updates. Callers bring their own clocks.
-/

namespace PicoMq.Sql

open Metadata (wrapI64)

/-- The row of `meta_lease`, seeded without a holder. -/
structure LeaseRow where
  holder : String := ""
  epoch : ℕ := 0
  expires_at_ms : ℤ := 0
deriving DecidableEq

/-- Renews the lease of `prev_epoch`, or takes it if it has expired or is the holder's own. -/
def acquire_lease (row : LeaseRow) (holder : String) (prev_epoch : Option ℕ) (now_ms ttl_ms : ℤ) :
    Except StoreError (LeaseRow × Option ℕ) :=
  match prev_epoch with
  | some epoch => do
    let epoch_i ← to_i64 epoch "lease epoch"
    if row.holder = holder ∧ row.epoch = epoch_i ∧ now_ms ≤ row.expires_at_ms then
      return ({ row with expires_at_ms := wrapI64 (now_ms + ttl_ms) }, some epoch)
    else return (row, none)
  | none =>
    if row.expires_at_ms < now_ms ∨ row.holder = holder then
      return (⟨holder, row.epoch + 1, wrapI64 (now_ms + ttl_ms)⟩, some (row.epoch + 1))
    else return (row, none)

/-- Expires the lease if the holder still owns it at this epoch. -/
def release_lease (row : LeaseRow) (holder : String) (epoch : ℕ) : Except StoreError LeaseRow := do
  let epoch ← to_i64 epoch "lease epoch"
  if row.holder = holder ∧ row.epoch = epoch then return { row with expires_at_ms := 0 }
  else return row

/-! ## Runs -/

inductive LeaseCall where
  | acquire (holder : String) (prev_epoch : Option ℕ) (now_ms ttl_ms : ℤ)
  | release (holder : String) (epoch : ℕ)
deriving DecidableEq

def LeaseCall.named_epoch : LeaseCall → Option ℕ
  | .acquire _ prev_epoch _ _ => prev_epoch
  | .release _ epoch => some epoch

structure Grant where
  holder : String
  epoch : ℕ
  /-- The expiries promised under the grant, the latest first. -/
  promised : List ℤ
  released : Bool
deriving DecidableEq

/-- The row, and beside it what the source does not keep: the grants so far, the latest first. -/
structure Lease where
  row : LeaseRow := {}
  grants : List Grant := []
deriving DecidableEq

namespace Lease

def promise (grants : List Grant) (expiry : ℤ) : List Grant :=
  grants.modifyHead fun grant => { grant with promised := expiry :: grant.promised }

def step (s : Lease) : LeaseCall → Lease
  | .acquire holder prev_epoch now_ms ttl_ms =>
    match acquire_lease s.row holder prev_epoch now_ms ttl_ms with
    | .ok (row, some epoch) =>
      match prev_epoch with
      | some _ => { row, grants := promise s.grants row.expires_at_ms }
      | none => { row, grants := ⟨holder, epoch, [row.expires_at_ms], false⟩ :: s.grants }
    | _ => s
  | .release holder epoch =>
    match release_lease s.row holder epoch with
    | .ok row =>
      if s.row.holder = holder ∧ s.row.epoch = epoch then
        { row, grants := s.grants.modifyHead fun grant => { grant with released := true } }
      else { s with row }
    | .error _ => s

def Grants (s : Lease) : LeaseCall → ℕ → Prop
  | .acquire holder prev_epoch now_ms ttl_ms, epoch =>
    ∃ row, acquire_lease s.row holder prev_epoch now_ms ttl_ms = .ok (row, some epoch)
  | .release .., _ => False

/-- What the lease is for, of one call. -/
structure Safe (s : Lease) (c : LeaseCall) : Prop where
  increasing : ∀ epoch, c.named_epoch = none → s.Grants c epoch → ∀ g ∈ s.grants, g.epoch < epoch
  renews : ∀ holder epoch now_ms ttl_ms epoch', c = .acquire holder (some epoch) now_ms ttl_ms →
    s.Grants c epoch' → epoch' = epoch ∧ ∃ g rest, s.grants = g :: rest ∧ g.holder = holder ∧
      g.epoch = epoch ∧ g.released = false ∧ ∃ expiry, g.promised.head? = some expiry ∧
        now_ms ≤ expiry
  stale : ∀ g rest epoch, s.grants = g :: rest → c.named_epoch = some epoch → epoch < g.epoch →
    s.step c = s
  takeover : ∀ holder now_ms ttl_ms epoch g rest, c = .acquire holder none now_ms ttl_ms →
    s.Grants c epoch → s.grants = g :: rest → g.holder ≠ holder →
      g.released = true ∨ ∀ expiry ∈ g.promised, expiry < now_ms

/-- A renewal reads a positive clock, and the owner's does not bring the expiry forward. -/
def Prolongs (s : Lease) : LeaseCall → Prop
  | .acquire holder (some epoch) now_ms ttl_ms => 0 < now_ms ∧
    (s.row.holder = holder → s.row.epoch = epoch →
      s.row.expires_at_ms ≤ wrapI64 (now_ms + ttl_ms))
  | _ => True

instance (s : Lease) : (c : LeaseCall) → Decidable (s.Prolongs c)
  | .acquire _ (some _) _ _ => inferInstanceAs (Decidable (_ ∧ (_ → _ → _)))
  | .acquire _ none _ _ | .release .. => .isTrue trivial

end Lease

end PicoMq.Sql
