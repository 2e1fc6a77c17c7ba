import Mathlib.Data.List.Chain
import PicoMq.Common

/-!
# Scopes

What a token may do, on which names, for whom and how long; when a scope may issue another one; and
how names are translated. Streams are compared by canonical names, in which `/` and `.` are the same
and a leading `/` does not count.
-/

namespace PicoMq.Auth

abbrev Name := List Char

/-! ## Canonical names -/

def unrooted (name : Name) : Name := Common.unrooted '/' name

def separator (c : Char) : Char := if c = '/' then '.' else c

def canonical (spelling : Name) : Name := Common.canonical '/' '.' spelling

def canonical_eq (a b : Name) : Bool := canonical a = canonical b

def canonical_starts_with (spelling leading : Name) : Bool :=
  (canonical leading).isPrefixOf (canonical spelling)

/-- The two forms of a name have the same length, so the source can cut the spelling. -/
def strip_canonical_prefix (spelling leading : Name) : Option Name :=
  if (canonical leading).isPrefixOf (canonical spelling) then
    some ((unrooted spelling).drop (canonical leading).length)
  else none

/-! ## Operations -/

/-- What a request wants to do. -/
inductive Operation where
  | read
  | head
  | list
  | create
  | append
  | trim
  | close
  | delete
  | issueToken
  | revokeToken
  | listTokens
  | consume
  | describeGroup
  | deleteGroup
  | clusterRead
  | nodeRead
  | transferStream
  | updateNodeSlots
deriving DecidableEq, Repr

inductive Resource where
  | stream
  | token
  | group
deriving DecidableEq, Repr

namespace Operation

def ALL : List Operation :=
  [read, head, list, create, append, trim, close, delete, issueToken, revokeToken, listTokens,
    consume, describeGroup, deleteGroup, clusterRead, nodeRead, transferStream, updateNodeSlots]

def resource : Operation → Option Resource
  | read | head | list | create | append | trim | close | delete => some .stream
  | issueToken | revokeToken | listTokens => some .token
  | consume | describeGroup | deleteGroup => some .group
  | clusterRead | nodeRead | transferStream | updateNodeSlots => none

def writes : Operation → Bool
  | create | append | trim | close | delete | issueToken | revokeToken | deleteGroup
  | transferStream | updateNodeSlots => true
  | _ => false

def describes : Operation → Bool
  | head | describeGroup => true
  | _ => false

end Operation

structure ReadWrite where
  read : Bool := false
  write : Bool := false
deriving DecidableEq, Repr

namespace ReadWrite

/-- The operation is allowed, and on this name. -/
def allows (rw : ReadWrite) (write : Bool) : Bool := if write then rw.write else rw.read

def any (rw : ReadWrite) : Bool := rw.read || rw.write

end ReadWrite

/-- Rights on all operations of a kind; `ops` of a scope has single ones. -/
structure Access where
  stream : ReadWrite := {}
  tokens : ReadWrite := {}
  group : ReadWrite := {}
  admin : ReadWrite := {}
deriving DecidableEq, Repr

def Access.of (access : Access) : Option Resource → ReadWrite
  | some .stream => access.stream
  | some .token => access.tokens
  | some .group => access.group
  | none => access.admin

/-- Which listener or protocol a token may call. -/
inductive Audience where
  | pico
  | durableStreams
  | admin
  | kafka
deriving DecidableEq, Repr

/-! ## Names a scope covers -/

/-- A name, or all names with a prefix. -/
inductive ResourceMatcher where
  | exact (name : Name)
  /-- The empty one matches every name. -/
  | leading (name : Name)
deriving DecidableEq, Repr

namespace ResourceMatcher

def matches_name : ResourceMatcher → Name → Bool
  | exact e, name => name = e
  | leading p, name => p.isPrefixOf name

def contains_matcher : ResourceMatcher → ResourceMatcher → Bool
  | exact a, exact b => a = b
  | exact _, leading _ => false
  | leading p, exact e => p.isPrefixOf e
  | leading p, leading c => p.isPrefixOf c

def canonical : ResourceMatcher → ResourceMatcher
  | exact e => exact (Auth.canonical e)
  | leading p => leading (Auth.canonical p)

/-- The match of a stream name in `allows_stream`. -/
def matches_stream : ResourceMatcher → Name → Bool
  | exact e, name => canonical_eq e name
  | leading p, name => canonical_starts_with name p

end ResourceMatcher

/-- Set of resource matchers. Empty set matches nothing. -/
structure ResourceSet where
  matchers : List ResourceMatcher := []
deriving DecidableEq, Repr

namespace ResourceSet

def matches_name (set : ResourceSet) (name : Name) : Bool :=
  set.matchers.any fun m => m.matches_name name

def contains_set (set child : ResourceSet) : Bool :=
  if child.matchers.isEmpty then true
  else if set.matchers.isEmpty then false
  else child.matchers.all fun c => set.matchers.any fun p => p.contains_matcher c

def sole_prefix (set : ResourceSet) : Option Name :=
  match set.matchers with
  | [.leading p] => some p
  | _ => none

def canonical (set : ResourceSet) : ResourceSet := ⟨set.matchers.map ResourceMatcher.canonical⟩

end ResourceSet

/-! ## Scopes -/

/-- What the holder of a token may do. -/
structure Scope where
  streams : ResourceSet := {}
  tokens : ResourceSet := {}
  groups : ResourceSet := {}
  access : Access := {}
  ops : List Operation := []
  audiences : List Audience := []
  auto_prefix : Bool := false
  expires_at_ms : Option ℤ := none
deriving DecidableEq, Repr

inductive AuthError where
  | denied
  | narrowingRejected
  | malformed
deriving DecidableEq, Repr

namespace Scope

variable (scope : Scope)

def allows_audience (audience : Audience) : Bool :=
  scope.audiences.contains audience

def is_expired (now_ms : ℤ) : Bool :=
  scope.expires_at_ms.any fun expires => expires ≤ now_ms

/-- Some operation on such a resource is allowed. -/
def any_right_on (resource : Option Resource) : Bool :=
  (scope.access.of resource).any || scope.ops.any fun op => op.resource = resource

def allows_operation (op : Operation) : Bool :=
  scope.ops.contains op || (scope.access.of op.resource).allows op.writes ||
    op.describes && scope.any_right_on op.resource

def allows_stream (name : Name) : Bool :=
  scope.streams.matchers.any fun m => m.matches_stream name

def allows (op : Operation) (name : Option Name) : Bool :=
  scope.allows_operation op &&
    match op.resource with
    | some .stream => name.any scope.allows_stream
    | some .token => name.any scope.tokens.matches_name
    | some .group => name.any scope.groups.matches_name
    | none => true

def effective_ops : List Operation := Operation.ALL.filter scope.allows_operation

def contains_streams (child : ResourceSet) : Bool :=
  scope.streams.canonical.contains_set child.canonical

def set : Resource → ResourceSet
  | .stream => scope.streams
  | .token => scope.tokens
  | .group => scope.groups

/-! ### Issuing -/

def contains_rw (parent child : ReadWrite) : Bool :=
  (!child.read || parent.read) && (!child.write || parent.write)

def contains_access (parent child : Access) : Bool :=
  contains_rw parent.stream child.stream && contains_rw parent.tokens child.tokens &&
    contains_rw parent.group child.group && contains_rw parent.admin child.admin

def contains_expiry : Option ℤ → Option ℤ → Bool
  | none, _ => true
  | some _, none => false
  | some p, some c => c ≤ p

def prefixed : Bool :=
  scope.streams.sole_prefix.isSome && scope.groups.sole_prefix.isSome

/-- Nothing that the child allows is denied by the parent. -/
def contains (scope child : Scope) : Bool :=
  scope.contains_streams child.streams && scope.tokens.contains_set child.tokens &&
    scope.groups.contains_set child.groups && contains_access scope.access child.access &&
    (child.ops.all fun op => scope.allows_operation op) &&
    (child.audiences.all fun a => scope.allows_audience a) &&
    contains_expiry scope.expires_at_ms child.expires_at_ms &&
    (! child.auto_prefix || child.prefixed)

/-- A token is issued for a scope that is contained in that of its issuer. -/
def check_issue (issuer : Scope) (new_id : Name) (requested : Scope) : Except AuthError Unit :=
  if issuer.allows_operation .issueToken = false then .error .denied
  else if issuer.tokens.matches_name new_id = false then .error .narrowingRejected
  else if requested.auto_prefix && !requested.prefixed then .error .malformed
  else if requested.effective_ops.isEmpty then .error .malformed
  else if requested.audiences.isEmpty then .error .malformed
  else if issuer.contains requested = false then .error .narrowingRejected
  else .ok ()

/-! ### Prefixed names -/

def join (leading client : Name) : Name :=
  let name := client.dropWhile (· = '/')
  if leading.getLast? = some '/' then leading ++ name
  else if name.isEmpty then leading
  else leading ++ '/' :: name

/-- The stored name of what a client names. -/
def resolve (resource : Resource) (client_name : Name) : Except AuthError Name :=
  if scope.auto_prefix = false then .ok client_name
  else
    match ResourceSet.sole_prefix (scope.set resource) with
    | none => .error .denied
    | some leading => .ok (join leading client_name)

/-- `str::strip_prefix`. -/
def strip_spelled (name leading : Name) : Option Name :=
  if leading.isPrefixOf name then some (name.drop leading.length) else none

/-- The name that a client is shown. -/
def strip (resource : Resource) (stored_name : Name) : Name :=
  if scope.auto_prefix = false then stored_name
  else
    match ResourceSet.sole_prefix (scope.set resource) with
    | none => stored_name
    | some leading =>
      let stripped := match resource with
        | .stream => strip_canonical_prefix stored_name leading
        | .token | .group => strip_spelled stored_name leading
      stripped.getD stored_name

/-- What a client's name can add to a prefix, which supplies the separator if it is `joined`. -/
def Continues (joined : Bool) (rest : Name) : Prop :=
  if joined then rest.head? ≠ some '/'
  else rest = [] ∨ ∃ c tail, rest = '/' :: c :: tail ∧ c ≠ '/'

/-- The stored stream name is a spelling of the prefix, followed by what a client can add. -/
def StreamUnder (leading stored : Name) : Prop :=
  ∃ front rest, unrooted stored = front ++ rest ∧ front.map separator = Auth.canonical leading ∧
    Continues (leading.isEmpty || leading.getLast? = some '/') rest

/-- The stored group name is the prefix, followed by what a client can add. -/
def GroupUnder (leading stored : Name) : Prop :=
  ∃ rest, stored = leading ++ rest ∧ Continues (leading.getLast? = some '/') rest

/-! ### What a token holder can do -/

/-- The scope lets a caller of `audience` do `op` on `name` at time `now_ms`. -/
def Permits (op : Operation) (name : Option Name) (audience : Audience)
    (now_ms : ℤ) : Prop :=
  scope.allows op name = true ∧ scope.allows_audience audience = true ∧
    scope.is_expired now_ms = false

/-- The scope is accepted for a new token of a holder of `issuer`. -/
def Issues (issuer requested : Scope) : Prop := ∃ new_id, check_issue issuer new_id requested = .ok ()

/-- The same name for the operation: spelled the same, or another spelling of the same stream. -/
def SameName (op : Operation) (name name' : Option Name) : Prop :=
  name' = name ∨ op.resource = some .stream ∧ name'.map Auth.canonical = name.map Auth.canonical

end Scope

end PicoMq.Auth
