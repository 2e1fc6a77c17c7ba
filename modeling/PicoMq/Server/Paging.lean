import Mathlib.Data.List.Lex
import Mathlib.Order.Fin.Basic
import PicoMq.Library.OrdMap
import PicoMq.Topics.Topic

/-!
# Lists in pages

A list is answered in pages, each with a cursor for the next one. A page ends with its items, with
the entries that one request may look at, or with the bytes of a response. Text is its bytes here.
-/

namespace PicoMq.Server

abbrev Text := List (Fin 256)

/-- A page of a list, and the key to go on after. -/
structure Page (K T : Type) where
  items : List (K × T)
  next : Option K

def BUDGET : ℕ := 10

/-- Limits are at most 1000, so nothing saturates. -/
def fetch_count (limit : ℕ) : ℕ := limit * BUDGET + 1

namespace Page

variable {K T : Type}

def scan_loop (limit : ℕ) (keep : K → T → Bool) :
    ℕ → List (K × T) → List (K × T) → Option K → Page K T
  | 0, entries, items, last => ⟨items, entries.head?.bind fun _ => last⟩
  | rounds + 1, entries, items, last =>
    if items.length = limit then ⟨items, entries.head?.bind fun _ => last⟩
    else match entries with
      | [] => ⟨items, none⟩
      | (key, item) :: entries =>
        let items := if keep key item then items ++ [(key, item)] else items
        scan_loop limit keep rounds entries items (some key)

/-- Looks at a limited number of entries for those to list. -/
def scan (entries : List (K × T)) (limit : ℕ) (keep : K → T → Bool) : Page K T :=
  scan_loop limit keep (limit * BUDGET) entries [] none

def truncate (page : Page K T) (len : ℕ) : Page K T :=
  if page.items.length ≤ len then page
  else ⟨page.items.take len, (page.items.take len).getLast?.map Prod.fst⟩

end Page

/-! ## Requests and replies -/

def MAX_BYTES : ℕ := 2 ^ 20

/-- What a client sends to get the next page. -/
structure Cursor where
  after : Text
  filters : Option Text
deriving DecidableEq, Repr

/-- The only filter of a list is its `prefix`. -/
structure Paging where
  limit : ℕ
  after : Option Text
  filters : Option Text
deriving DecidableEq, Repr

def resume (cursor : Cursor) (filters : Option Text) : Except String Text :=
  if cursor.filters = filters then .ok cursor.after
  else .error "the cursor belongs to a different query"

def from_query (limit : ℕ) (filters : Option Text) : Option Cursor → Except String Paging
  | none => .ok ⟨limit, none, filters⟩
  | some cursor => do
    let after ← resume cursor filters
    return ⟨limit, some after, filters⟩

section Reply

variable {T : Type} (size : Text → T → ℕ)

/-- The loop of `reply`: how many items are sent, of which `bytes` bytes are there. -/
def reply_loop : ℕ → ℕ → List (Text × T) → ℕ
  | sent, _, [] => sent
  | sent, bytes, (key, item) :: items =>
    if 0 < sent ∧ MAX_BYTES < bytes + size key item then sent
    else reply_loop (sent + 1) (bytes + (if 0 < sent then 1 else 0) + size key item) items

def Paging.reply (self : Paging) (page : Page Text T) : List (Text × T) × Option Cursor :=
  let page := page.truncate (reply_loop size 0 0 page.items)
  (page.items, page.next.map fun after => ⟨after, self.filters⟩)

end Reply

/-- A client follows the cursors, for at most as many requests as it is given. -/
def follow {α : Type} (list : Paging → List α × Option Cursor) (limit : ℕ)
    (filters : Option Text) : ℕ → Option Cursor → Except String (List α)
  | 0, _ => .error "there are more pages"
  | requests + 1, cursor => do
    let paging ← from_query limit filters cursor
    let reply := list paging
    match reply.2 with
    | none => return reply.1
    | some cursor => return reply.1 ++ (← follow list limit filters requests (some cursor))

/-! ## The catalog -/

abbrev Catalog := OrdMap Text (List UInt8)

/-- The next entries of the catalog under a prefix. -/
def list_kv_page (kv : Catalog) (leading : Text) (start_after : Option Text) (limit : ℕ) :
    List (Text × List UInt8) :=
  let from_start (key : Text) : Bool := match start_after with
    | some after => if leading ≤ after then after < key else leading ≤ key
    | none => leading ≤ key
  ((kv.entries.filter fun e => from_start e.1).takeWhile fun e => leading.isPrefixOf e.1).take limit

def bytes (s : String) : Text := s.toList.map fun c => Fin.ofNat 256 c.toNat

def TOPIC_PREFIX : Text := bytes "topic/"

def topic_key (name : Text) : Text := TOPIC_PREFIX ++ name

def canonical (spelling : Text) : Text := Common.canonical 47 46 spelling

def topic_entry (e : Text × List UInt8) : Text × Option Topics.Topic :=
  (e.1.drop TOPIC_PREFIX.length, (Topics.Topic.decode e.2).toOption)

def topics_list (kv : Catalog) (now : Int64) (leading : Text) (after : Option Text) (limit : ℕ)
    (keep : Topics.Topic → Bool) : Page Text Topics.Topic :=
  let entries := (list_kv_page kv (topic_key (canonical leading)) (after.map topic_key)
    (fetch_count limit)).map topic_entry
  let page := Page.scan entries limit fun _ topic =>
    topic.any fun topic => !topic.expired now && keep topic
  ⟨page.items.filterMap fun e => e.2.map (e.1, ·), page.next⟩

def GROUP_PREFIX : Text := bytes "log/group/"

def hex_digit (n : ℕ) : Fin 256 := Fin.ofNat 256 (if n < 10 then 48 + n else 87 + n)

def hex_encode (text : Text) : Text :=
  text.flatMap fun b => [hex_digit (b.val / 16), hex_digit (b.val % 16)]

def hex_value (c : Fin 256) : Option ℕ :=
  if 48 ≤ c.val ∧ c.val ≤ 57 then some (c.val - 48)
  else if 97 ≤ c.val ∧ c.val ≤ 102 then some (c.val - 87)
  else if 65 ≤ c.val ∧ c.val ≤ 70 then some (c.val - 55)
  else none

def hex_decode : Text → Option Text
  | [] => some []
  | [_] => none
  | a :: b :: text => do
    let high ← hex_value a
    let low ← hex_value b
    return Fin.ofNat 256 (high * 16 + low) :: (← hex_decode text)

def group_key (id : Text) : Text := GROUP_PREFIX ++ hex_encode id

/-- The ids are text, so their bytes are taken as they are. -/
def group_id (key : Text) : Text := (hex_decode (key.drop GROUP_PREFIX.length)).getD []

def groups (kv : Catalog) (leading : Text) (after : Option Text) (limit : ℕ) : List Text :=
  (list_kv_page kv (group_key leading) (after.map group_key) limit).map fun e => group_id e.1

def groups_list (kv : Catalog) (leading : Text) (after : Option Text) (limit : ℕ)
    (keep : Text → Bool) : Page Text Unit :=
  Page.scan ((groups kv leading after (fetch_count limit)).map fun id => (id, ())) limit
    fun id _ => keep id

/-! ## The lists of the admin interface -/

section Lists

variable (kv : Catalog)

def list_topics (now : Int64) (keep : Topics.Topic → Bool) (size : Text → Topics.Topic → ℕ)
    (paging : Paging) : List (Text × Topics.Topic) × Option Cursor :=
  paging.reply size
    (topics_list kv now (paging.filters.getD (bytes "/")) paging.after paging.limit keep)

def list_groups (keep : Text → Bool) (size : Text → Unit → ℕ) (paging : Paging) :
    List (Text × Unit) × Option Cursor :=
  paging.reply size (groups_list kv (paging.filters.getD []) paging.after paging.limit keep)

end Lists

/-- The topics under the prefix that are kept, in the order of their keys. -/
def topics_under (kv : Catalog) (now : Int64) (leading : Text) (keep : Topics.Topic → Bool) :
    List (Text × Topics.Topic) :=
  ((kv.entries.filter fun e => (topic_key (canonical leading)).isPrefixOf e.1).map
    topic_entry).filterMap fun e =>
      (e.2.filter fun topic => !topic.expired now && keep topic).map (e.1, ·)

/-- The ids of the groups under the prefix, in the order of their keys. -/
def groups_under (ids : List Text) (leading : Text) (keep : Text → Bool) : List (Text × Unit) :=
  ((ids.filter leading.isPrefixOf).filter keep).map (·, ())

/-- The groups of a catalog. -/
def GroupIds (kv : Catalog) (ids : List Text) : Prop :=
  (kv.entries.filter fun e => GROUP_PREFIX.isPrefixOf e.1).map Prod.fst = ids.map group_key

end PicoMq.Server
