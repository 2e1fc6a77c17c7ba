import PicoMq.Library.Proofs.SortedProofs
import PicoMq.Server.Paging

/-!
# Proofs: lists in pages

Whatever ends a page, its items are those of a first part of the entries, and its cursor is the last
entry of that part.
-/

namespace PicoMq.Server

open List

variable {K T U : Type}

/-! ## One page -/

/-- The page has the items of a first part of the entries, and goes on after the last of them. -/
def Covers (item : K × T → Option (K × U)) (entries : List (K × T)) (page : Page K U) : Prop :=
  ∃ done rest, entries = done ++ rest ∧ page.items = done.filterMap item ∧
    (page.next = none ∧ rest = [] ∨ ∃ last, done.getLast? = some last ∧ page.next = some last.1)

section Scan

variable {keep : K → T → Bool} {entries items : List (K × T)} {last : Option K} {limit : ℕ}

/-- What a scan does that has found `items` and seen `last`. -/
def ScansOn (keep : K → T → Bool) (entries items : List (K × T)) (last : Option K)
    (page : Page K T) : Prop :=
  ∃ done rest, entries = done ++ rest ∧ page.items = items ++ done.filter (fun e => keep e.1 e.2) ∧
    (page.next = none ∧ rest = [] ∨
      ∃ key, page.next = some key ∧ (done.getLast?.map Prod.fst).or last = some key)

theorem scansOn_stop (n : ℕ) (hlast : last.isSome) :
    ScansOn keep entries items last ⟨items, (entries.take (n + 1)).head?.bind fun _ => last⟩ := by
  obtain ⟨key, rfl⟩ := Option.isSome_iff_exists.1 hlast
  refine ⟨[], entries, rfl, by simp, ?_⟩
  cases entries with
  | nil => exact .inl ⟨rfl, rfl⟩
  | cons e entries => exact .inr ⟨key, rfl, rfl⟩

theorem ScansOn.cons {page : Page K T} (e : K × T)
    (h : ScansOn keep entries (if keep e.1 e.2 then items ++ [e] else items) (some e.1) page) :
    ScansOn keep (e :: entries) items last page := by
  obtain ⟨done, rest, heq, hitems, hnext⟩ := h
  refine ⟨e :: done, rest, by rw [heq]; rfl, ?_, hnext.imp_right ?_⟩
  · rw [hitems, filter_cons]
    split_ifs <;> simp
  · rintro ⟨key, hkey, hlast⟩
    refine ⟨key, hkey, ?_⟩
    cases done with
    | nil => exact hlast
    | cons a done =>
      rw [getLast?_cons_cons]
      cases h : (a :: done).getLast? with
      | none => simp at h
      | some b =>
        rw [h] at hlast
        exact hlast

theorem scan_loop_scansOn {rounds : ℕ} (hlast : rounds = 0 ∨ items.length = limit → last.isSome) :
    ScansOn keep entries items last
      (Page.scan_loop limit keep rounds (entries.take (rounds + 1)) items last) := by
  induction rounds generalizing entries items last with
  | zero => exact scansOn_stop 0 (hlast (.inl rfl))
  | succ rounds ih =>
    unfold Page.scan_loop
    by_cases hfull : items.length = limit
    · rw [if_pos hfull]
      exact scansOn_stop (rounds + 1) (hlast (.inr hfull))
    rw [if_neg hfull]
    cases entries with
    | nil => exact ⟨[], [], rfl, by simp, .inl ⟨rfl, rfl⟩⟩
    | cons e entries => exact (ih fun _ => rfl).cons e

theorem scan_covers (hlimit : 1 ≤ limit) :
    Covers (Option.guard fun e => keep e.1 e.2) entries
      (Page.scan (entries.take (fetch_count limit)) limit keep) := by
  have hstart : limit * BUDGET = 0 ∨ ([] : List (K × T)).length = limit → (none : Option K).isSome := by
    rintro (h | h)
    · unfold BUDGET at h
      omega
    · rw [length_nil] at h
      omega
  obtain ⟨done, rest, heq, hitems, hnext⟩ : ScansOn keep entries [] none
    (Page.scan (entries.take (fetch_count limit)) limit keep) := scan_loop_scansOn hstart
  refine ⟨done, rest, heq, ?_, hnext.imp_right ?_⟩
  · rw [filterMap_eq_filter]
    exact hitems
  · rintro ⟨key, hkey, hlast⟩
    cases hdone : done.getLast? with
    | none => simp [hdone] at hlast
    | some e =>
      rw [hdone] at hlast
      exact ⟨e, rfl, hkey.trans hlast.symm⟩

end Scan

/-- A page that is cut after some of its items goes on after the last of those. -/
theorem Covers.truncate {item : K × T → Option (K × U)} {entries : List (K × T)} {page : Page K U}
    (h : Covers item entries page) (hkey : ∀ e x, item e = some x → x.1 = e.1) {len : ℕ}
    (hlen : page.items ≠ [] → 0 < len) : Covers item entries (page.truncate len) := by
  unfold Page.truncate
  split_ifs with hle
  · exact h
  obtain ⟨done, rest, heq, hitems, -⟩ := h
  obtain ⟨n, rfl⟩ := Nat.exists_eq_add_one_of_ne_zero (hlen (by rintro h; simp [h] at hle)).ne'
  have hn : n < page.items.length := by omega
  -- The entry of the last item that is left is the last one that counts.
  have hsplit : done.filterMap item =
      page.items.take n ++ page.items[n] :: page.items.drop (n + 1) := by
    rw [← hitems, ← drop_eq_getElem_cons hn, take_append_drop]
  obtain ⟨done₁, done₂, rfl, hdone₁, hdone₂⟩ := filterMap_eq_append_iff.1 hsplit
  obtain ⟨skipped, e, done₃, rfl, hskipped, he, -⟩ := filterMap_eq_cons_iff.1 hdone₂
  have htake := take_succ_eq_append_getElem hn
  refine ⟨done₁ ++ (skipped ++ [e]), done₃ ++ rest, by simp [heq], ?_, .inr ⟨e, by simp, ?_⟩⟩
  · have hnone : skipped.filterMap item = [] := filterMap_eq_nil_iff.2 hskipped
    rw [filterMap_append, filterMap_append, hdone₁, hnone, nil_append,
      filterMap_cons_some he]
    exact htake
  · rw [htake, getLast?_append_of_ne_nil _ (cons_ne_nil _ _)]
    simp [hkey e _ he]

/-! ## All pages -/

section Follow

variable {item : Text × T → Option (Text × U)} {all : List (Text × T)} {limit : ℕ}
  {filters : Option Text} {list : Paging → List (Text × U) × Option Cursor}
variable {requests : ℕ}

/-- `rest` is what follows `after` in `all`. -/
def Follows (all : List (Text × T)) (after : Option Text) (rest : List (Text × T)) : Prop :=
  after = none ∧ rest = all ∨
    ∃ done last, all = done ++ last :: rest ∧ after = some last.1

theorem follow_all
    (hlist : ∀ after rest, Follows all after rest → ∃ page, Covers item rest page ∧
      list ⟨limit, after, filters⟩ = (page.items, page.next.map fun after => ⟨after, filters⟩))
    {after : Option Text} {rest : List (Text × T)} (h : Follows all after rest)
    (hrequests : rest.length < requests) :
    follow list limit filters requests (after.map fun after => ⟨after, filters⟩) =
      .ok (rest.filterMap item) := by
  induction requests generalizing after rest with
  | zero => omega
  | succ requests ih =>
    obtain ⟨page, ⟨done, rest', rfl, hitems, hnext⟩, hreply⟩ := hlist after rest h
    have hquery : from_query limit filters (after.map fun after => ⟨after, filters⟩) =
        .ok ⟨limit, after, filters⟩ := by
      cases after with
      | none => rfl
      | some after => simp [from_query, resume]
    rw [follow, hquery]
    simp only [bind, Except.bind, pure, Except.pure, hreply]
    rcases hnext with ⟨hnone, rfl⟩ | ⟨last, hlast, hsome⟩
    · simp only [hnone, Option.map_none, append_nil, hitems]
    · obtain ⟨done, rfl⟩ := getLast?_eq_some_iff.1 hlast
      have hfollows : Follows all (some last.1) rest' := by
        rcases h with ⟨-, hall⟩ | ⟨before, first, hall, -⟩
        · exact .inr ⟨done, last, by rw [← hall]; simp, rfl⟩
        · exact .inr ⟨before ++ first :: done, last, by rw [hall]; simp, rfl⟩
      have hrest := ih hfollows (by simp at hrequests; omega)
      simp only [Option.map_some] at hrest
      simp only [hsome, Option.map_some, hrest, hitems, filterMap_append]

end Follow

/-! ## The catalog -/

theorem prefix_of_between {leading key rest : Text} (h : ¬key < leading)
    (h' : ¬leading ++ rest < key) : leading <+: key := by
  induction leading generalizing key with
  | nil => exact nil_prefix
  | cons a leading ih =>
    cases key with
    | nil => exact absurd (nil_lt_cons a leading) h
    | cons b key =>
      rw [cons_append] at h'
      obtain ⟨hab, hle⟩ := not_or.1 (mt cons_lt_cons_iff.2 h)
      obtain ⟨hba, hle'⟩ := not_or.1 (mt cons_lt_cons_iff.2 h')
      obtain rfl := le_antisymm (not_lt.1 hab) (not_lt.1 hba)
      rw [cons_prefix_cons]
      exact ⟨rfl, ih (fun hlt => hle ⟨rfl, hlt⟩) fun hlt => hle' ⟨rfl, hlt⟩⟩

section Catalog

variable {kv : Catalog} {leading : Text} {n : ℕ}

/-- The entries under a prefix. -/
def under (kv : Catalog) (leading : Text) : List (Text × List UInt8) :=
  kv.entries.filter fun e => leading.isPrefixOf e.1

theorem takeWhile_under {p : Text × List UInt8 → Bool} (hp : ∀ e, p e → leading ≤ e.1) :
    (kv.entries.filter p).takeWhile (fun e => leading.isPrefixOf e.1) =
      (under kv leading).filter p := by
  rw [takeWhile_eq_filter_of_pairwise, under, filter_comm]
  refine ((kv.sorted.filter p).imp_of_mem fun {a b} ha _ hlt hb => ?_)
  obtain ⟨rest, hrest⟩ := isPrefixOf_iff_prefix.1 hb
  exact isPrefixOf_iff_prefix.2
    (prefix_of_between (hp a (mem_filter.1 ha).2).not_gt (hrest ▸ hlt.not_gt))

theorem le_of_mem_under {e : Text × List UInt8} (he : e ∈ under kv leading) : leading ≤ e.1 :=
  not_lt.1 ( isPrefixOf_iff_prefix.1 (mem_filter.1 he).2).le

theorem list_kv_page_none : list_kv_page kv leading none n = (under kv leading).take n := by
  unfold list_kv_page
  dsimp only
  rw [takeWhile_under fun e he => by simpa using he, filter_eq_self.2]
  intro e he
  simpa using le_of_mem_under he

theorem list_kv_page_some {done rest : List (Text × List UInt8)} {last : Text × List UInt8}
    (h : under kv leading = done ++ last :: rest) :
    list_kv_page kv leading (some last.1) n = rest.take n := by
  have hmem : last ∈ under kv leading := by simp [h]
  have hle := le_of_mem_under hmem
  have hsorted : (done ++ last :: rest).Pairwise fun a b => a.1 < b.1 := h ▸ kv.sorted.filter _
  obtain ⟨-, hlast, hdone⟩ := pairwise_append.1 hsorted
  unfold list_kv_page
  simp only [if_pos hle]
  rw [takeWhile_under fun e he => hle.trans (of_decide_eq_true he).le, h, filter_append,
    filter_eq_nil_iff.2, nil_append, filter_cons_of_neg, filter_eq_self.2]
  · intro e he
    simpa using (pairwise_cons.1 hlast).1 e he
  · simp
  · intro e he
    simpa using (hdone e he last mem_cons_self).le

/-- A list that goes on after a name goes on after the key of that name. -/
theorem map_list_kv_page {all rest : List (Text × T)} {after : Option Text} {key : Text → Text}
    {entry : Text × List UInt8 → Text × T} (hall : (under kv leading).map entry = all)
    (hkey : ∀ e ∈ under kv leading, key (entry e).1 = e.1) (h : Follows all after rest) :
    (list_kv_page kv leading (after.map key) n).map entry = rest.take n := by
  rcases h with ⟨rfl, rfl⟩ | ⟨done, last, heq, rfl⟩
  · rw [Option.map_none, list_kv_page_none, map_take, hall]
  · obtain ⟨done', tail, hunder, -, htail⟩ := map_eq_append_iff.1 (hall.trans heq)
    obtain ⟨e, rest', rfl, rfl, rfl⟩ := map_eq_cons_iff.1 htail
    rw [Option.map_some, hkey e (by simp [hunder]), list_kv_page_some hunder, map_take]

end Catalog

/-! ## Replies -/

theorem le_reply_loop (size : Text → T → ℕ) (sent bytes : ℕ) (items : List (Text × T)) :
    sent ≤ reply_loop size sent bytes items := by
  induction items generalizing sent bytes with
  | nil => exact le_rfl
  | cons e items ih =>
    rw [reply_loop]
    split_ifs
    · exact le_rfl
    all_goals exact (Nat.le_succ sent).trans (ih _ _)

/-- However many bytes the items have, the first one is sent. -/
theorem reply_covers {item : Text × T → Option (Text × U)} {entries : List (Text × T)}
    {page : Page Text U} (h : Covers item entries page) (hkey : ∀ e x, item e = some x → x.1 = e.1)
    (size : Text → U → ℕ) (paging : Paging) :
    ∃ sent, Covers item entries sent ∧ paging.reply size page =
      (sent.items, sent.next.map fun after => ⟨after, paging.filters⟩) := by
  refine ⟨page.truncate (reply_loop size 0 0 page.items), h.truncate hkey fun hne => ?_, rfl⟩
  obtain ⟨e, items, heq⟩ := exists_cons_of_ne_nil hne
  rw [heq, reply_loop, if_neg fun hboth => lt_irrefl _ hboth.1]
  exact le_reply_loop size 1 _ items

/-! ## Topics and groups -/

theorem Covers.filterMap {item : K × T → Option (K × T)} {entries : List (K × T)} {page : Page K T}
    (h : Covers item entries page) (f : K × T → Option (K × U)) :
    Covers (fun e => (item e).bind f) entries ⟨page.items.filterMap f, page.next⟩ := by
  obtain ⟨done, rest, heq, hitems, hnext⟩ := h
  exact ⟨done, rest, heq, by rw [hitems, filterMap_filterMap], hnext⟩

theorem hex_value_digit : ∀ d : Fin 16, hex_value (hex_digit d.val) = some d.val := by
  decide

theorem hex_value_high (b : Fin 256) : hex_value (hex_digit (b.val / 16)) = some (b.val / 16) :=
  hex_value_digit ⟨b.val / 16, by omega⟩

theorem hex_value_low (b : Fin 256) : hex_value (hex_digit (b.val % 16)) = some (b.val % 16) :=
  hex_value_digit ⟨b.val % 16, by omega⟩

theorem hex_encode_cons (b : Fin 256) (text : Text) : hex_encode (b :: text) =
    hex_digit (b.val / 16) :: hex_digit (b.val % 16) :: hex_encode text :=
  rfl

theorem hex_decode_encode (text : Text) : hex_decode (hex_encode text) = some text := by
  induction text with
  | nil => rfl
  | cons b text ih =>
    have hb : Fin.ofNat 256 (b.val / 16 * 16 + b.val % 16) = b := by
      ext
      simp only [Fin.val_ofNat]
      omega
    rw [hex_encode_cons, hex_decode, hex_value_high, hex_value_low, ih]
    exact congrArg (fun b => some (b :: text)) hb

theorem hex_encode_prefix_iff {leading text : Text} :
    hex_encode leading <+: hex_encode text ↔ leading <+: text := by
  induction leading generalizing text with
  | nil => simp [hex_encode]
  | cons a leading ih =>
    cases text with
    | nil => simp [hex_encode]
    | cons b text =>
      rw [hex_encode_cons, hex_encode_cons, cons_prefix_cons, cons_prefix_cons,
        cons_prefix_cons, ih, ← and_assoc]
      refine and_congr_left fun _ => ⟨fun ⟨hhigh, hlow⟩ => ?_, fun hab => by rw [hab]; simp⟩
      have hhigh' := congrArg hex_value hhigh
      have hlow' := congrArg hex_value hlow
      rw [hex_value_high, hex_value_high, Option.some_inj] at hhigh'
      rw [hex_value_low, hex_value_low, Option.some_inj] at hlow'
      ext
      omega

section Lists

variable {kv : Catalog} {limit : ℕ} {filters : Option Text}

theorem list_topics_all (hlimit : 1 ≤ limit) (now : Int64) (keep : Topics.Topic → Bool)
    (size : Text → Topics.Topic → ℕ) (hrequests : kv.entries.length < requests) :
    follow (list_topics kv now keep size) limit filters requests none =
      .ok (topics_under kv now (filters.getD (bytes "/")) keep) := by
  set leading := topic_key (canonical (filters.getD (bytes "/"))) with hleading
  have hkey : ∀ e ∈ under kv leading, topic_key (topic_entry e).1 = e.1 := by
    intro e he
    obtain ⟨rest, hrest⟩ := isPrefixOf_iff_prefix.1 (mem_filter.1 he).2
    simp [topic_entry, ← hrest, hleading, topic_key]
  have hitem : ∀ e : Text × Option Topics.Topic, (Option.guard (fun e => e.2.any fun topic =>
      !topic.expired now && keep topic) e).bind (fun e => e.2.map (e.1, ·)) =
        (e.2.filter fun topic => !topic.expired now && keep topic).map (e.1, ·) := by
    rintro ⟨name, _ | topic⟩
    · rfl
    · cases hk : !topic.expired now && keep topic <;> simp [Option.guard, Option.filter, hk]
  have hstart : Follows ((under kv leading).map topic_entry) none
    ((under kv leading).map topic_entry) := .inl ⟨rfl, rfl⟩
  refine follow_all (fun after rest h => ?_) hstart ?_
  · refine reply_covers ?_ ?_ size ⟨limit, after, filters⟩
    · unfold topics_list
      dsimp only
      rw [map_list_kv_page rfl hkey h]
      simp only [← hitem]
      exact (scan_covers hlimit).filterMap _
    · rintro e x hx
      obtain ⟨topic, -, rfl⟩ := Option.map_eq_some_iff.1 hx
      rfl
  · rw [length_map]
    exact (length_filter_le _ _).trans_lt hrequests

theorem group_id_key (id : Text) : group_id (group_key id) = id := by
  simp [group_id, group_key, hex_decode_encode]

theorem under_groups {ids : List Text} (h : GroupIds kv ids) (leading : Text) :
    (under kv (group_key leading)).map Prod.fst =
      (ids.filter leading.isPrefixOf).map group_key := by
  have hiff : ∀ id, (group_key leading).isPrefixOf (group_key id) = leading.isPrefixOf id := by
    intro id
    rw [Bool.eq_iff_iff, isPrefixOf_iff_prefix, isPrefixOf_iff_prefix, group_key,
      group_key, prefix_append_right_inj, hex_encode_prefix_iff]
  have hunder : under kv (group_key leading) =
      (kv.entries.filter fun e => GROUP_PREFIX.isPrefixOf e.1).filter fun e =>
        (group_key leading).isPrefixOf e.1 := by
    rw [filter_filter]
    refine filter_congr fun e _ => ?_
    rw [Bool.eq_iff_iff, Bool.and_eq_true, isPrefixOf_iff_prefix, isPrefixOf_iff_prefix]
    exact (and_iff_left_of_imp fun h => (prefix_append _ _).trans h).symm
  have hmap := congrArg (filter (group_key leading).isPrefixOf) h
  rw [filter_map, filter_map] at hmap
  simp only [Function.comp_def, hiff] at hmap
  rw [hunder]
  exact hmap

theorem list_groups_all (hlimit : 1 ≤ limit) {ids : List Text} (hids : GroupIds kv ids)
    (keep : Text → Bool) (size : Text → Unit → ℕ)
    (hrequests : kv.entries.length < requests) :
    follow (list_groups kv keep size) limit filters requests none =
      .ok (groups_under ids (filters.getD []) keep) := by
  set leading := filters.getD [] with hleading
  have hkeys := under_groups hids leading
  have hentry : (under kv (group_key leading)).map (fun e => (group_id e.1, ())) =
      (ids.filter leading.isPrefixOf).map (·, ()) := by
    have := congrArg (map fun key => (group_id key, ())) hkeys
    simpa [Function.comp_def, group_id_key] using this
  have hkey : ∀ e ∈ under kv (group_key leading), group_key (group_id e.1) = e.1 := by
    intro e he
    have hmem := hkeys ▸ mem_map_of_mem he
    obtain ⟨id, -, hid⟩ := mem_map.1 hmem
    rw [← hid, group_id_key]
  have hresult : ((ids.filter leading.isPrefixOf).map (·, ())).filterMap
      (Option.guard fun e => keep e.1) = groups_under ids leading keep := by
    rw [filterMap_eq_filter, filter_map]
    rfl
  have hstart : Follows ((ids.filter leading.isPrefixOf).map (·, ())) none
    ((ids.filter leading.isPrefixOf).map (·, ())) := .inl ⟨rfl, rfl⟩
  rw [← hresult]
  refine follow_all (fun after rest h => ?_) hstart ?_
  · refine reply_covers ?_ ?_ size ⟨limit, after, filters⟩
    · unfold groups_list groups
      simp only [map_map, Function.comp_def]
      rw [map_list_kv_page hentry hkey h]
      exact scan_covers hlimit
    · rintro e x hx
      obtain ⟨rfl, -⟩ := Option.guard_eq_some_iff.1 hx
      rfl
  · rw [← hentry, length_map]
    exact (length_filter_le _ _).trans_lt hrequests

/-- Following the cursors of a list, from the first page on and with one more request than there are
entries, returns every entry under the prefix that is kept, once and in the order of the keys. -/
theorem lists_are_complete (kv : Catalog) (limit : ℕ) (hlimit : 1 ≤ limit) (filters : Option Text) :
    (∀ now keep size requests, kv.entries.length < requests →
      follow (list_topics kv now keep size) limit filters requests none =
        .ok (topics_under kv now (filters.getD (bytes "/")) keep)) ∧
    ∀ ids keep size requests, GroupIds kv ids → kv.entries.length < requests →
      follow (list_groups kv keep size) limit filters requests none =
        .ok (groups_under ids (filters.getD []) keep) :=
  ⟨fun now keep size _ => list_topics_all hlimit now keep size,
    fun _ keep size _ hids => list_groups_all hlimit hids keep size⟩

theorem lists_are_complete_of_two_groups :
    follow (list_groups (OrdMap.ofList [(group_key [97], []), (group_key [98], [])])
      (fun _ => true) fun _ _ => 0) 1 none 3 none = .ok [([97], ()), ([98], ())] :=
  (lists_are_complete (OrdMap.ofList [(group_key [97], []), (group_key [98], [])]) 1 le_rfl none).2
    [[97], [98]] (fun _ => true) (fun _ _ => 0) 3 (by unfold GroupIds; decide +kernel)
    (by decide +kernel)

end Lists

end PicoMq.Server
