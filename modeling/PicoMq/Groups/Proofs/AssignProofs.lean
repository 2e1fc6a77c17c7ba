import PicoMq.Groups.Assign
import PicoMq.Library.Proofs.FoldProofs
import PicoMq.Library.Proofs.OrdMapProofs

/-!
# The assignment gives every wanted stream to one of its subscribers

The loop never panics: every stream in the order has a candidate, and every candidate is a member.
-/

namespace PicoMq.Groups

open List OrdMap Prod

variable {members : OrdMap String Member} {id : String} {stream : StreamName}
variable {assignments : OrdMap String (List StreamName)}

theorem Member.wanted_nodup (m : Member) : m.wanted.Nodup := by
  unfold Member.wanted
  split
  · exact keys_nodup _
  · exact nodup_nil

/-! ## Subscribers -/

theorem get_foldl_wanted {wanted : List StreamName} (hnodup : wanted.Nodup)
    (subscribers : OrdMap StreamName (List String)) :
    (wanted.foldl (fun subscribers stream =>
        subscribers.insert stream ((subscribers.get stream).getD [] ++ [id])) subscribers).get stream
      = if stream ∈ wanted then some ((subscribers.get stream).getD [] ++ [id])
        else subscribers.get stream := by
  induction wanted generalizing subscribers with
  | nil => rfl
  | cons first wanted ih =>
    obtain ⟨hfirst, hrest⟩ := nodup_cons.1 hnodup
    rw [foldl_cons, ih hrest, get_insert]
    by_cases hstream : stream = first
    · subst hstream
      simp [hfirst]
    · simp [hstream]

/-- The ids of the members in `entries` that want the stream. -/
def wanting (stream : StreamName) (entries : List (String × Member)) : List String :=
  (entries.filter fun e => e.2.wanted.contains stream).map fst

theorem get_subscribers :
    (subscribers members).get stream =
      if wanting stream members.entries = [] then none
      else some (wanting stream members.entries) := by
  have hloop : ∀ (entries : List (String × Member)) (start : OrdMap StreamName (List String)),
      (entries.foldl (fun subscribers entry =>
          entry.2.wanted.foldl (fun subscribers stream =>
            subscribers.insert stream ((subscribers.get stream).getD [] ++ [entry.1]))
          subscribers) start).get stream =
        if wanting stream entries = [] then start.get stream
        else some ((start.get stream).getD [] ++ wanting stream entries) := by
    intro entries
    induction entries with
    | nil => exact fun start => rfl
    | cons e entries ih =>
      intro start
      rw [foldl_cons, ih, get_foldl_wanted e.2.wanted_nodup]
      by_cases hwants : stream ∈ e.2.wanted
      · have hcons : wanting stream (e :: entries) = e.1 :: wanting stream entries := by
          simp [wanting, hwants]
        rw [hcons, if_pos hwants, if_neg (cons_ne_nil _ _)]
        split_ifs with hnone
        · rw [hnone]
        · simp
      · have hcons : wanting stream (e :: entries) = wanting stream entries := by
          simp [wanting, hwants]
        rw [hcons, if_neg hwants]
  rw [subscribers, hloop, get_empty]
  simp

theorem mem_wanting : id ∈ wanting stream members.entries ↔
    ∃ m, members.get id = some m ∧ stream ∈ m.wanted := by
  simp only [wanting, mem_map, mem_filter, contains_iff_mem, Prod.exists,
    mem_entries]
  constructor
  · rintro ⟨id', m, ⟨hm, hwants⟩, rfl⟩
    exact ⟨m, hm, hwants⟩
  · rintro ⟨m, hm, hwants⟩
    exact ⟨id, m, ⟨hm, hwants⟩, rfl⟩

theorem mem_assign_order {entry : StreamName × List String} :
    entry ∈ assign_order members ↔
      wanting entry.1 members.entries = entry.2 ∧ entry.2 ≠ [] := by
  obtain ⟨stream, candidates⟩ := entry
  rw [assign_order, mem_insertionSort, mem_entries, get_subscribers]
  constructor
  · intro h
    split_ifs at h with hnone
    cases h
    exact ⟨rfl, hnone⟩
  · rintro ⟨heq, hne⟩
    rw [if_neg (heq ▸ hne), heq]

theorem assign_order_nodup (members : OrdMap String Member) :
    ((assign_order members).map fst).Nodup :=
  ((perm_insertionSort _ _).map fst).nodup_iff.2 (keys_nodup (subscribers members))

/-! ## The loop -/

theorem exists_least_loaded {candidates : List String} (hne : candidates ≠ [])
    (hkeys : ∀ id ∈ candidates, id ∈ assignments.keys) :
    ∃ chosen ∈ candidates, least_loaded assignments candidates = some chosen ∧
      ∀ id ∈ candidates, ((assignments.get chosen).getD []).length ≤
        ((assignments.get id).getD []).length := by
  let load : String → ℕ ×ₗ String := fun id => toLex (((assignments.get id).getD []).length, id)
  have hloads : (candidates.mapM fun id => (assignments.get id).map fun streams =>
      (toLex (streams.length, id) : ℕ ×ₗ String)) = some (candidates.map load) := by
    refine mapM_eq_some_map fun id hid => ?_
    obtain ⟨streams, hstreams⟩ := mem_keys.1 (hkeys id hid)
    simp [load, hstreams]
  obtain ⟨least, hleast⟩ : ∃ least, (candidates.map load).min? = some least := by
    rw [← Option.isSome_iff_exists, isSome_min?_iff]
    simpa using hne
  obtain ⟨chosen, hchosen, hload⟩ := mem_map.1 (min?_mem hleast)
  refine ⟨chosen, hchosen, ?_, fun id hid => ?_⟩
  · rw [least_loaded, hloads, Option.bind_eq_bind, Option.bind_some, hleast, ← hload]
    rfl
  · have hle : load chosen ≤ load id :=
      hload ▸ (le_min?_iff hleast).1 le_rfl _ (mem_map_of_mem hid)
    rcases Prod.Lex.toLex_le_toLex.1 hle with hlt | ⟨heq, -⟩
    · exact hlt.le
    · exact heq.le

/-- Every stream handed out is with one member that wants it, and members with the same subscription
have as many, up to one. -/
structure Assigned (members : OrdMap String Member) (streams : List StreamName)
    (assignments : OrdMap String (List StreamName)) : Prop where
  keys : ∀ id, id ∈ assignments.keys ↔ id ∈ members.keys
  given : ∀ stream, (∃ id held, assignments.get id = some held ∧ stream ∈ held) ↔ stream ∈ streams
  wanted : ∀ id held, assignments.get id = some held → ∀ stream ∈ held,
    ∃ m, members.get id = some m ∧ stream ∈ m.wanted
  one : ∀ id id' held held', assignments.get id = some held → assignments.get id' = some held' →
    ∀ stream ∈ held, stream ∈ held' → id = id'
  balanced : Balanced members assignments

theorem Assigned.start : Assigned members [] (members.map fun _ => []) where
  keys id := by rw [keys_map]
  given stream := by
    refine ⟨?_, by simp⟩
    rintro ⟨id, held, hheld, hstream⟩
    rw [get_map, Option.map_eq_some_iff] at hheld
    obtain ⟨m, -, rfl⟩ := hheld
    cases hstream
  wanted id held hheld stream hstream := by
    rw [get_map, Option.map_eq_some_iff] at hheld
    obtain ⟨m, -, rfl⟩ := hheld
    cases hstream
  one id id' held held' hheld hheld' stream hstream := by
    rw [get_map, Option.map_eq_some_iff] at hheld
    obtain ⟨m, -, rfl⟩ := hheld
    cases hstream
  balanced id id' m m' hm hm' _ := by
    refine ⟨[], [], ?_, ?_, by simp, by simp⟩
    · rw [get_map, hm, Option.map_some]
    · rw [get_map, hm', Option.map_some]

theorem Assigned.insert {streams held : List _}
    {m : Member} (h : Assigned members streams assignments) (hnew : stream ∉ streams)
    (hheld : assignments.get id = some held) (hm : members.get id = some m)
    (hwants : stream ∈ m.wanted)
    (hleast : ∀ id' m', members.get id' = some m' → stream ∈ m'.wanted →
      ∀ held', assignments.get id' = some held' → held.length ≤ held'.length) :
    Assigned members (streams ++ [stream]) (assignments.insert id (held ++ [stream])) where
  keys id' := by
    rw [mem_keys_insert, h.keys]
    exact or_iff_right_of_imp fun he => he ▸ mem_keys_of_get hm
  given stream' := by
    rw [mem_append, mem_singleton, ← h.given]
    constructor
    · rintro ⟨id', held', hheld', hstream'⟩
      rcases get_insert_cases hheld' with ⟨rfl, rfl⟩ | ⟨-, hold⟩
      · rcases mem_append.1 hstream' with hin | hin
        · exact .inl ⟨id', held, hheld, hin⟩
        · exact .inr (mem_singleton.1 hin)
      · exact .inl ⟨id', held', hold, hstream'⟩
    · rintro (⟨id', held', hheld', hstream'⟩ | rfl)
      · by_cases hid : id' = id
        · subst hid
          cases hheld.symm.trans hheld'
          exact ⟨id', _, get_insert_self .., mem_append_left _ hstream'⟩
        · exact ⟨id', held', by rw [get_insert, if_neg hid, hheld'], hstream'⟩
      · exact ⟨id, _, get_insert_self .., by simp⟩
  wanted id' held' hheld' stream' hstream' := by
    rcases get_insert_cases hheld' with ⟨rfl, rfl⟩ | ⟨-, hold⟩
    · rcases mem_append.1 hstream' with hin | hin
      · exact h.wanted id' held hheld stream' hin
      · exact ⟨m, hm, mem_singleton.1 hin ▸ hwants⟩
    · exact h.wanted id' held' hold stream' hstream'
  one := by
    have hfresh : ∀ id' held', assignments.get id' = some held' → stream ∉ held' :=
      fun id' held' hheld' hin => hnew ((h.given stream).1 ⟨id', held', hheld', hin⟩)
    intro id₁ id₂ held₁ held₂ h₁ h₂ stream' hin₁ hin₂
    rcases get_insert_cases h₁ with ⟨rfl, rfl⟩ | ⟨-, hold₁⟩ <;>
      rcases get_insert_cases h₂ with ⟨rfl, rfl⟩ | ⟨-, hold₂⟩
    · rfl
    · rcases mem_append.1 hin₁ with hin | hin
      · exact h.one _ _ _ _ hheld hold₂ stream' hin hin₂
      · exact absurd (mem_singleton.1 hin ▸ hin₂) (hfresh id₂ held₂ hold₂)
    · rcases mem_append.1 hin₂ with hin | hin
      · exact h.one _ _ _ _ hold₁ hheld stream' hin₁ hin
      · exact absurd (mem_singleton.1 hin ▸ hin₁) (hfresh id₁ held₁ hold₁)
    · exact h.one _ _ _ _ hold₁ hold₂ stream' hin₁ hin₂
  balanced id₁ id₂ m₁ m₂ hm₁ hm₂ hsame := by
    obtain ⟨held₁, held₂, hheld₁, hheld₂, hle₁, hle₂⟩ := h.balanced id₁ id₂ m₁ m₂ hm₁ hm₂ hsame
    -- Whoever shares the subscription of the chosen member wants the stream too.
    have hless : ∀ id' m' held', members.get id' = some m' → m'.subscription = m.subscription →
        assignments.get id' = some held' → held.length ≤ held'.length :=
      fun id' m' held' hm' hsub => hleast id' m' hm' (by rwa [Member.wanted, hsub]) held'
    by_cases h₁ : id₁ = id <;> by_cases h₂ : id₂ = id
    · subst h₁ h₂
      exact ⟨_, _, get_insert_self .., get_insert_self .., by simp, by simp⟩
    · subst h₁
      cases hm.symm.trans hm₁
      cases hheld.symm.trans hheld₁
      have := hless id₂ m₂ held₂ hm₂ hsame.symm hheld₂
      have hget : (assignments.insert id₁ (held ++ [stream])).get id₂ = some held₂ := by
        rw [get_insert, if_neg h₂, hheld₂]
      exact ⟨_, held₂, get_insert_self .., hget, by simpa, by simp; omega⟩
    · subst h₂
      cases hm.symm.trans hm₂
      cases hheld.symm.trans hheld₂
      have := hless id₁ m₁ held₁ hm₁ hsame hheld₁
      have hget : (assignments.insert id₂ (held ++ [stream])).get id₁ = some held₁ := by
        rw [get_insert, if_neg h₁, hheld₁]
      exact ⟨held₁, _, hget, get_insert_self .., by simp; omega, by simpa⟩
    · exact ⟨held₁, held₂, by rw [get_insert, if_neg h₁, hheld₁],
        by rw [get_insert, if_neg h₂, hheld₂], hle₁, hle₂⟩

theorem Assigned.loop {order : List (StreamName × List String)} {streams : List StreamName}
    (h : Assigned members streams assignments) (hnodup : (streams ++ order.map fst).Nodup)
    (horder : ∀ entry ∈ order, wanting entry.1 members.entries = entry.2 ∧ entry.2 ≠ []) :
    ∃ result, order.foldlM assign_stream assignments = some result ∧
      Assigned members (streams ++ order.map fst) result := by
  induction order generalizing assignments streams with
  | nil => exact ⟨assignments, rfl, by simpa using h⟩
  | cons entry order ih =>
    obtain ⟨hwanting, hne⟩ := horder entry (mem_cons_self ..)
    have hmember : ∀ id ∈ entry.2, ∃ m, members.get id = some m ∧ entry.1 ∈ m.wanted :=
      fun id hid => mem_wanting.1 (hwanting ▸ hid)
    obtain ⟨chosen, hchosen, hleast, hload⟩ := exists_least_loaded hne fun id hid =>
      (h.keys id).2 (mem_keys.2 ((hmember id hid).imp fun _ hm => hm.1))
    obtain ⟨m, hm, hwants⟩ := hmember chosen hchosen
    obtain ⟨held, hheld⟩ :=
      mem_keys.1 ((h.keys chosen).2 (mem_keys_of_get hm))
    have hassign : assign_stream assignments entry =
        some (assignments.insert chosen (held ++ [entry.1])) := by
      rw [assign_stream, hleast, Option.bind_eq_bind, Option.bind_some, hheld]
      rfl
    have hnew : entry.1 ∉ streams := fun hin => by
      rw [nodup_append] at hnodup
      exact hnodup.2.2 _ hin _ (mem_cons_self ..) rfl
    rw [map_cons, append_cons, foldlM_cons, hassign, Option.bind_eq_bind,
      Option.bind_some]
    refine ih (h.insert hnew hheld hm hwants fun id' m' hm' hwants' held' hheld' => ?_) ?_
      fun e he => horder e (mem_cons_of_mem _ he)
    · simpa [hheld, hheld'] using hload id' (hwanting ▸ mem_wanting.2 ⟨m', hm', hwants'⟩)
    · simpa using hnodup

/-- All streams that somebody wants are with one member each, which wants them. -/
theorem exists_assign (members : OrdMap String Member) :
    ∃ assignments, assign members = some assignments ∧
      Assigned members ((assign_order members).map fst) assignments := by
  obtain ⟨result, hresult, h⟩ := Assigned.start.loop (assign_order_nodup members)
    fun entry hentry => mem_assign_order.1 hentry
  rw [nil_append] at h
  refine ⟨result.map fun streams => streams.insertionSort (· ≤ ·), ?_, ?_⟩
  · rw [assign, hresult]
    rfl
  · have hget : ∀ id held, (result.map fun streams => streams.insertionSort (· ≤ ·)).get id =
        some held →
          ∃ held', result.get id = some held' ∧ ∀ stream, stream ∈ held ↔ stream ∈ held' := by
      intro id held hheld
      rw [get_map, Option.map_eq_some_iff] at hheld
      obtain ⟨held', hheld', rfl⟩ := hheld
      exact ⟨held', hheld', fun stream => mem_insertionSort _⟩
    constructor
    · exact fun id => by rw [keys_map, h.keys]
    · intro stream
      rw [← h.given]
      constructor
      · rintro ⟨id, held, hheld, hin⟩
        obtain ⟨held', hheld', hiff⟩ := hget id held hheld
        exact ⟨id, held', hheld', (hiff stream).1 hin⟩
      · rintro ⟨id, held, hheld, hin⟩
        exact ⟨id, _, by rw [get_map, hheld, Option.map_some],
          (mem_insertionSort _).2 hin⟩
    · intro id held hheld stream hin
      obtain ⟨held', hheld', hiff⟩ := hget id held hheld
      exact h.wanted id held' hheld' stream ((hiff stream).1 hin)
    · intro id₁ id₂ held₁ held₂ h₁ h₂ stream hin₁ hin₂
      obtain ⟨held₁', hheld₁, hiff₁⟩ := hget id₁ held₁ h₁
      obtain ⟨held₂', hheld₂, hiff₂⟩ := hget id₂ held₂ h₂
      exact h.one _ _ _ _ hheld₁ hheld₂ stream ((hiff₁ stream).1 hin₁) ((hiff₂ stream).1 hin₂)
    · intro id id' m m' hm hm' hsame
      obtain ⟨held, held', hheld, hheld', hle, hle'⟩ := h.balanced id id' m m' hm hm' hsame
      refine ⟨_, _, by rw [get_map, hheld, Option.map_some],
        by rw [get_map, hheld', Option.map_some], ?_, ?_⟩
      · simpa using hle
      · simpa using hle'

/-- Members with the same subscription are given as many streams, up to one. -/
theorem assign_balanced (members : OrdMap String Member) :
    ∃ assignments, assign members = some assignments ∧ Balanced members assignments := by
  obtain ⟨assignments, hassign, h⟩ := exists_assign members
  exact ⟨assignments, hassign, h.balanced⟩

theorem mem_assign_order_streams :
    stream ∈ (assign_order members).map fst ↔
      ∃ id m, members.get id = some m ∧ stream ∈ m.wanted := by
  constructor
  · intro hin
    obtain ⟨entry, hentry, rfl⟩ := mem_map.1 hin
    obtain ⟨hwanting, hne⟩ := mem_assign_order.1 hentry
    obtain ⟨id, hid⟩ := exists_mem_of_ne_nil _ hne
    exact ⟨id, mem_wanting.1 (hwanting ▸ hid)⟩
  · rintro ⟨id, hid⟩
    have hne := ne_nil_of_mem (mem_wanting.2 hid)
    exact mem_map.2
      ⟨(stream, wanting stream members.entries), mem_assign_order.2 ⟨rfl, hne⟩, rfl⟩

end PicoMq.Groups
