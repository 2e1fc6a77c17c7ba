import PicoMq.Auth.Proofs.ScopeProofs

/-!
# Proofs: prefixed names

A stored name comes back as itself exactly if it goes on where a client's name would.
-/

namespace PicoMq.Auth

open Auth List ResourceSet

namespace Scope

variable {leading rest : Name}

/-! ## Client names under a prefix -/

theorem unrooted_append {leading : Name} (h : leading ≠ []) (name : Name) :
    unrooted (leading ++ name) = unrooted leading ++ name := by
  cases leading with
  | nil => exact absurd rfl h
  | cons c tail =>
    rw [cons_append]
    unfold unrooted Common.unrooted
    dsimp only
    split_ifs
    · rfl
    · rfl

theorem canonical_eq_map (name : Name) : canonical name = (unrooted name).map separator := rfl

theorem canonical_append {leading : Name} (h : leading ≠ []) (name : Name) :
    canonical (leading ++ name) = canonical leading ++ name.map separator := by
  rw [canonical_eq_map, unrooted_append h, map_append, canonical_eq_map]

theorem canonical_root (name : Name) : canonical ('/' :: name) = name.map separator := rfl

theorem leading_prefix_join (leading client : Name) : leading <+: join leading client := by
  unfold join
  dsimp only
  split_ifs
  · exact prefix_append ..
  · exact prefix_rfl
  · exact prefix_append ..

theorem canonical_prefix_join (leading client : Name) :
    canonical leading <+: canonical (join leading client) := by
  by_cases hempty : leading = []
  · rw [hempty]
    exact nil_prefix
  · obtain ⟨name, hname⟩ := leading_prefix_join leading client
    rw [← hname, canonical_append hempty]
    exact prefix_append ..

theorem join_of_continues
    (h : Continues (leading.getLast? = some '/') rest) : join leading rest = leading ++ rest := by
  unfold Continues at h
  unfold join
  dsimp only
  by_cases hjoined : leading.getLast? = some '/'
  · rw [if_pos (decide_eq_true hjoined)] at h
    rw [if_pos hjoined]
    cases rest with
    | nil => rfl
    | cons c tail =>
      rw [dropWhile_cons_of_neg]
      simpa using h
  · rw [if_neg (by simpa using hjoined)] at h
    rw [if_neg hjoined]
    rcases h with rfl | ⟨c, tail, rfl, hc⟩
    · simp
    · have htrim : ('/' :: c :: tail).dropWhile (· = '/') = c :: tail := by
        simp [hc]
      rw [htrim]
      rfl

theorem length_dropWhile_le (p : Char → Bool) (name : Name) :
    (name.dropWhile p).length ≤ name.length :=
  (dropWhile_suffix p).length_le

theorem head_of_length_dropWhile {name : Name}
    (h : (name.dropWhile (· = '/')).length = name.length) : name.head? ≠ some '/' := by
  intro hhead
  cases name with
  | nil => cases hhead
  | cons c tail =>
    cases hhead
    have hle := length_dropWhile_le (· = '/') tail
    rw [dropWhile_cons_of_pos (by simp), length_cons] at h
    omega

theorem continues_of_length (h : (join leading rest).length = leading.length + rest.length) :
    Continues (leading.getLast? = some '/') rest := by
  unfold join at h
  dsimp only at h
  unfold Continues
  by_cases hjoined : leading.getLast? = some '/'
  · rw [if_pos hjoined, length_append] at h
    rw [if_pos (decide_eq_true hjoined)]
    exact head_of_length_dropWhile (Nat.add_left_cancel h)
  · rw [if_neg hjoined] at h
    rw [if_neg (by simpa using hjoined)]
    by_cases hname : (rest.dropWhile (· = '/')).isEmpty = true
    · rw [if_pos hname] at h
      left
      exact length_eq_zero_iff.1 (by omega)
    · rw [if_neg hname, length_append, length_cons] at h
      right
      cases rest with
      | nil => exact absurd rfl hname
      | cons c tail =>
        by_cases hc : c = '/'
        · subst hc
          rw [dropWhile_cons_of_pos (by simp)] at h hname
          rw [length_cons] at h
          have hhead : tail.head? ≠ some '/' := head_of_length_dropWhile (by omega)
          cases tail with
          | nil => exact absurd rfl hname
          | cons c' tail => exact ⟨c', tail, rfl, fun heq => hhead (congrArg some heq)⟩
        · rw [dropWhile_cons_of_neg (by simpa using hc)] at h
          omega

/-! ## Stored names -/

theorem join_eq_iff :
    join leading rest = leading ++ rest ↔ Continues (leading.getLast? = some '/') rest := by
  refine ⟨fun h => continues_of_length ?_, join_of_continues⟩
  rw [h, length_append]

theorem canonical_join_iff :
    canonical (join leading rest) = canonical leading ++ rest.map separator ↔
      Continues (leading.isEmpty || leading.getLast? = some '/') rest := by
  by_cases hempty : leading = []
  · subst hempty
    have hjoin : canonical (join [] rest) = (rest.dropWhile (· = '/')).map separator := by
      unfold join
      dsimp only
      rw [if_neg (by simp)]
      split_ifs with hname
      · rw [isEmpty_iff.1 hname]
        rfl
      · exact canonical_root _
    rw [hjoin]
    show _ ↔ rest.head? ≠ some '/'
    constructor
    · intro h
      refine head_of_length_dropWhile ?_
      have hlength := congrArg length h
      simpa [canonical, Common.canonical, Common.unrooted] using hlength
    · intro hhead
      cases rest with
      | nil => rfl
      | cons c tail =>
        rw [dropWhile_cons_of_neg (by simpa using hhead)]
        rfl
  · rw [show leading.isEmpty = false by simpa using hempty, Bool.false_or]
    constructor
    · intro h
      obtain ⟨added, hadded⟩ := leading_prefix_join leading rest
      rw [← hadded, canonical_append hempty] at h
      have hlength := congrArg length (append_cancel_left h)
      rw [length_map, length_map] at hlength
      refine continues_of_length ?_
      rw [← hadded, length_append, hlength]
    · intro h
      rw [join_of_continues h, canonical_append hempty]

section Scopes

variable {scope : Scope} {leading : Name}

theorem resolve_eq (hauto : scope.auto_prefix = true) (resource : Resource)
    (hset : sole_prefix (scope.set resource) = some leading) (client : Name) :
    scope.resolve resource client = .ok (join leading client) := by
  rw [resolve, if_neg (by simp [hauto]), hset]

theorem matchers_of_sole_prefix {set : ResourceSet}
    (h : sole_prefix set = some leading) : set.matchers = [.leading leading] := by
  unfold sole_prefix at h
  split at h
  · next p hmatchers =>
    cases h
    exact hmatchers
  · cases h

theorem allows_stream_iff (hset : sole_prefix scope.streams = some leading)
    (stored : Name) :
    scope.allows_stream stored = true ↔ canonical leading <+: canonical stored := by
  rw [allows_stream, matchers_of_sole_prefix hset, any_cons, any_nil, Bool.or_false]
  exact isPrefixOf_iff_prefix

theorem matches_group_iff (hset : sole_prefix scope.groups = some leading)
    (stored : Name) : scope.groups.matches_name stored = true ↔ leading <+: stored := by
  rw [matches_name, matchers_of_sole_prefix hset, any_cons, any_nil,
    Bool.or_false]
  exact isPrefixOf_iff_prefix

/-- A matched stream is recovered from the shown name exactly if it continues the prefix. -/
theorem stream_recovered_iff (hauto : scope.auto_prefix = true)
    (hset : sole_prefix scope.streams = some leading) {stored : Name}
    (hstored : scope.allows_stream stored = true) :
    (∃ recovered, scope.resolve .stream (scope.strip .stream stored) = .ok recovered ∧
      canonical recovered = canonical stored) ↔ StreamUnder leading stored := by
  have hlead := (allows_stream_iff hset stored).1 hstored
  have hstrip : scope.strip .stream stored =
      (unrooted stored).drop (canonical leading).length := by
    rw [strip, if_neg (by simp [hauto]), show sole_prefix (scope.set .stream) = _ from
      hset]
    dsimp only
    rw [ strip_canonical_prefix, if_pos ( isPrefixOf_iff_prefix.2 hlead), Option.getD_some]
  generalize hrest : (unrooted stored).drop (canonical leading).length = rest at hstrip
  -- the stored name is a spelling of the prefix and the rest
  have hsplit : unrooted stored =
      (unrooted stored).take (canonical leading).length ++ rest := by
    rw [← hrest, take_append_drop]
  have hfront : ((unrooted stored).take (canonical leading).length).map separator =
      canonical leading := by
    rw [map_take]
    exact (prefix_iff_eq_take.1 hlead).symm
  have hstored : canonical stored = canonical leading ++ rest.map separator := by
    rw [← hfront, ← map_append, ← hsplit, canonical_eq_map]
  have hrecovered : (∃ recovered, scope.resolve .stream (scope.strip .stream stored) =
      .ok recovered ∧ canonical recovered = canonical stored) ↔
      canonical (join leading rest) = canonical leading ++ rest.map separator := by
    rw [hstrip, resolve_eq hauto .stream hset, hstored]
    constructor
    · rintro ⟨recovered, heq, hcanonical⟩
      cases heq
      exact hcanonical
    · intro h
      exact ⟨_, rfl, h⟩
  rw [hrecovered, canonical_join_iff]
  constructor
  · intro h
    exact ⟨_, rest, hsplit, hfront, h⟩
  · rintro ⟨front, rest', hsplit', hfront', h⟩
    have hlength : front.length = (canonical leading).length := by
      rw [← hfront', length_map]
    have hsame : rest' = rest := by
      rw [← hrest, hsplit', ← hlength, drop_left]
    rwa [← hsame]

/-- A matched group is recovered from the shown name exactly if it continues the prefix. -/
theorem group_recovered_iff (hauto : scope.auto_prefix = true)
    (hset : sole_prefix scope.groups = some leading) {stored : Name}
    (hstored : scope.groups.matches_name stored = true) :
    scope.resolve .group (scope.strip .group stored) = .ok stored ↔ GroupUnder leading stored := by
  obtain ⟨rest, rfl⟩ := (matches_group_iff hset stored).1 hstored
  have hstrip : scope.strip .group (leading ++ rest) = rest := by
    rw [strip, if_neg (by simp [hauto]), show sole_prefix (scope.set .group) = _ from
      hset]
    dsimp only
    rw [strip_spelled, if_pos ( isPrefixOf_iff_prefix.2 (prefix_append ..)),
      Option.getD_some, drop_left]
  rw [hstrip, resolve_eq hauto .group hset, Except.ok.injEq, join_eq_iff]
  constructor
  · intro h
    exact ⟨rest, rfl, h⟩
  · rintro ⟨rest', heq, h⟩
    rwa [append_cancel_left heq]

end Scopes

/-- A client's names resolve to matched ones; of the matched stored names, exactly those that
continue the prefix are recovered from what lists show. -/
theorem auto_prefix_is_a_view (issuer : Scope) (new_id : Name) (scope : Scope)
    (hissue : check_issue issuer new_id scope = .ok ()) (hauto : scope.auto_prefix = true) :
    ∃ streams groups, ResourceSet.sole_prefix scope.streams = some streams ∧
      ResourceSet.sole_prefix scope.groups = some groups ∧
      (∀ client, ∃ stored, scope.resolve .stream client = .ok stored ∧
        scope.allows_stream stored = true) ∧
      (∀ client, ∃ stored, scope.resolve .group client = .ok stored ∧
        scope.groups.matches_name stored = true) ∧
      (∀ stored, scope.allows_stream stored = true →
        ((∃ recovered, scope.resolve .stream (scope.strip .stream stored) = .ok recovered ∧
          Auth.canonical recovered = Auth.canonical stored) ↔ StreamUnder streams stored)) ∧
      ∀ stored, scope.groups.matches_name stored = true →
        (scope.resolve .group (scope.strip .group stored) = .ok stored ↔
          GroupUnder groups stored) := by
  have hprefixed : scope.prefixed = true := by
    have hcontains := contains_of_check_issue hissue
    obtain ⟨-, hlast⟩ := Bool.and_eq_true_iff.1 hcontains
    rwa [hauto, Bool.not_true, Bool.false_or] at hlast
  obtain ⟨hstreams, hgroups⟩ := Bool.and_eq_true_iff.1 hprefixed
  obtain ⟨streams, hstreams⟩ := Option.isSome_iff_exists.1 hstreams
  obtain ⟨groups, hgroups⟩ := Option.isSome_iff_exists.1 hgroups
  refine ⟨streams, groups, hstreams, hgroups, fun client => ?_, fun client => ?_,
    fun stored => stream_recovered_iff hauto hstreams,
    fun stored => group_recovered_iff hauto hgroups⟩
  · exact ⟨_, resolve_eq hauto .stream hstreams client,
      (allows_stream_iff hstreams _).2 (canonical_prefix_join streams client)⟩
  · exact ⟨_, resolve_eq hauto .group hgroups client,
      (matches_group_iff hgroups _).2 (leading_prefix_join groups client)⟩

/-- The scope of a tenant under one stream prefix and one group prefix. -/
def tenant (streams groups : Name) : Scope :=
  { streams := ⟨[.leading streams]⟩
    groups := ⟨[.leading groups]⟩
    access := { stream := ⟨true, true⟩, group := ⟨true, true⟩ }
    audiences := [.pico]
    auto_prefix := true }

/-- A scope over all names that may issue tokens. -/
def operator : Scope :=
  { streams := ⟨[.leading []]⟩
    tokens := ⟨[.leading []]⟩
    groups := ⟨[.leading []]⟩
    access := ⟨⟨true, true⟩, ⟨true, true⟩, ⟨true, true⟩, ⟨true, true⟩⟩
    audiences := [.pico, .kafka] }

/-- With prefixes that end with a separator, a group comes back as itself. -/
theorem auto_prefix_is_a_view_of_tenant :
    (tenant ['/', 'a', '/'] ['a', '/']).resolve .group
      ((tenant ['/', 'a', '/'] ['a', '/']).strip .group ['a', '/', 'w']) = .ok ['a', '/', 'w'] := by
  obtain ⟨streams, groups, -, hgroups, -, -, -, hview⟩ := auto_prefix_is_a_view operator ['t']
    (tenant ['/', 'a', '/'] ['a', '/']) (by decide +kernel) rfl
  obtain rfl : groups = ['a', '/'] := Option.some.inj hgroups.symm
  exact (hview ['a', '/', 'w'] (by decide +kernel)).2 ⟨['w'], rfl, by simp [Continues]⟩

/-- A sibling whose name starts the same way is matched and shown as something else; and a doubled
separator is lost. -/
theorem sibling_shown_under_prefix :
    check_issue operator ['t'] (tenant ['/', 'a'] ['a']) = .ok () ∧
    (tenant ['/', 'a'] ['a']).allows .read (some ['/', 'a', 'b', '/', 'x']) = true ∧
    (tenant ['/', 'a'] ['a']).strip .stream ['/', 'a', 'b', '/', 'x'] = ['b', '/', 'x'] ∧
    (tenant ['/', 'a'] ['a']).resolve .stream ['b', '/', 'x'] =
      .ok ['/', 'a', '/', 'b', '/', 'x'] ∧
    (tenant ['/', 'a'] ['a']).allows .consume (some ['a', 'b']) = true ∧
    (tenant ['/', 'a'] ['a']).resolve .group ((tenant ['/', 'a'] ['a']).strip .group ['a', 'b']) =
      .ok ['a', '/', 'b'] ∧
    (tenant ['/', 'a', '/'] ['a', '/']).resolve .group
      ((tenant ['/', 'a', '/'] ['a', '/']).strip .group ['a', '/', '/', 'w']) =
        .ok ['a', '/', 'w'] := by
  decide +kernel

end Scope

end PicoMq.Auth
