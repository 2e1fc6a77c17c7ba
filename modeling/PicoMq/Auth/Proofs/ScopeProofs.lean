import PicoMq.Auth.Scope

/-!
# Proofs: tokens only narrow

Each part of a scope is compared in the way it is used, so the comparison of two scopes is one of
the sets of their permissions.
-/

namespace PicoMq.Auth

open Bool List ResourceSet

/-! ## Names -/

namespace ResourceMatcher

theorem matches_of_contains {p c : ResourceMatcher} (h : p.contains_matcher c = true) {name : Name}
    (hc : c.matches_name name = true) : p.matches_name name = true := by
  cases c with
  | exact e =>
    have hname : name = e := of_decide_eq_true hc
    subst hname
    cases p with
    | exact a => exact decide_eq_true (of_decide_eq_true h).symm
    | leading p => exact h
  | leading c =>
    cases p with
    | exact a => cases h
    | leading p =>
      exact isPrefixOf_iff_prefix.2
        (( isPrefixOf_iff_prefix.1 h).trans ( isPrefixOf_iff_prefix.1 hc))

theorem matches_stream_eq (m : ResourceMatcher) (name : Name) :
    m.matches_stream name = m.canonical.matches_name (Auth.canonical name) := by
  cases m with
  | exact e =>
    show decide (Auth.canonical e = Auth.canonical name) = decide (Auth.canonical name = _)
    exact decide_eq_decide.2 eq_comm
  | leading p => rfl

end ResourceMatcher

namespace ResourceSet

theorem matches_of_contains {set child : ResourceSet} (h : set.contains_set child = true)
    {name : Name} (hchild : child.matches_name name = true) : set.matches_name name = true := by
  obtain ⟨c, hc, hmatch⟩ := any_eq_true.1 hchild
  rw [contains_set] at h
  split_ifs at h with hempty
  · rw [List.isEmpty_iff] at hempty
    rw [hempty] at hc
    cases hc
  · obtain ⟨p, hp, hcontains⟩ := any_eq_true.1 (all_eq_true.1 h c hc)
    exact any_eq_true.2 ⟨p, hp, ResourceMatcher.matches_of_contains hcontains hmatch⟩

end ResourceSet

namespace Scope

variable {parent child scope : Scope} {op : Operation} {now_ms : ℤ}

theorem allows_stream_eq (scope : Scope) (name : Name) :
    scope.allows_stream name = scope.streams.canonical.matches_name (Auth.canonical name) := by
  unfold allows_stream ResourceSet.matches_name ResourceSet.canonical
  rw [any_map]
  congr 1
  funext m
  exact m.matches_stream_eq name

/-! ## Operations -/

theorem any_right_of_allows (h : scope.allows_operation op = true) :
    scope.any_right_on op.resource = true := by
  rcases or_eq_true_iff.1 h with hplain | hdescribes
  · rcases or_eq_true_iff.1 hplain with hop | haccess
    · refine or_eq_true_iff.2 (.inr (any_eq_true.2 ⟨op, ?_, decide_eq_true rfl⟩))
      exact contains_iff_mem.1 hop
    · refine or_eq_true_iff.2 (.inl ?_)
      unfold ReadWrite.allows at haccess
      unfold ReadWrite.any
      split_ifs at haccess
      · rw [haccess, Bool.or_true]
      · rw [haccess, Bool.true_or]
  · exact (and_eq_true_iff.1 hdescribes).2

theorem allows_of_contains_rw {parent child : ReadWrite} (h : contains_rw parent child = true)
    {write : Bool} (hchild : child.allows write = true) : parent.allows write = true := by
  obtain ⟨hread, hwrite⟩ := and_eq_true_iff.1 h
  unfold ReadWrite.allows at hchild ⊢
  split_ifs at hchild ⊢
  · rw [hchild] at hwrite
    exact hwrite
  · rw [hchild] at hread
    exact hread

theorem any_of_contains_rw {parent child : ReadWrite} (h : contains_rw parent child = true)
    (hchild : child.any = true) : parent.any = true := by
  obtain ⟨hread, hwrite⟩ := and_eq_true_iff.1 h
  rcases or_eq_true_iff.1 hchild with hc | hc
  · rw [hc] at hread
    exact or_eq_true_iff.2 (.inl hread)
  · rw [hc] at hwrite
    exact or_eq_true_iff.2 (.inr hwrite)

theorem contains_rw_of {parent child : Access} (h : contains_access parent child = true)
    (resource : Option Resource) : contains_rw (parent.of resource) (child.of resource) = true := by
  simp only [contains_access, and_eq_true] at h
  obtain ⟨⟨⟨hstream, htokens⟩, hgroup⟩, hadmin⟩ := h
  rcases resource with _ | resource
  · exact hadmin
  · cases resource with
    | stream => exact hstream
    | token => exact htokens
    | group => exact hgroup

theorem allows_operation_of_contains (haccess : contains_access parent.access child.access = true)
    (hops : ∀ op ∈ child.ops, parent.allows_operation op = true)
    (h : child.allows_operation op = true) : parent.allows_operation op = true := by
  rcases or_eq_true_iff.1 h with hplain | hdescribes
  · rcases or_eq_true_iff.1 hplain with hop | hallowed
    · exact hops op (contains_iff_mem.1 hop)
    · have hparent := allows_of_contains_rw (contains_rw_of haccess op.resource) hallowed
      exact or_eq_true_iff.2 (.inl (or_eq_true_iff.2 (.inr hparent)))
  · obtain ⟨hdescribes, hright⟩ := and_eq_true_iff.1 hdescribes
    have hparent : parent.any_right_on op.resource = true := by
      rcases or_eq_true_iff.1 hright with hany | hother
      · exact or_eq_true_iff.2
          (.inl (any_of_contains_rw (contains_rw_of haccess op.resource) hany))
      · obtain ⟨other, hmem, hresource⟩ := any_eq_true.1 hother
        rw [← of_decide_eq_true hresource]
        exact any_right_of_allows (hops other hmem)
    exact or_eq_true_iff.2 (.inr (and_eq_true_iff.2 ⟨hdescribes, hparent⟩))

/-! ## Whole scopes -/

theorem not_expired_of_contains {parent child : Scope}
    (h : contains_expiry parent.expires_at_ms child.expires_at_ms = true)
    (hchild : child.is_expired now_ms = false) : parent.is_expired now_ms = false := by
  unfold is_expired at hchild ⊢
  cases hp : parent.expires_at_ms with
  | none => rfl
  | some p =>
    rw [hp] at h
    cases hc : child.expires_at_ms with
    | none =>
      rw [hc] at h
      cases h
    | some c =>
      rw [hc] at h hchild
      have hle : c ≤ p := of_decide_eq_true h
      have hlt : ¬c ≤ now_ms := of_decide_eq_false hchild
      exact decide_eq_false fun hp => hlt (Int.le_trans hle hp)

/-- All that a contained scope permits is permitted by the scope that contains it. -/
theorem permits_of_contains (h : parent.contains child = true) {name : Option Name}
    {audience : Audience} (hchild : child.Permits op name audience now_ms) :
    parent.Permits op name audience now_ms := by
  simp only [contains, and_eq_true] at h
  obtain ⟨⟨⟨⟨⟨⟨⟨hstreams, htokens⟩, hgroups⟩, haccess⟩, hops⟩, haudiences⟩, hexpiry⟩, -⟩ := h
  obtain ⟨hallows, haudience, hexpired⟩ := hchild
  refine ⟨?_, ?_, not_expired_of_contains hexpiry hexpired⟩
  · obtain ⟨hop, hname⟩ := and_eq_true_iff.1 hallows
    refine and_eq_true_iff.2
      ⟨allows_operation_of_contains haccess (all_eq_true.1 hops) hop, ?_⟩
    cases hresource : op.resource with
    | none => rfl
    | some resource =>
      rw [hresource] at hname
      cases name with
      | none => cases resource <;> cases hname
      | some name =>
        cases resource with
        | stream =>
          change child.allows_stream name = true at hname
          rw [allows_stream_eq] at hname
          show parent.allows_stream name = true
          rw [allows_stream_eq]
          exact matches_of_contains hstreams hname
        | token => exact matches_of_contains htokens hname
        | group => exact matches_of_contains hgroups hname
  · exact all_eq_true.1 haudiences audience (contains_iff_mem.1 haudience)

theorem contains_of_check_issue {issuer requested : Scope} {new_id : Name}
    (h : check_issue issuer new_id requested = .ok ()) : issuer.contains requested = true := by
  unfold check_issue at h
  split_ifs at h with h₁ h₂ h₃ h₄ h₅ hcontains
  exact (not_eq_false _).mp hcontains

theorem Permits.sameName {name name' : Option Name} {audience : Audience}
    (h : scope.Permits op name audience now_ms) (hname : SameName op name name') :
    scope.Permits op name' audience now_ms := by
  rcases hname with rfl | ⟨hstream, hcanonical⟩
  · exact h
  obtain ⟨hallows, hrest⟩ := h
  refine ⟨?_, hrest⟩
  obtain ⟨hop, hmatch⟩ := and_eq_true_iff.1 hallows
  refine and_eq_true_iff.2 ⟨hop, ?_⟩
  rw [hstream] at hmatch ⊢
  cases name with
  | none => cases hmatch
  | some name =>
    obtain ⟨name', rfl, hsame⟩ := Option.map_eq_some_iff.1 hcanonical
    change scope.allows_stream name = true at hmatch
    show scope.allows_stream name' = true
    rw [allows_stream_eq] at hmatch ⊢
    rwa [hsame]

/-- In a chain of issued scopes the last permits nothing that an earlier one does not. -/
theorem tokens_only_narrow (first : Scope) (chain : List Scope)
    (h : (first :: chain).IsChain Issues) (last : Scope)
    (hlast : (first :: chain).getLast? = some last) :
    ∀ scope ∈ first :: chain, ∀ op name name' audience now_ms, SameName op name name' →
      last.Permits op name audience now_ms → scope.Permits op name' audience now_ms := by
  let Narrows : Scope → Scope → Prop := fun parent child =>
    ∀ op name audience now_ms, child.Permits op name audience now_ms →
      parent.Permits op name audience now_ms
  have : IsTrans Scope Narrows := ⟨fun a b c hab hbc op name audience now_ms hc =>
    hab op name audience now_ms (hbc op name audience now_ms hc)⟩
  have hissued : ∀ {a b : Scope}, Issues a b → Narrows a b := by
    rintro a b ⟨new_id, hissue⟩ op name audience now_ms hb
    exact permits_of_contains (contains_of_check_issue hissue) hb
  have hpairs : (first :: chain).Pairwise Narrows := (h.imp fun _ _ => hissued).pairwise
  intro scope hscope op name name' audience now_ms hname hpermits
  suffices hscope : scope.Permits op name audience now_ms from hscope.sameName hname
  obtain ⟨init, hinit⟩ := List.getLast?_eq_some_iff.1 hlast
  rw [hinit] at hpairs hscope
  rcases List.mem_append.1 hscope with hearlier | hself
  · exact (List.pairwise_append.1 hpairs).2.2 scope hearlier last (List.mem_singleton_self last) op
      name audience now_ms hpermits
  · rw [List.mem_singleton.1 hself]
    exact hpermits

/-- A token for one tenant, and from it one that reads one stream: it may also describe that stream.
-/
theorem tokens_only_narrow_to_reader :
    ∃ root tenant reader : Scope, Issues root tenant ∧ Issues tenant reader ∧
      reader.Permits .head (some ['/', 'a', '/', 'b']) .pico 5 ∧
      tenant.Permits .head (some ['a', '.', 'b']) .pico 5 ∧
      root.Permits .head (some ['a', '.', 'b']) .pico 5 := by
  let all : ReadWrite := ⟨true, true⟩
  let root : Scope :=
    { streams := ⟨[.leading []]⟩
      tokens := ⟨[.leading []]⟩
      groups := ⟨[.leading []]⟩
      access := ⟨all, all, all, all⟩
      audiences := [.pico, .durableStreams, .admin, .kafka] }
  let tenant : Scope :=
    { streams := ⟨[.leading ['/', 'a', '/']]⟩
      tokens := ⟨[.leading ['a']]⟩
      access := { stream := all }
      ops := [.issueToken]
      audiences := [.pico, .kafka]
      expires_at_ms := some 20 }
  let reader : Scope :=
    { streams := ⟨[.exact ['a', '.', 'b']]⟩
      ops := [.read]
      audiences := [.pico]
      expires_at_ms := some 10 }
  have htenant : Issues root tenant := ⟨['a'], by decide +kernel⟩
  have hreader : Issues tenant reader := ⟨['a', 'r'], by decide +kernel⟩
  have hhead : reader.Permits .head (some ['/', 'a', '/', 'b']) .pico 5 := by
    unfold Permits
    decide +kernel
  have hchain : [root, tenant, reader].IsChain Issues := by simp [htenant, hreader]
  have hearlier := tokens_only_narrow root [tenant, reader] hchain reader rfl
  have hspelling : SameName .head (some ['/', 'a', '/', 'b']) (some ['a', '.', 'b']) :=
    .inr ⟨rfl, by decide +kernel⟩
  exact ⟨root, tenant, reader, htenant, hreader, hhead,
    hearlier tenant (by simp) .head _ _ .pico 5 hspelling hhead,
    hearlier root (by simp) .head _ _ .pico 5 hspelling hhead⟩

end Scope

end PicoMq.Auth
