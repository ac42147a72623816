import EntityQuery.Proofs.Expr.Steps
import EntityQuery.Proofs.Request.Keys
import EntityQuery.Request.Resolved

/-!
# What a resolved request comes from

Where a request is resolved, each of its parts was: the start is a declared type, keys and hops
follow the predicates and the segments of the request, and filter and sort keys were read for the
target.
-/

namespace EntityQuery

/-- How the parts of a resolved request come from a request. -/
structure ResolvedRequest.ComesFrom (m : Model) (r : Request) (q : ResolvedRequest) : Prop where
  start : q.start ∈ m.entityTypes
  keys : resolveKeys q.start r.keyPredicates = .ok q.keys
  hops : m.resolveHops q.start r.navigation = .ok q.hops
  filter : ∀ e ∈ q.filter, ∃ input, parseFilter m q.target input = .ok e
  orderBy : q.orderBy = [] ∨ ∃ input, parseOrderBy m q.target input = .ok q.orderBy
  select : q.target.resolveSelect r.select = .ok q.select
  skip : q.skip = r.skip
  top : q.top = r.top
  count : q.count = r.count

namespace Model

theorem mem_of_requireEntityType {m : Model} {name : String} {t : EntityType}
    (h : m.requireEntityType name = .ok t) : t ∈ m.entityTypes := by
  unfold requireEntityType at h
  split at h
  · next found =>
    cases h
    exact List.mem_of_find?_eq_some found
  · cases h

/-- A hop leads along a declared navigation property to a declared type, with a key of that type. -/
structure IsHop (m : Model) (hop : Hop) : Prop where
  navigation : ∃ t ∈ m.entityTypes, hop.navigation ∈ t.navigationProperties
  target : hop.target ∈ m.entityTypes
  keys : ∃ predicates, resolveKeys hop.target predicates = .ok hop.keys

variable {m : Model}

private theorem of_resolveHop {current : EntityType} (hc : current ∈ m.entityTypes)
    {segment : NavigationSegment} {hop : Hop} (h : m.resolveHop current segment = .ok hop) :
    m.IsHop hop ∧ (segment.keyPredicates ≠ [] → hop.keys ≠ []) := by
  unfold resolveHop at h
  cases hnavigation : current.navigationProperty? segment.property with
  | none =>
    rw [hnavigation] at h
    cases h
  | some navigation =>
    simp only [hnavigation, Bind.bind, bind_eq_ok_iff] at h
    obtain ⟨_, ⟨⟩, target, htarget, keys, hkeys, ⟨⟩⟩ := h
    have hkeys : resolveKeys target segment.keyPredicates = .ok keys := mapError_eq_ok_iff.mp hkeys
    have hmem := List.mem_of_find?_eq_some hnavigation
    exact ⟨⟨⟨current, hc, hmem⟩, mem_of_requireEntityType htarget, segment.keyPredicates, hkeys⟩,
      ne_nil_of_resolveKeys hkeys⟩

/-- Every segment becomes a hop, and a segment with key predicates a hop with a key. -/
theorem of_resolveHops {current : EntityType} (hc : current ∈ m.entityTypes)
    {segments : List NavigationSegment} {hops : List Hop}
    (h : m.resolveHops current segments = .ok hops) :
    (∀ hop ∈ hops, m.IsHop hop) ∧
      ((∃ segment ∈ segments, segment.keyPredicates ≠ []) → ∃ hop ∈ hops, hop.keys ≠ []) := by
  induction segments generalizing current hops with
  | nil =>
    cases h
    exact ⟨fun _ hhop => absurd hhop List.not_mem_nil, fun ⟨_, hs, _⟩ => absurd hs List.not_mem_nil⟩
  | cons segment rest ih =>
    simp only [resolveHops, Bind.bind, bind_eq_ok_iff] at h
    obtain ⟨hop, hhop, others, hothers, ⟨⟩⟩ := h
    obtain ⟨hfirst, hkeys⟩ := of_resolveHop hc hhop
    obtain ⟨hrest, hkeysRest⟩ := ih hfirst.target hothers
    refine ⟨List.forall_mem_cons.mpr ⟨hfirst, hrest⟩, ?_⟩
    rintro ⟨s, hs, hne⟩
    rcases List.mem_cons.mp hs with rfl | hs
    · exact ⟨hop, List.mem_cons_self, hkeys hne⟩
    · obtain ⟨other, hother, hne⟩ := hkeysRest ⟨s, hs, hne⟩
      exact ⟨other, List.mem_cons_of_mem _ hother, hne⟩

theorem length_of_resolveHops {current : EntityType} {segments : List NavigationSegment}
    {hops : List Hop} (h : m.resolveHops current segments = .ok hops) :
    hops.length = segments.length := by
  induction segments generalizing current hops with
  | nil =>
    cases h
    rfl
  | cons segment rest ih =>
    simp only [resolveHops, Bind.bind, bind_eq_ok_iff] at h
    obtain ⟨hop, _, others, hothers, ⟨⟩⟩ := h
    exact congrArg (· + 1) (ih hothers)

theorem comesFrom_of_resolve {r : Request} {q : ResolvedRequest}
    (h : m.resolve r = .ok q) : q.ComesFrom m r := by
  unfold resolve at h
  cases hset : m.entitySet? r.entitySet with
  | none =>
    rw [hset] at h
    cases h
  | some set =>
    simp only [hset, Bind.bind, bind_eq_ok_iff] at h
    obtain ⟨_, _, start, hstart, keys, hkeys, hops, hhops, h⟩ := h
    have hkeys : resolveKeys start r.keyPredicates = .ok keys := mapError_eq_ok_iff.mp hkeys
    have hbuild {filter : Option Expr} {orderBy : List OrderItem} {select : List Property}
        (hf : ∀ e ∈ filter, ∃ input, parseFilter m (Hop.targetOf start hops) input = .ok e)
        (ho : orderBy = [] ∨ ∃ input, parseOrderBy m (Hop.targetOf start hops) input = .ok orderBy)
        (hs : (Hop.targetOf start hops).resolveSelect r.select = .ok select) :
        ResolvedRequest.ComesFrom m r
          ⟨start, keys, hops, filter, orderBy, select, r.skip, r.top, r.count⟩ :=
      ⟨mem_of_requireEntityType hstart, hkeys, hhops, hf, ho, hs, rfl, rfl, rfl⟩
    -- With a filter or without, and then with sort keys or without.
    split at h
    · simp only [bind_eq_ok_iff, map_eq_ok_iff, mapError_eq_ok_iff] at h
      obtain ⟨_, ⟨e, he, rfl⟩, h⟩ := h
      have hf : ∀ e' ∈ some e, ∃ input, parseFilter m (Hop.targetOf start hops) input = .ok e' := by
        rintro _ ⟨⟩
        exact ⟨_, he⟩
      split at h
      · simp only [bind_eq_ok_iff, mapError_eq_ok_iff] at h
        obtain ⟨orderBy, ho, select, hs, ⟨⟩⟩ := h
        exact hbuild hf (.inr ⟨_, ho⟩) hs
      · simp only [bind_eq_ok_iff] at h
        obtain ⟨_, ⟨⟩, select, hs, ⟨⟩⟩ := h
        exact hbuild hf (.inl rfl) hs
    · simp only [bind_eq_ok_iff] at h
      obtain ⟨_, ⟨⟩, h⟩ := h
      split at h
      · simp only [bind_eq_ok_iff, mapError_eq_ok_iff] at h
        obtain ⟨orderBy, ho, select, hs, ⟨⟩⟩ := h
        exact hbuild (fun _ => nofun) (.inr ⟨_, ho⟩) hs
      · simp only [bind_eq_ok_iff] at h
        obtain ⟨_, ⟨⟩, select, hs, ⟨⟩⟩ := h
        exact hbuild (fun _ => nofun) (.inl rfl) hs

end Model

namespace ResolvedRequest.ComesFrom

variable {m : Model} {r : Request} {q : ResolvedRequest}

theorem isHop (h : q.ComesFrom m r) : ∀ hop ∈ q.hops, m.IsHop hop :=
  (Model.of_resolveHops h.start h.hops).1

/-- The target of a request is declared. -/
theorem target (h : q.ComesFrom m r) : q.target ∈ m.entityTypes := by
  unfold ResolvedRequest.target Hop.targetOf
  split
  · next hop hlast => exact (h.isHop hop (List.mem_of_getLast? hlast)).target
  · exact h.start

/-- Selected properties belong to the target. -/
theorem mem_of_select (h : q.ComesFrom m r) : ∀ p ∈ q.select, p ∈ q.target.properties := by
  have hrequire {names : List String} {properties : List Property}
      (hn : q.target.requireProperties names = .ok properties) :
      ∀ p ∈ properties, p ∈ q.target.properties := by
    induction names generalizing properties with
    | nil =>
      cases hn
      exact fun _ hp => absurd hp List.not_mem_nil
    | cons name rest ih =>
      unfold EntityType.requireProperties at hn
      split at hn
      · next p hp =>
        simp only [Bind.bind, bind_eq_ok_iff] at hn
        obtain ⟨others, hothers, ⟨⟩⟩ := hn
        exact List.forall_mem_cons.mpr ⟨List.mem_of_find?_eq_some hp, ih hothers⟩
      · cases hn
  have hselect := h.select
  unfold EntityType.resolveSelect at hselect
  split at hselect
  · rw [← Except.ok.inj hselect]
    exact fun _ hp => absurd hp List.not_mem_nil
  · exact hrequire hselect

end ResolvedRequest.ComesFrom

end EntityQuery
