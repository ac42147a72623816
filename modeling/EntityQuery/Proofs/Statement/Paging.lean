import EntityQuery.Proofs.Statement.Direct

/-!
# Pages and statements

A page is a number of entities to skip and a number of entities to take at most. Main result: unless
a page is empty, it has no part in the statement or in the error of a request, and neither has the
limit for pages. The page stands beside the statement, within that limit.
-/

namespace EntityQuery

/-- The request for another page of the same entities. -/
def Request.onPage (r : Request) (skip top : Option UInt32) : Request := { r with skip, top }

/-- The resolved request for another page of the same entities. -/
def ResolvedRequest.onPage (r : ResolvedRequest) (skip top : Option UInt32) : ResolvedRequest :=
  { r with skip, top }

/-- The settings with another limit for pages. -/
def Config.withPageLimit (config : Config) (limit : Option UInt32) : Config :=
  { config with maxPageSize := limit }

/-- Valid settings allow for pages that hold something. -/
theorem Config.maxPageSize_ne_zero {config : Config} (h : config.validate = .ok ()) :
    config.maxPageSize ≠ some 0 := by
  simp only [validate, Bind.bind, bind_eq_ok_iff] at h
  obtain ⟨_, _, _, _, h⟩ := h
  split at h
  · cases h
  · split at h
    · cases h
    · assumption

/-- What a request is resolved to does not depend on its page, the page itself apart. -/
theorem Model.resolve_onPage (m : Model) (r : Request) (skip top : Option UInt32) :
    m.resolve (r.onPage skip top) = (m.resolve r).map (·.onPage skip top) := by
  show _ = (·.onPage skip top) <$> m.resolve r
  unfold resolve Request.onPage
  -- the page is only handed over at the end, after all steps that may fail
  cases m.entitySet? r.entitySet with
  | none => rfl
  | some set =>
    cases r.filter with
    | none => cases r.orderBy <;> simp only [map_bind, map_pure] <;> rfl
    | some filter => cases r.orderBy <;> simp only [map_bind, map_pure] <;> rfl

/-- The text of a statement does not depend on the page or on the limit for pages. -/
theorem ResolvedRequest.directStatement_onPage (config : Config) (limit : Option UInt32)
    (r : ResolvedRequest) (skip top : Option UInt32) :
    (r.onPage skip top).directStatement (config.withPageLimit limit) = r.directStatement config :=
  rfl

namespace Compiler

/-- The statement of a request, or why it has none. -/
def textFor (config : Config) (m : Model) (r : Request) : Except CompileError String :=
  ((m.resolve r).mapError .request).bind fun q => (q.directStatement config).mapError .render

theorem textFor_onPage (config : Config) (limit : Option UInt32) (m : Model) (r : Request)
    (skip top : Option UInt32) :
    textFor (config.withPageLimit limit) m (r.onPage skip top) = textFor config m r := by
  rw [textFor, textFor, m.resolve_onPage]
  cases m.resolve r with
  | error e => rfl
  | ok q =>
    exact congrArg (Except.mapError CompileError.render)
      (q.directStatement_onPage config limit skip top)

/-- The plan for a request with a statement. -/
def planFor (c : Compiler) (r : Request) (text : String) : Plan :=
  if r.count then .statement text none none
  else .statement text r.skip ([r.top, c.config.maxPageSize].filterMap id).min?

theorem pageSize_eq (top limit : Option UInt32) :
    pageSize top limit = ([top, limit].filterMap id).min? := by
  cases top <;> cases limit <;> rfl

/-- A resolved request has the plan for its statement, unless it asks for an empty page. -/
theorem planOf_eq (c : Compiler) {m : Model} {r : Request} {q : ResolvedRequest}
    (hq : q.ComesFrom m r) (htop : r.top ≠ some 0) :
    c.planOf q = ((q.directStatement c.config).mapError .render).map (c.planFor r) := by
  have hstatement := @StatementContext.map_statement_ofRequest? c.config q (hq.top ▸ htop)
  unfold planOf
  cases hdirect : q.directStatement c.config with
  | error e =>
    rw [hdirect] at hstatement
    rw [map_eq_error_iff.mp hstatement]
    rfl
  | ok text =>
    rw [hdirect] at hstatement
    obtain ⟨context?, hcontext, hsome⟩ := map_eq_ok_iff.mp hstatement
    obtain ⟨context, rfl, htext⟩ := Option.map_eq_some_iff.mp hsome
    rw [hcontext]
    show (context.statement.mapError CompileError.statement).bind _ = .ok (c.planFor r text)
    rw [htext, hq.skip, hq.top, hq.count, pageSize_eq, planFor]
    show (if r.count then _ else _) = Except.ok _
    split <;> rfl

/-- A request that does not ask for an empty page has the plan for its statement, or the error of
that. -/
theorem compile_eq (c : Compiler) (m : Model) {r : Request} (htop : r.top ≠ some 0) :
    c.compile m r = (textFor c.config m r).map (c.planFor r) := by
  rw [compile, if_neg htop, textFor]
  cases hresolve : m.resolve r with
  | error e => rfl
  | ok q => exact c.planOf_eq (Model.comesFrom_of_resolve hresolve) htop

/-- The plan for a statement is that statement, with some page. -/
theorem exists_page (c : Compiler) (r : Request) (text : String) :
    ∃ skip top, c.planFor r text = .statement text skip top := by
  unfold planFor
  split
  · exact ⟨_, _, rfl⟩
  · exact ⟨_, _, rfl⟩

/-- A plan has a statement unless the request asks for an empty page. -/
theorem compile_eq_empty_iff {c : Compiler} {m : Model} {r : Request} :
    c.compile m r = .ok .empty ↔ r.top = some 0 := by
  constructor
  · intro h
    refine Classical.byContradiction fun htop => ?_
    rw [c.compile_eq m htop] at h
    obtain ⟨text, _, hplan⟩ := map_eq_ok_iff.mp h
    obtain ⟨skip, top, hpage⟩ := c.exists_page r text
    rw [hpage] at hplan
    cases hplan
  · intro htop
    rw [compile, if_pos htop]

/-- No page is empty whose size is taken from sizes that are not zero. -/
theorem min?_ne_zero {sizes : List (Option UInt32)} (h : some 0 ∉ sizes) :
    (sizes.filterMap id).min? ≠ some 0 := by
  intro hmin
  obtain ⟨size, hsize, hid⟩ := List.mem_filterMap.mp (List.min?_mem hmin)
  exact h (hid ▸ hsize)

/-- The page beside a statement: none for a count, else what is skipped is what the request says,
and the size is the least of those that the request and the settings say. -/
theorem page_of_compile {c : Compiler} {m : Model} {r : Request} {text : String}
    {skip top : Option UInt32} (h : c.compile m r = .ok (.statement text skip top)) :
    (r.count = true → skip = none ∧ top = none) ∧
    (r.count = false → skip = r.skip ∧ top = ([r.top, c.config.maxPageSize].filterMap id).min?) ∧
    top ≠ some 0 := by
  have htop : r.top ≠ some 0 := by
    intro htop
    rw [compile_eq_empty_iff.mpr htop] at h
    cases h
  rw [c.compile_eq m htop] at h
  obtain ⟨text', _, hplan⟩ := map_eq_ok_iff.mp h
  unfold planFor at hplan
  split at hplan
  · next hcount =>
    cases hplan
    exact ⟨fun _ => ⟨rfl, rfl⟩, fun h => absurd (hcount.symm.trans h) (by decide), by simp⟩
  · next hcount =>
    cases hplan
    have hlimit := Config.maxPageSize_ne_zero c.valid
    have hsizes : some 0 ∉ [r.top, c.config.maxPageSize] := by simp [htop.symm, hlimit.symm]
    exact ⟨fun h => absurd h hcount, fun _ => ⟨rfl, rfl⟩, min?_ne_zero hsizes⟩

/-- Two compilers whose settings differ at most in the limit for pages, and two requests that differ
at most in their pages, neither of them empty, have the same error or plans with the same statement.
A plan is empty exactly if the request asks for an empty page. Beside every other plan stands the
page: none for a count, else what is skipped is what the request says, and the size is the least of
those that the request and the settings say, and never zero. -/
theorem compile_apart_from_page (m : Model) :
    (∀ (c c' : Compiler) (r r' : Request),
      c'.config = c.config.withPageLimit c'.config.maxPageSize →
      r' = r.onPage r'.skip r'.top → r.top ≠ some 0 → r'.top ≠ some 0 →
      (∃ e, c.compile m r = .error e ∧ c'.compile m r' = .error e) ∨
      ∃ text skip top skip' top', c.compile m r = .ok (.statement text skip top) ∧
        c'.compile m r' = .ok (.statement text skip' top')) ∧
    (∀ (c : Compiler) (r : Request), c.compile m r = .ok .empty ↔ r.top = some 0) ∧
    ∀ (c : Compiler) (r : Request) (text : String) (skip top : Option UInt32),
      c.compile m r = .ok (.statement text skip top) →
      (r.count = true → skip = none ∧ top = none) ∧
      (r.count = false → skip = r.skip ∧ top = ([r.top, c.config.maxPageSize].filterMap id).min?) ∧
      top ≠ some 0 := by
  refine ⟨fun c c' r r' hconfig hrequest htop htop' => ?_, fun c r => compile_eq_empty_iff,
    fun c r text skip top => page_of_compile⟩
  have htext : textFor c'.config m r' = textFor c.config m r := by
    rw [hconfig, hrequest]
    exact textFor_onPage _ _ m r _ _
  rw [c.compile_eq m htop, c'.compile_eq m htop', htext]
  cases textFor c.config m r with
  | error e => exact .inl ⟨e, rfl, rfl⟩
  | ok text =>
    obtain ⟨skip, top, hpage⟩ := c.exists_page r text
    obtain ⟨skip', top', hpage'⟩ := c'.exists_page r' text
    exact .inr ⟨text, skip, top, skip', top', congrArg Except.ok hpage, congrArg Except.ok hpage'⟩

/-- A compiler without a limit for pages. -/
def unlimited : Compiler := ⟨Config.standard, rfl⟩

/-- A compiler that allows for ten entities on a page. -/
def limited : Compiler := ⟨Config.standard.withPageLimit (some 10), rfl⟩

/-- The statement for all hosts of a match is also that for a part of them, which the request wants
larger than the settings allow. -/
theorem compile_apart_from_page_hostRequest :
    unlimited.compile leagueModel hostRequest = .ok (.statement hostStatement none none) ∧
    limited.compile leagueModel (hostRequest.onPage (some 5) (some 20)) =
      .ok (.statement hostStatement (some 5) (some 10)) ∧
    limited.compile leagueModel (hostRequest.onPage (some 5) (some 0)) = .ok .empty := by
  obtain ⟨htext, hempty, hpage⟩ := compile_apart_from_page leagueModel
  obtain ⟨plan, hplan, htest⟩ := @exists_ok_of_any _ _ (unlimited.compile leagueModel hostRequest)
    (· == .statement hostStatement none none) (by decide +kernel)
  rw [beq_iff_eq.mp htest] at hplan
  refine ⟨hplan, ?_, (hempty _ _).mpr rfl⟩
  rcases htext unlimited limited hostRequest (hostRequest.onPage (some 5) (some 20)) rfl rfl
    (by decide)
    (by decide) with ⟨_, herror, _⟩ | ⟨text, _, _, skip, top, hsame, hlimited⟩
  · rw [hplan] at herror
    cases herror
  · rw [hplan] at hsame
    cases hsame
    obtain ⟨_, hsizes, _⟩ := hpage _ _ _ _ _ hlimited
    obtain ⟨rfl, rfl⟩ := hsizes rfl
    exact hlimited

end Compiler

end EntityQuery
