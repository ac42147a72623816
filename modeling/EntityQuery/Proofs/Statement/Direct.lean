import EntityQuery.Plan
import EntityQuery.Proofs.Jpql.Forms
import EntityQuery.Proofs.Request.Resolution

/-!
# The text of a statement, directly

The text that a request gets, written down in one piece for statements with and without joins: the
aliases by their numbers, the joins one hop after the other, all key tests and the filter in one
conjunction. Main result: the statement that is built and then assembled has this text, and for a
request whose expressions were read there is such a text.
-/

namespace EntityQuery

/-- The alias of the entity after `n` hops. -/
def Config.aliasAt (config : Config) : Nat → String
  | 0 => config.entityAliasPrefix ++ "1"
  | n + 1 => config.relationshipAliasPrefix ++ (n + 1).repr

/-- Valid settings have prefixes of letters that differ, case aside. -/
theorem Config.of_validate {config : Config} (h : config.validate = .ok ()) :
    Text.isLetters config.entityAliasPrefix = true ∧
      Text.isLetters config.relationshipAliasPrefix = true ∧
      Text.equalIgnoringCase config.entityAliasPrefix config.relationshipAliasPrefix = false := by
  have hletters {text : String} {kind : AliasKind} (h : validatePrefix kind text = .ok ()) :
      Text.isLetters text = true := by
    unfold validatePrefix at h
    split at h
    · assumption
    · cases h
  simp only [validate, Bind.bind, bind_eq_ok_iff] at h
  obtain ⟨_, hentity, _, hrelationship, h⟩ := h
  split at h
  · cases h
  · next hdiffer => exact ⟨hletters hentity, hletters hrelationship, Bool.eq_false_iff.mpr hdiffer⟩

namespace ResolvedRequest

variable (config : Config) (r : ResolvedRequest)

/-- The alias of the entity that the request asks for. -/
def targetAlias : String := config.aliasAt r.hops.length

/-- What the statement selects. -/
def selection : String :=
  if r.count then "COUNT(" ++ r.targetAlias config ++ ")"
  else if r.select.isEmpty then r.targetAlias config
  else ", ".intercalate (r.select.map fun p => r.targetAlias config ++ "." ++ p.internalName)

/-- The joins, each from the alias after the hops before it. -/
def joins : List String :=
  r.hops.zipIdx.map fun (hop, i) =>
    " " ++ config.joinKind.keyword ++ " " ++ config.aliasAt i ++ "." ++
      hop.navigation.internalName ++
      " " ++ config.aliasAt (i + 1)

/-- The tests of all key properties: those of the start, then those of each hop on its own alias. -/
def keyTests : List Jpql :=
  r.keys.map (ResolvedKey.test (config.aliasAt 0)) ++
    r.hops.zipIdx.flatMap fun (hop, i) => hop.keys.map (ResolvedKey.test (config.aliasAt (i + 1)))

/-- The condition that the filter adds, in parentheses exactly if it is a disjunction beside a
key. -/
def filterTexts : Except RenderError (List String) :=
  match r.filter with
  | none => .ok []
  | some filter =>
    (translate (r.targetAlias config) filter).map fun text =>
      [if filter.isDisjunction && !(r.keyTests config).isEmpty then "(" ++ text ++ ")" else text]

/-- The sort keys with their directions; a count has none. -/
def sortTexts : Except RenderError (List String) :=
  if r.count then .ok []
  else r.orderBy.mapM fun item =>
    (translate (r.targetAlias config) item.expression).map fun text => text ++ " " ++
      item.order.keyword

/-- What the statement selects from. -/
def source : String :=
  r.start.internalName ++ " " ++ config.aliasAt 0 ++ String.join (r.joins config)

/-- The text with the given conditions and sort keys. -/
def textWith (conditions sorting : List String) : String :=
  "SELECT " ++ r.selection config ++ " FROM " ++ r.source config ++
    (if conditions.isEmpty then "" else " WHERE " ++ " AND ".intercalate conditions) ++
    (if sorting.isEmpty then "" else " ORDER BY " ++ ", ".intercalate sorting)

/-- The text of the statement: all key tests and the filter must hold. -/
def directStatement : Except RenderError String := do
  let filter ← r.filterTexts config
  let sorting ← r.sortTexts config
  return r.textWith config ((r.keyTests config).map Jpql.text ++ filter) sorting

end ResolvedRequest

/-! ### Conjunctions -/

/-- The conjunction of two conditions, of which either may be missing. -/
private def both : Option String → Option String → Option String
  | none, b => b
  | a, none => a
  | some a, some b => some (a ++ " AND " ++ b)

private theorem conjunction?_append (as bs : List String) :
    conjunction? (as ++ bs) = both (conjunction? as) (conjunction? bs) := by
  cases as with
  | nil => cases bs <;> rfl
  | cons a as =>
    cases bs with
    | nil => simp [conjunction?, both]
    | cons b bs =>
      simp only [conjunction?, List.cons_append, List.isEmpty_cons, Bool.false_eq_true, if_false,
        both]
      rw [← List.cons_append, String.intercalate_append_of_ne_nil (by simp) (by simp)]

@[simp]
private theorem conjunction?_toList (c : Option String) : conjunction? c.toList = c := by
  cases c with
  | none => rfl
  | some text => simp [conjunction?]

private theorem isSome_conjunction? (as : List String) :
    (conjunction? as).isSome = !as.isEmpty := by
  cases as <;> rfl

private theorem filterMap_cons_toList {α β : Type} (f : α → Option β) (x : α) (xs : List α) :
    (x :: xs).filterMap f = (f x).toList ++ xs.filterMap f := by
  cases h : f x <;> simp [h]

/-- Conjunctions within a conjunction need no parentheses. -/
private theorem conjunction?_filterMap {α : Type} (f : α → List String) (xs : List α)
    (others : List String) :
    conjunction? ((xs.filterMap fun x => conjunction? (f x)) ++ others) =
      conjunction? (xs.flatMap f ++ others) := by
  induction xs with
  | nil => rfl
  | cons x xs ih =>
    rw [filterMap_cons_toList, List.flatMap_cons, List.append_assoc, List.append_assoc,
      conjunction?_append, conjunction?_append (f x), conjunction?_toList, ih]

/-! ### Links -/

namespace StatementContext

variable {config : Config}

/-- The link of a hop, from the alias after `i` hops. -/
private def clauseAt (config : Config) (hop : Hop) (i : Nat) : JoinClause :=
  ⟨hop.target.internalName, config.aliasAt i, some hop.navigation.internalName,
    some (config.aliasAt (i + 1)), keyCondition? (config.aliasAt (i + 1)) hop.keys, config.joinKind⟩

/-- The links of hops from the alias after `n` of them on. -/
private theorem hopClauses_eq (hops : List Hop) (entities n : Nat) :
    hopClauses config.joinKind
      ⟨config.entityAliasPrefix, config.relationshipAliasPrefix, entities, n⟩
        (config.aliasAt n) hops =
      ((hops.zipIdx n).map fun (hop, i) => clauseAt config hop i,
        config.aliasAt (n + hops.length)) := by
  induction hops generalizing n with
  | nil => rfl
  | cons hop rest ih =>
    have halias : config.relationshipAliasPrefix ++ (n + 1).repr = config.aliasAt (n + 1) := rfl
    simp only [hopClauses, AliasSupply.nextRelationship, halias, ih (n + 1), List.zipIdx_cons,
      List.map_cons, List.length_cons]
    rw [Nat.add_assoc, Nat.add_comm 1 rest.length]
    rfl

/-- Each link starts at the alias that the link before it binds. -/
private theorem joinTexts_eq (hops : List Hop) (index n : Nat) :
    joinTexts index (config.aliasAt n) ((hops.zipIdx n).map fun (hop, i) => clauseAt config hop i) =
      .ok ((hops.zipIdx n).map fun (hop, i) =>
        " " ++ config.joinKind.keyword ++ " " ++ config.aliasAt i ++ "." ++
          hop.navigation.internalName ++ " " ++ config.aliasAt (i + 1)) := by
  induction hops generalizing index n with
  | nil => rfl
  | cons hop rest ih =>
    have hfollow : (clauseAt config hop n).follow (config.aliasAt n) =
        .ok (hop.navigation.internalName, config.aliasAt (n + 1)) :=
      if_pos rfl
    rw [List.zipIdx_cons, List.map_cons, List.map_cons, joinTexts, hfollow]
    show (do return _ :: (← joinTexts (index + 1) (config.aliasAt (n + 1)) _)) = _
    rw [ih (index + 1) (n + 1)]
    rfl

/-! ### Parts of the context -/

variable {r : ResolvedRequest}

/-- The context with the given filter and sort keys. -/
private def withTexts (config : Config) (r : ResolvedRequest) (filter : List String)
    (sorting : List (String × SortOrder)) : StatementContext where
  shape := if r.hops.isEmpty then .select else .joinSelect
  entityName := r.target.internalName
  entityAlias := r.targetAlias config
  selectExpression := r.selection config
  joinClauses :=
    if r.hops.isEmpty then []
    else
      rootClause config.joinKind (config.aliasAt 0) r ::
        r.hops.zipIdx.map fun (hop, i) => clauseAt config hop i
  whereCondition :=
    conjunction?
      ((if r.hops.isEmpty then (keyCondition? (config.aliasAt 0) r.keys).toList else []) ++ filter)
  orderBy := sorting

private theorem isSome_keyCondition? (qualifier : String) (keys : List ResolvedKey) :
    (keyCondition? qualifier keys).isSome = !keys.isEmpty := by
  rw [keyCondition?, isSome_conjunction?]
  cases keys <;> rfl

private theorem isEmpty_append {α : Type} (as bs : List α) :
    (as ++ bs).isEmpty = (as.isEmpty && bs.isEmpty) := by
  cases as <;> rfl

private theorem any_clauseAt (hops : List (Hop × Nat)) :
    (hops.map fun (hop, i) => clauseAt config hop i).any (fun c => c.joinCondition.isSome) =
      !(hops.flatMap fun (hop, i) =>
        hop.keys.map (ResolvedKey.test (config.aliasAt (i + 1)))).isEmpty := by
  induction hops with
  | nil => rfl
  | cons hop rest ih =>
    have hkeys := isSome_keyCondition? (config.aliasAt (hop.2 + 1)) hop.1.keys
    rw [List.map_cons, List.any_cons, ih, List.flatMap_cons, isEmpty_append, List.isEmpty_map,
      Bool.not_and, ← hkeys]
    rfl

/-- A filter stands beside other conditions exactly if there is a key test. -/
private theorem hasOthers_eq :
    (!(if r.hops.isEmpty then (keyCondition? (config.aliasAt 0) r.keys).toList else []).isEmpty ||
      (if r.hops.isEmpty then []
        else
          rootClause config.joinKind (config.aliasAt 0) r ::
            r.hops.zipIdx.map fun (hop, i) => clauseAt config hop i).any fun c =>
        c.joinCondition.isSome) = !(r.keyTests config).isEmpty := by
  have hroot := isSome_keyCondition? (config.aliasAt 0) r.keys
  rw [ResolvedRequest.keyTests, isEmpty_append, List.isEmpty_map, Bool.not_and, ← hroot,
    ← any_clauseAt]
  cases hhops : r.hops with
  | nil => cases keyCondition? (config.aliasAt 0) r.keys <;> rfl
  | cons hop rest => rfl

private theorem filterTexts_eq : r.filterTexts config =
    match r.filter with
    | some filter =>
      (filterCondition (r.targetAlias config) (!(r.keyTests config).isEmpty) filter).map fun text =>
        [text]
    | none => .ok [] := by
  unfold ResolvedRequest.filterTexts
  cases r.filter with
  | none => rfl
  | some filter =>
    simp only [filterCondition]
    cases translate (r.targetAlias config) filter <;> rfl

private theorem map_sortKeys (qualifier : String) (items : List OrderItem) :
    (sortKeys qualifier items).map
      (fun keys => keys.map fun (text, order) => text ++ " " ++ order.keyword) =
      items.mapM fun item =>
        (translate qualifier item.expression).map fun text => text ++ " " ++
          item.order.keyword := by
  induction items with
  | nil => rfl
  | cons item rest ih =>
    rw [List.mapM_cons, ← ih, sortKeys]
    cases translate qualifier item.expression with
    | error e => rfl
    | ok text => cases sortKeys qualifier rest <;> rfl

/-- The sort keys of the context. -/
private def sortKeysOf (config : Config) (r : ResolvedRequest) :
    Except RenderError (List (String × SortOrder)) :=
  if r.count then .ok [] else sortKeys (r.targetAlias config) r.orderBy

private theorem ofRequest?_eq (htop : r.top ≠ some 0) :
    ofRequest? config r = (do
      let filter ← r.filterTexts config
      let sorting ← sortKeysOf config r
      return some (withTexts config r filter sorting)) := by
  have hroot : config.entityAliasPrefix ++ (0 + 1).repr = config.aliasAt 0 := rfl
  have hhops := @hopClauses_eq config r.hops 1 0
  have hselection : r.selection config =
      if r.count then "COUNT(" ++ r.targetAlias config ++ ")"
      else selectList (r.targetAlias config) r.select := rfl
  rw [Nat.zero_add] at hhops
  rw [filterTexts_eq, ← hasOthers_eq]
  simp only [ofRequest?, if_neg htop, AliasSupply.start, AliasSupply.nextEntity, hroot, hhops,
    withTexts, hselection, ResolvedRequest.targetAlias, sortKeysOf]
  cases r.filter <;> cases r.count <;> rfl

/-- The conditions of the context are all key tests and the filter. -/
private theorem conjunction?_conditions (filter : List String)
    (sorting : List (String × SortOrder)) :
    conjunction? (withTexts config r filter sorting).conditions =
      conjunction? ((r.keyTests config).map Jpql.text ++ filter) := by
  let hopTexts (x : Hop × Nat) : List String :=
    x.1.keys.map fun key => (key.test (config.aliasAt (x.2 + 1))).text
  have htexts : (r.keyTests config).map Jpql.text =
      (r.keys.map fun key => (key.test (config.aliasAt 0)).text) ++
        r.hops.zipIdx.flatMap hopTexts := by
    simp [ResolvedRequest.keyTests, hopTexts, List.map_flatMap, Function.comp_def]
  rw [htexts]
  cases hhops : r.hops with
  | nil => simp [withTexts, conditions, hhops, conjunction?_append, keyCondition?]
  | cons hop rest =>
    -- The key of the start stands in the first link, and the filter behind all links.
    have hconditions : (withTexts config r filter sorting).conditions =
        (keyCondition? (config.aliasAt 0) r.keys).toList ++
          ((r.hops.zipIdx.filterMap fun x => conjunction? (hopTexts x)) ++
            (conjunction? filter).toList) := by
      simp only [withTexts, conditions, hhops, List.isEmpty_cons, Bool.false_eq_true, if_false,
        List.nil_append, filterMap_cons_toList, List.filterMap_map, List.append_assoc]
      rfl
    rw [hconditions, hhops, List.append_assoc, conjunction?_append, conjunction?_filterMap,
      conjunction?_append, conjunction?_append _ (_ ++ filter), conjunction?_append _ filter,
      conjunction?_toList, conjunction?_toList]
    rfl

/-- A chain of links starts at the start of the request and follows its joins. -/
private theorem source_withTexts (filter : List String) (sorting : List (String × SortOrder)) :
    (withTexts config r filter sorting).source = .ok (r.source config) := by
  cases hhops : r.hops with
  | nil =>
    simp [withTexts, source, ResolvedRequest.source, ResolvedRequest.target,
      ResolvedRequest.targetAlias, ResolvedRequest.joins, Hop.targetOf, hhops]
  | cons hop rest =>
    have hjoins := @joinTexts_eq config (hop :: rest) 1 0
    simp only [withTexts, source, ResolvedRequest.source, ResolvedRequest.joins, hhops,
      List.isEmpty_cons, Bool.false_eq_true, if_false, rootClause, hjoins]
    rfl

/-- A context that was built selects from the start of its request and what the joins bind. -/
theorem source_of_ofRequest? {context : StatementContext}
    (h : ofRequest? config r = .ok (some context)) : context.source = .ok (r.source config) := by
  by_cases htop : r.top = some 0
  · rw [ofRequest?, if_pos htop] at h
    cases h
  · simp only [ofRequest?_eq htop, Bind.bind, bind_eq_ok_iff] at h
    obtain ⟨filter, _, sorting, _, ⟨⟩⟩ := h
    exact source_withTexts filter sorting

/-- The statement of the context is the one that is written down directly. -/
private theorem statement_withTexts (filter : List String) (sorting : List (String × SortOrder)) :
    (withTexts config r filter sorting).statement =
      .ok (r.textWith config ((r.keyTests config).map Jpql.text ++ filter)
        (sorting.map fun (text, order) => text ++ " " ++ order.keyword)) := by
  have hwhere : whereText (withTexts config r filter sorting).conditions =
      if ((r.keyTests config).map Jpql.text ++ filter).isEmpty then ""
      else " WHERE " ++ " AND ".intercalate ((r.keyTests config).map Jpql.text ++ filter) := by
    rw [whereText, conjunction?_conditions]
    generalize (r.keyTests config).map Jpql.text ++ filter = conditions
    cases conditions <;> rfl
  rw [statement, source_withTexts, hwhere, ResolvedRequest.textWith, List.isEmpty_map]
  simp [Except.map, withTexts, orderByText]

/-- A context that was built has a statement, with the text that is written down directly. -/
theorem map_statement_ofRequest? (htop : r.top ≠ some 0) :
    (ofRequest? config r).map (Option.map statement) =
      (r.directStatement config).map fun text => some (.ok text) := by
  have hsorting : r.sortTexts config =
      (sortKeysOf config r).map fun keys =>
      keys.map fun (text, order) => text ++ " " ++ order.keyword := by
    rw [ResolvedRequest.sortTexts, sortKeysOf, ← map_sortKeys]
    cases r.count <;> rfl
  rw [ofRequest?_eq htop, ResolvedRequest.directStatement, hsorting]
  cases r.filterTexts config with
  | error e => rfl
  | ok filter =>
    cases sortKeysOf config r with
    | error e => rfl
    | ok sorting =>
      have hstatement := @statement_withTexts config r filter sorting
      exact congrArg (fun text => Except.ok (some text)) hstatement

end StatementContext

namespace Compiler

variable {c : Compiler} {m : Model} {request : Request} {text : String} {skip top : Option UInt32}

/-- The statement of a plan is that of the context of the resolved request. -/
theorem exists_context_of_compile (h : c.compile m request = .ok (.statement text skip top)) :
    ∃ r context, m.resolve request = .ok r ∧ r.top ≠ some 0 ∧
      StatementContext.ofRequest? c.config r = .ok (some context) ∧
        context.statement = .ok text := by
  unfold compile at h
  split at h
  · cases h
  · next htop =>
    split at h
    · cases h
    · next r hr =>
      simp only [planOf, Bind.bind, bind_eq_ok_iff, mapError_eq_ok_iff] at h
      obtain ⟨context?, hcontext, h⟩ := h
      cases context? with
      | none => cases h
      | some context =>
        simp only [bind_eq_ok_iff, mapError_eq_ok_iff] at h
        obtain ⟨text', htext, h⟩ := h
        have heq : text' = text := by
          split at h
          · cases h
            rfl
          · cases h
            rfl
        exact ⟨r, context, hr, (Model.comesFrom_of_resolve hr).top ▸ htop, hcontext, heq ▸ htext⟩

/-- The statement of a plan is the one that is written down directly for the resolved request. -/
theorem directStatement_of_compile (h : c.compile m request = .ok (.statement text skip top)) :
    ∃ r, m.resolve request = .ok r ∧ r.directStatement c.config = .ok text := by
  obtain ⟨r, context, hr, htop, hcontext, htext⟩ := exists_context_of_compile h
  have hbuild := @StatementContext.map_statement_ofRequest? c.config r htop
  rw [hcontext] at hbuild
  obtain ⟨direct, hdirect, hsome⟩ := map_eq_ok_iff.mp hbuild.symm
  rw [Option.map_some, htext] at hsome
  cases hsome
  exact ⟨r, hr, hdirect⟩

end Compiler

/-! ### Requests that were read -/

namespace ResolvedRequest

/-- The filter and the sort keys were read from texts, for whatever types. -/
structure IsRead (r : ResolvedRequest) : Prop where
  filter : ∀ e ∈ r.filter, ∃ model entityType input, parseFilter model entityType input = .ok e
  orderBy : ∀ item ∈ r.orderBy, ∃ model entityType input items,
    parseOrderBy model entityType input = .ok items ∧ item ∈ items

variable {r : ResolvedRequest} {config : Config}

/-- A request that was resolved was read. -/
theorem isRead_of_resolve {m : Model} {request : Request} (h : m.resolve request = .ok r) :
    r.IsRead := by
  have hfrom := Model.comesFrom_of_resolve h
  constructor
  · intro e he
    obtain ⟨input, hinput⟩ := hfrom.filter e he
    exact ⟨m, r.target, input, hinput⟩
  · intro item hitem
    rcases hfrom.orderBy with hnone | ⟨input, hinput⟩
    · rw [hnone] at hitem
      cases hitem
    · exact ⟨m, r.target, input, r.orderBy, hinput, hitem⟩

private theorem exists_filterTexts (hr : r.IsRead) : ∃ texts, r.filterTexts config = .ok texts := by
  unfold filterTexts
  cases hfilter : r.filter with
  | none => exact ⟨[], rfl⟩
  | some e =>
    obtain ⟨model, entityType, input, hread⟩ := hr.filter e hfilter
    obtain ⟨hparse, htype⟩ := parseFilter_eq_ok_iff.mp hread
    obtain ⟨text, htext⟩ := @Expr.Resolved.exists_translate _ _ (r.targetAlias config) _
      (resolved_of_parseExpression hparse) (by rw [htype]; rfl)
    exact ⟨_, congrArg (Except.map _) htext⟩

private theorem exists_mapM {ε α β : Type} {f : α → Except ε β} {xs : List α}
    (h : ∀ x ∈ xs, ∃ y, f x = .ok y) : ∃ ys, xs.mapM f = .ok ys := by
  induction xs with
  | nil => exact ⟨[], rfl⟩
  | cons x rest ih =>
    obtain ⟨y, hy⟩ := h x List.mem_cons_self
    obtain ⟨ys, hys⟩ := ih fun x hx => h x (List.mem_cons_of_mem _ hx)
    refine ⟨y :: ys, ?_⟩
    rw [List.mapM_cons, hy, hys]
    rfl

private theorem exists_sortTexts (hr : r.IsRead)
    (horder : r.count = true ∨ ∀ item ∈ r.orderBy, item.expression.type.isStructural = false) :
    ∃ texts, r.sortTexts config = .ok texts := by
  unfold sortTexts
  split
  · exact ⟨[], rfl⟩
  · next hcount =>
    apply exists_mapM
    intro item hitem
    obtain ⟨model, entityType, input, items, hread, hmem⟩ := hr.orderBy item hitem
    have htype := horder.resolve_left hcount item hitem
    obtain ⟨text, htext⟩ := @Expr.Resolved.exists_translate _ _ (r.targetAlias config) _
      (resolved_of_parseOrderBy hread item hmem) htype
    exact ⟨_, congrArg (Except.map _) htext⟩

end ResolvedRequest

/-- A request that does not ask for an empty page has a statement, whatever the settings: the one
that is written down directly. A sort key must be of a primitive type unless the request counts. -/
theorem exists_directStatement (config : Config) (r : ResolvedRequest) (hr : r.IsRead)
    (htop : r.top ≠ some 0)
    (horder : r.count = true ∨ ∀ item ∈ r.orderBy, item.expression.type.isStructural = false) :
    ∃ context text, StatementContext.ofRequest? config r = .ok (some context) ∧
      context.statement = .ok text ∧ r.directStatement config = .ok text := by
  obtain ⟨filter, hfilter⟩ := @ResolvedRequest.exists_filterTexts r config hr
  obtain ⟨sorting, hsorting⟩ := @ResolvedRequest.exists_sortTexts r config hr horder
  have hdirect : r.directStatement config =
      .ok (r.textWith config ((r.keyTests config).map Jpql.text ++ filter) sorting) := by
    rw [ResolvedRequest.directStatement, hfilter, hsorting]
    rfl
  have hbuild := @StatementContext.map_statement_ofRequest? config r htop
  rw [hdirect] at hbuild
  obtain ⟨context?, hcontext, hstatement⟩ := map_eq_ok_iff.mp hbuild
  obtain ⟨context, rfl, htext⟩ := Option.map_eq_some_iff.mp hstatement
  exact ⟨context, _, hcontext, htext, hdirect⟩

/-- The host of a match of a team, by a team's name and a match's number, with a filter and sort
keys. -/
def hostRequest : Request where
  entitySet := "Teams"
  keyPredicates := [⟨none, "'it''s'"⟩]
  navigation := [⟨"matches", [⟨some "id", "7"⟩]⟩, ⟨"host", []⟩]
  filter := some "name eq 'a' or address/city eq 'b'"
  orderBy := some "address/city desc, name"
  select := []
  skip := none
  top := none
  count := false

/-- The statement for the host of a match. -/
def hostStatement : String :=
  "SELECT R2 FROM TeamEntity E1 JOIN E1.hosted R1 JOIN R1.host R2 " ++
    "WHERE E1.name = 'it''s' AND R1.id = 7 AND (R2.name = 'a' OR R2.address.town = 'b') " ++
    "ORDER BY R2.address.town DESC, R2.name ASC"

/-- Two hops, keys of the start and of the first hop, and a filter that needs parentheses. -/
theorem exists_directStatement_hostRequest : ∃ r context,
    leagueModel.resolve hostRequest = .ok r ∧
    StatementContext.ofRequest? Config.standard r = .ok (some context) ∧
    context.statement = .ok hostStatement := by
  obtain ⟨r, hr, htest⟩ := @exists_ok_of_any _ _ (leagueModel.resolve hostRequest)
    (fun r => r.top != some 0 && r.orderBy.all (fun item => !item.expression.type.isStructural) &&
      (r.directStatement Config.standard).toOption == some hostStatement) (by decide +kernel)
  simp only [Bool.and_eq_true, bne_iff_ne, List.all_eq_true, Bool.not_eq_true', beq_iff_eq] at htest
  obtain ⟨context, text, hcontext, htext, hdirect⟩ := exists_directStatement Config.standard r
    (ResolvedRequest.isRead_of_resolve hr) htest.1.1 (.inr htest.1.2)
  rw [hdirect] at htest
  exact ⟨r, context, hr, hcontext, htext.trans (congrArg Except.ok (Option.some.inj htest.2))⟩

end EntityQuery
