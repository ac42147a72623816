import EntityQuery.Proofs.Jpql.OpenWords
import EntityQuery.Proofs.Jpql.Renderable
import EntityQuery.Proofs.Statement.Direct

/-!
# Filters beside keys

A filter cannot widen what the keys of a request restrict. Whatever its text, the condition of the
statement has no `OR` outside of parentheses as soon as there is a key, so every key test is one of
the conditions that all must hold.
-/

namespace EntityQuery

open Jpql (Word Balanced Cuts MarksIn words wordsOf openWords split whereClause)

/-! ### Plain names -/

/-- Whether the store knows all entities by plain names. -/
def Model.hasPlainEntities (m : Model) : Bool :=
  m.entityTypes.all fun t => Text.isPlainName t.internalName

/-- Whether a request has a key predicate, for its start or for a hop. -/
def Request.hasKey (r : Request) : Bool :=
  !r.keyPredicates.isEmpty || r.navigation.any fun segment => !segment.keyPredicates.isEmpty

/-- The aliases of valid settings are plain names: letters with a number. -/
theorem Config.isPlainName_aliasAt {config : Config} (h : config.validate = .ok ()) (n : Nat) :
    Text.isPlainName (config.aliasAt n) = true := by
  have hplain {letters : String} (h : Text.isLetters letters = true) (n : Nat) :
      Text.isPlainName (letters ++ n.repr) = true := by
    simp only [Text.isLetters, Bool.and_eq_true, Bool.not_eq_true', List.isEmpty_eq_false_iff,
      List.all_eq_true] at h
    obtain ⟨hne, halpha⟩ := h
    obtain ⟨c, cs, hcs⟩ := List.exists_cons_of_ne_nil hne
    have hstart : Text.isWordStart c = true :=
      Text.isWordStart_of_isAlpha (halpha c (by simp [hcs]))
    simp only [Text.isPlainName, String.toList_append, List.all_append, Bool.and_eq_true,
      List.all_eq_true]
    refine ⟨by simpa [hcs] using hstart, fun c hc => ?_, fun c hc => ?_⟩
    · exact Text.isWordPart_of_isWordStart (Text.isWordStart_of_isAlpha (halpha c hc))
    · exact Text.isWordPart_of_isDigit (Text.isDigit_of_mem_repr hc)
  obtain ⟨hentity, hrelationship, _⟩ := of_validate h
  cases n with
  | zero => exact hplain hentity 1
  | succ n => exact hplain hrelationship (n + 1)

theorem cuts_name {name : String} (h : Text.isPlainName name = true) :
    Cuts name [Word.ofRun name.toList] := by
  refine .run ?_ (Jpql.isRunPart_of_plain h)
  intro hnil
  rw [Text.isPlainName, hnil] at h
  cases h

/-- A path of a plain alias and a plain name. -/
theorem exists_cuts_path {qualifier name : String} (hq : Text.isPlainName qualifier = true)
    (hn : Text.isPlainName name = true) :
    ∃ ws, Cuts (qualifier ++ "." ++ name) ws ∧ MarksIn (fun _ => true) ws := by
  have htidy : (Jpql.property qualifier name).Tidy Text.isPlainName := .path (.property hq hn)
  obtain ⟨ws, hcuts, hmarks⟩ := htidy.exists_cuts
  exact ⟨ws, hcuts, hmarks.mono fun _ _ => rfl⟩

namespace ResolvedRequest

variable {config : Config} {m : Model} {request : Request} {r : ResolvedRequest}

/-! ### What a statement selects -/

private theorem exists_cuts_selection (hv : config.validate = .ok ()) (hm : m.hasPlainNames = true)
    (h : r.ComesFrom m request) : ∃ ws, Cuts (r.selection config) ws := by
  have halias : Text.isPlainName (r.targetAlias config) = true := config.isPlainName_aliasAt hv _
  unfold selection
  split
  · exact ⟨_, @Cuts.call _ _ "COUNT" (by decide) (List.all_eq_true.mp (by decide))
      (cuts_name halias)⟩
  · split
    · exact ⟨_, cuts_name halias⟩
    · have hpaths : ∀ t ∈ r.select.map fun p => r.targetAlias config ++ "." ++ p.internalName,
          ∃ ws, Cuts t ws ∧ MarksIn (fun _ => true) ws := by
        intro t ht
        obtain ⟨p, hp, rfl⟩ := List.mem_map.mp ht
        exact exists_cuts_path halias (Model.allNames_property hm h.target (h.mem_of_select p hp))
      obtain ⟨ws, hcuts, _⟩ := Jpql.exists_cuts_intercalate hpaths
      exact ⟨ws, hcuts⟩

private theorem exists_cuts_join {a : String} {ws : List Word} (ha : Cuts a ws)
    {joins : List String} (hj : ∀ join ∈ joins, ∃ text ws, join = " " ++ text ∧ Cuts text ws) :
    ∃ ws, Cuts (a ++ String.join joins) ws := by
  induction joins generalizing a ws with
  | nil => exact ⟨ws, by simpa using ha⟩
  | cons join rest ih =>
    rw [List.forall_mem_cons] at hj
    obtain ⟨⟨text, vs, rfl, htext⟩, hrest⟩ := hj
    have hnext := ih (ha.blank htext) hrest
    simpa [String.append_assoc] using hnext

private theorem exists_cuts_source (hv : config.validate = .ok ()) (hm : m.hasPlainNames = true)
    (he : m.hasPlainEntities = true) (h : r.ComesFrom m request) :
    ∃ ws, Cuts (r.source config) ws := by
  have hstart : Text.isPlainName r.start.internalName = true := List.all_eq_true.mp he _ h.start
  refine exists_cuts_join ((cuts_name hstart).blank (cuts_name (config.isPlainName_aliasAt hv 0)))
    ?_
  intro join hjoin
  obtain ⟨⟨hop, i⟩, hmem, rfl⟩ := List.mem_map.mp hjoin
  obtain ⟨t, ht, hn⟩ := (h.isHop hop (List.fst_mem_of_mem_zipIdx hmem)).navigation
  have hinner : Cuts "JOIN" [.literal "JOIN"] := .keyword (by decide) (by decide) rfl
  have hkeyword : ∃ ws, Cuts config.joinKind.keyword ws := by
    cases config.joinKind with
    | inner => exact ⟨_, hinner⟩
    | left =>
      have hleft : Cuts "LEFT" [.literal "LEFT"] := .keyword (by decide) (by decide) rfl
      exact ⟨_, hleft.blank hinner⟩
  obtain ⟨kws, hkws⟩ := hkeyword
  obtain ⟨pws, hpws, _⟩ := exists_cuts_path (config.isPlainName_aliasAt hv i)
    (Model.allNames_navigation hm ht hn)
  have hjoin := (hkws.blank hpws).blank (cuts_name (config.isPlainName_aliasAt hv (i + 1)))
  exact ⟨_, _, by simp only [String.append_assoc], hjoin⟩

/-! ### Key tests -/

private theorem of_mem_keyTests (h : r.ComesFrom m request) {test : Jpql}
    (ht : test ∈ r.keyTests config) :
    ∃ (n : Nat) (key : ResolvedKey), test = key.test (config.aliasAt n) ∧
      (∃ t ∈ m.entityTypes, key.property ∈ t.properties) ∧ key.value.value.isWellFormed = true := by
  rcases List.mem_append.mp ht with ht | ht
  · obtain ⟨key, hkey, rfl⟩ := List.mem_map.mp ht
    obtain ⟨hproperty, hvalue⟩ := mem_of_resolveKeys h.keys hkey
    exact ⟨0, key, rfl, ⟨r.start, h.start, hproperty⟩, hvalue⟩
  · obtain ⟨⟨hop, i⟩, hmem, ht⟩ := List.mem_flatMap.mp ht
    obtain ⟨key, hkey, rfl⟩ := List.mem_map.mp ht
    have hhop := h.isHop hop (List.fst_mem_of_mem_zipIdx hmem)
    obtain ⟨predicates, hkeys⟩ := hhop.keys
    obtain ⟨hproperty, hvalue⟩ := mem_of_resolveKeys hkeys hkey
    exact ⟨i + 1, key, rfl, ⟨hop.target, hhop.target, hproperty⟩, hvalue⟩

/-- A key test is one condition. -/
private theorem cuts_keyTest (hv : config.validate = .ok ()) (hm : m.hasPlainNames = true)
    (h : r.ComesFrom m request) {test : Jpql} (ht : test ∈ r.keyTests config) :
    Cuts test.text (wordsOf test.text) ∧ MarksIn (· == .eq) (wordsOf test.text) := by
  obtain ⟨n, key, rfl, ⟨t, ht, hproperty⟩, hvalue⟩ := of_mem_keyTests h ht
  have hname : Text.isPlainName key.property.internalName = true :=
    Model.allNames_property hm ht hproperty
  obtain ⟨ws, hcuts, hmarks⟩ :=
    (ResolvedKey.tidy_test (config.isPlainName_aliasAt hv n) hname hvalue).exists_cuts
  rw [hcuts.wordsOf_eq]
  refine ⟨hcuts, hmarks.mono fun op hop => ?_⟩
  unfold ResolvedKey.test at hop
  split at hop
  · cases hop
  · have heq : BinaryOperator.eq = op := by simpa [Jpql.opens] using hop
    exact beq_iff_eq.mpr heq.symm

theorem keyTests_ne_nil (h : r.ComesFrom m request) (hk : request.hasKey = true) :
    r.keyTests config ≠ [] := by
  simp only [Request.hasKey, Bool.or_eq_true, Bool.not_eq_true', List.isEmpty_eq_false_iff,
    List.any_eq_true] at hk
  rcases hk with hstart | hhop
  · simp [keyTests, ne_nil_of_resolveKeys h.keys hstart]
  · obtain ⟨hop, hmem, hkeys⟩ := (Model.of_resolveHops h.start h.hops).2 hhop
    rw [← List.zipIdx_map_fst 0 r.hops] at hmem
    obtain ⟨x, hx, rfl⟩ := List.mem_map.mp hmem
    intro hnil
    simp only [keyTests, List.append_eq_nil_iff, List.flatMap_eq_nil_iff,
      List.map_eq_nil_iff] at hnil
    exact hkeys (hnil.2 x hx)

/-! ### Filters and sort keys -/

private theorem of_translate {qualifier text : String} (hm : m.hasPlainNames = true)
    (hq : Text.isPlainName qualifier = true) {e : Expr} {entity : ValueType}
    (he : e.Resolved m entity) (h : translate qualifier e = .ok text) :
    ∃ j, Jpql.ofExpr qualifier e = .ok j ∧ j.Tidy Text.isPlainName ∧ j.text = text := by
  obtain ⟨j, hj, htidy⟩ := he.exists_form hm hq
  unfold translate at h
  split at h
  · cases h
  · rw [hj] at h
    cases h
    exact ⟨j, hj, htidy, rfl⟩

/-- Beside keys, what a filter adds has no open `OR`. -/
private theorem cuts_filterText (hv : config.validate = .ok ()) (hm : m.hasPlainNames = true)
    (h : r.ComesFrom m request) (hk : r.keyTests config ≠ []) {texts : List String}
    (hf : r.filterTexts config = .ok texts) :
    ∀ t ∈ texts, Cuts t (wordsOf t) ∧ MarksIn (· != .or) (wordsOf t) := by
  unfold filterTexts at hf
  split at hf
  · cases hf
    exact fun _ ht => absurd ht List.not_mem_nil
  · next filter hfilter =>
    obtain ⟨text, htext, rfl⟩ := map_eq_ok_iff.mp hf
    obtain ⟨input, hread⟩ := h.filter filter hfilter
    obtain ⟨j, hj, htidy, rfl⟩ := of_translate hm (config.isPlainName_aliasAt hv _)
      (resolved_of_parseExpression (parseFilter_eq_ok_iff.mp hread).1) htext
    obtain ⟨ws, hcuts, hmarks⟩ := htidy.exists_cuts
    have hkeys : (r.keyTests config).isEmpty = false := List.isEmpty_eq_false_iff.mpr hk
    simp only [hkeys, Bool.not_false, Bool.and_true, List.forall_mem_singleton]
    -- The test for parentheses looks at the root only. It suffices, as all disjunctions below the
    -- root are in parentheses already.
    cases hd : filter.isDisjunction with
    | true =>
      have hparen := hcuts.paren
      rw [if_pos rfl, hparen.wordsOf_eq]
      exact ⟨hparen, .group hcuts.balanced⟩
    | false =>
      rw [if_neg Bool.false_ne_true, hcuts.wordsOf_eq]
      refine ⟨hcuts, hmarks.mono fun op hop => ?_⟩
      rw [bne_iff_ne]
      rintro rfl
      rw [Jpql.opens_or_of_ofExpr filter hj hd] at hop
      cases hop

private theorem exists_of_mem_mapM {ε α β : Type} {f : α → Except ε β} {xs : List α} {ys : List β}
    (h : xs.mapM f = .ok ys) : ∀ y ∈ ys, ∃ x ∈ xs, f x = .ok y := by
  induction xs generalizing ys with
  | nil =>
    cases h
    exact fun _ hy => absurd hy List.not_mem_nil
  | cons x rest ih =>
    simp only [List.mapM_cons, Bind.bind, bind_eq_ok_iff] at h
    obtain ⟨y, hy, others, hothers, ⟨⟩⟩ := h
    refine List.forall_mem_cons.mpr ⟨⟨x, List.mem_cons_self, hy⟩, fun z hz => ?_⟩
    obtain ⟨u, hu, hfu⟩ := ih hothers z hz
    exact ⟨u, List.mem_cons_of_mem _ hu, hfu⟩

private theorem exists_cuts_sortText (hv : config.validate = .ok ()) (hm : m.hasPlainNames = true)
    (h : r.ComesFrom m request) {texts : List String} (hs : r.sortTexts config = .ok texts) :
    ∀ t ∈ texts, ∃ ws, Cuts t ws ∧ MarksIn (fun _ => true) ws := by
  unfold sortTexts at hs
  split at hs
  · cases hs
    exact fun _ ht => absurd ht List.not_mem_nil
  · intro t ht
    obtain ⟨item, hitem, hmap⟩ := exists_of_mem_mapM hs t ht
    obtain ⟨text, htext, rfl⟩ := map_eq_ok_iff.mp hmap
    obtain ⟨input, hread⟩ := h.orderBy.resolve_left (List.ne_nil_of_mem hitem)
    obtain ⟨j, _, htidy, rfl⟩ := of_translate hm (config.isPlainName_aliasAt hv _)
      (resolved_of_parseOrderBy hread item hitem) htext
    obtain ⟨ws, hcuts, hmarks⟩ := htidy.exists_cuts
    have hdirection {w : Word} (hd : Cuts item.order.keyword [w]) (hw : w.isMark = false)
        (ho : w ≠ .openParen) (hc : w ≠ .closeParen) :
        ∃ ws, Cuts (j.text ++ " " ++ item.order.keyword) ws ∧ MarksIn (fun _ => true) ws :=
      ⟨_, hcuts.blank hd, .append hcuts.balanced (hmarks.mono fun _ _ => rfl) (.word ho hc hw .nil)⟩
    cases horder : item.order with
    | ascending =>
      rw [horder] at hdirection
      exact @hdirection (.literal "ASC") (.keyword (by decide) (by decide) rfl)
        (by decide) nofun nofun
    | descending =>
      rw [horder] at hdirection
      exact @hdirection (.literal "DESC") (.keyword (by decide) (by decide) rfl)
        (by decide) nofun nofun

/-! ### The condition of a statement -/

/-- Beside keys, no condition has an open `OR`. -/
private theorem cuts_condition (hv : config.validate = .ok ()) (hm : m.hasPlainNames = true)
    (h : r.ComesFrom m request) (hk : r.keyTests config ≠ []) {filter : List String}
    (hf : r.filterTexts config = .ok filter) :
    ∀ t ∈ (r.keyTests config).map Jpql.text ++ filter,
      Cuts t (wordsOf t) ∧ MarksIn (· != .or) (wordsOf t) := by
  rw [List.forall_mem_append, List.forall_mem_map]
  refine ⟨fun test ht => ?_, cuts_filterText hv hm h hk hf⟩
  obtain ⟨hcuts, hmarks⟩ := cuts_keyTest hv hm h ht
  exact ⟨hcuts, hmarks.mono fun op hop => by rw [beq_iff_eq.mp hop]; decide⟩

/-- Whatever conditions follow the key tests, each key test is a part of their conjunction. -/
private theorem mem_split_conjunction (hv : config.validate = .ok ()) (hm : m.hasPlainNames = true)
    (h : r.ComesFrom m request) (others : List String) {test : Jpql}
    (ht : test ∈ r.keyTests config) :
    wordsOf test.text ∈ split "AND"
      ([.operator .and].intercalate
        (((r.keyTests config).map Jpql.text ++ others).map wordsOf)) := by
  rw [List.map_append]
  refine Jpql.mem_split_intercalate ?_ (List.mem_map_of_mem (List.mem_map_of_mem ht))
  rw [List.forall_mem_map, List.forall_mem_map]
  intro test ht
  obtain ⟨hcuts, hmarks⟩ := cuts_keyTest hv hm h ht
  exact ⟨hcuts.balanced,
    hmarks.isKeyword (by decide) fun op hop => by rw [beq_iff_eq.mp hop]; decide⟩

/-- Sort keys stand behind everything else, and no `WHERE` among them is open. -/
private theorem exists_cuts_sorting {texts : List String}
    (h : ∀ t ∈ texts, ∃ ws, Cuts t ws ∧ MarksIn (fun _ => true) ws) :
    ∃ after, Balanced after ∧ (after = [] ∨ ∃ rest, after = .literal "ORDER" :: rest) ∧
      (∀ w ∈ openWords after, w.isKeyword "WHERE" = false) ∧
      ∀ a ws, Cuts a ws →
        Cuts (a ++ if texts.isEmpty then "" else " ORDER BY " ++ ", ".intercalate texts)
        (ws ++ after) := by
  cases texts with
  | nil =>
    exact ⟨[], .nil, .inl rfl,
      fun _ hw => absurd hw List.not_mem_nil, fun a ws ha => by simpa using ha⟩
  | cons t rest =>
    obtain ⟨ws, hcuts, hmarks⟩ := Jpql.exists_cuts_intercalate h
    have horder : Cuts "ORDER" [.literal "ORDER"] := .keyword (by decide) (by decide) rfl
    have hby : Cuts "BY" [.literal "BY"] := .keyword (by decide) (by decide) rfl
    have horderBy : Cuts "ORDER BY" [.literal "ORDER", .literal "BY"] := horder.blank hby
    have hafter := horderBy.blank hcuts
    refine ⟨_, hafter.balanced, .inr ⟨_, rfl⟩, ?_, fun a vs ha => ?_⟩
    · have hwhere := hmarks.isKeyword (by decide : "WHERE" ∈ _) fun op _ => by cases op <;> decide
      rw [horderBy.balanced.openWords_append]
      exact List.forall_mem_append.mpr ⟨List.forall_mem_cons.mpr ⟨by decide, by decide⟩, hwhere⟩
    · have htext : a ++ (" ORDER BY " ++ ", ".intercalate (t :: rest)) =
          a ++ " " ++ ("ORDER BY" ++ " " ++ ", ".intercalate (t :: rest)) := by
        apply String.toList_injective
        simp
      rw [List.isEmpty_cons, if_neg Bool.false_ne_true, htext]
      exact ha.blank hafter

/-- The condition of a statement is the conjunction of its conditions. -/
private theorem exists_whereClause {conditions sorting : List String} {selected source : List Word}
    (hselected : Cuts (r.selection config) selected) (hsource : Cuts (r.source config) source)
    (hne : conditions ≠ [])
    (hc : ∀ t ∈ conditions, Cuts t (wordsOf t) ∧ MarksIn (· != .or) (wordsOf t))
    (hs : ∀ t ∈ sorting, ∃ ws, Cuts t ws ∧ MarksIn (fun _ => true) ws) :
    ∃ ws, words (r.textWith config conditions sorting).toList = some ws ∧
      whereClause ws = [.operator .and].intercalate (conditions.map wordsOf) := by
  have hselect : Cuts "SELECT" [.literal "SELECT"] := .keyword (by decide) (by decide) rfl
  have hfrom : Cuts "FROM" [.literal "FROM"] := .keyword (by decide) (by decide) rfl
  have hwhere : Cuts "WHERE" [.literal "WHERE"] := .keyword (by decide) (by decide) rfl
  have hbefore := ((hselect.blank hselected).blank hfrom).blank hsource
  obtain ⟨hclause, hmarks⟩ := Jpql.cuts_conjunction rfl hc
  obtain ⟨after, hafter, hshape, hopen, hcuts⟩ := exists_cuts_sorting hs
  have hcuts := hcuts _ _ ((hbefore.blank hwhere).blank hclause)
  have htext : r.textWith config conditions sorting =
      "SELECT" ++ " " ++ r.selection config ++ " " ++ "FROM" ++ " " ++ r.source config ++ " " ++
        "WHERE" ++
        " " ++ " AND ".intercalate conditions ++
        if sorting.isEmpty then "" else " ORDER BY " ++ ", ".intercalate sorting := by
    apply String.toList_injective
    simp [textWith, hne]
  refine ⟨_, htext ▸ hcuts.spells.words_eq, ?_⟩
  rw [List.append_assoc, List.append_assoc, List.singleton_append]
  refine Jpql.whereClause_eq hbefore.balanced hclause.balanced hafter
    (fun w hw => ⟨?_, ?_⟩) hopen hshape
  · exact hmarks.isKeyword (by decide) (fun op _ => by cases op <;> decide) w hw
  · exact hmarks.isKeyword (by decide) (fun op _ => by cases op <;> decide) w hw

end ResolvedRequest

/-- A filter cannot escape the keys: where a request has a key predicate, the condition of its
statement has no open `OR`, and every key test is one of the parts that `AND` divides it into. -/
theorem keyTests_mem_split_of_compile {c : Compiler} {m : Model} {request : Request}
    (hm : m.hasPlainNames = true) (he : m.hasPlainEntities = true) (hk : request.hasKey = true)
    {text : String} {skip top : Option UInt32}
    (h : c.compile m request = .ok (.statement text skip top)) :
    ∃ ws r, words text.toList = some ws ∧ m.resolve request = .ok r ∧
      (∀ w ∈ openWords (whereClause ws), w.isKeyword "OR" = false) ∧
      r.keyTests c.config ≠ [] ∧
      ∀ test ∈ r.keyTests c.config, ∃ part, words test.text.toList = some part ∧
        part ∈ split "AND" (whereClause ws) := by
  obtain ⟨r, hr, hdirect⟩ := c.directStatement_of_compile h
  have hfrom := Model.comesFrom_of_resolve hr
  have hne : r.keyTests c.config ≠ [] := ResolvedRequest.keyTests_ne_nil hfrom hk
  simp only [ResolvedRequest.directStatement, Bind.bind, bind_eq_ok_iff] at hdirect
  obtain ⟨filter, hfilter, sorting, hsorting, ⟨⟩⟩ := hdirect
  obtain ⟨selected, hselected⟩ := ResolvedRequest.exists_cuts_selection c.valid hm hfrom
  obtain ⟨source, hsource⟩ := ResolvedRequest.exists_cuts_source c.valid hm he hfrom
  have hconditions := ResolvedRequest.cuts_condition c.valid hm hfrom hne hfilter
  obtain ⟨ws, hws, hclause⟩ := ResolvedRequest.exists_whereClause hselected hsource (by simp [hne])
    hconditions (ResolvedRequest.exists_cuts_sortText c.valid hm hfrom hsorting)
  refine ⟨ws, r, hws, hr, ?_, hne, fun test ht => ⟨wordsOf test.text, ?_, ?_⟩⟩
  · rw [hclause]
    refine (Jpql.cuts_conjunction rfl hconditions).2.isKeyword (by decide) fun op hop => ?_
    cases op with
    | or => cases hop
    | _ => decide
  · exact (ResolvedRequest.cuts_keyTest c.valid hm hfrom ht).1.spells.words_eq
  · rw [hclause]
    exact ResolvedRequest.mem_split_conjunction c.valid hm hfrom filter ht

/-- The disjunction of the filter stays behind the keys of the start and of the first hop. -/
theorem keyTests_mem_split_hostRequest : ∃ (c : Compiler) (ws : List Word) (r : ResolvedRequest),
    c.config = Config.standard ∧
    c.compile leagueModel hostRequest = .ok (.statement hostStatement none none) ∧
    words hostStatement.toList = some ws ∧ leagueModel.resolve hostRequest = .ok r ∧
    (∀ w ∈ openWords (whereClause ws), w.isKeyword "OR" = false) ∧
    r.keyTests c.config ≠ [] ∧
    ∀ test ∈ r.keyTests c.config, ∃ part, words test.text.toList = some part ∧
      part ∈ split "AND" (whereClause ws) := by
  obtain ⟨plan, hplan, htest⟩ := @exists_ok_of_any _ _
    (Compiler.compile ⟨Config.standard, rfl⟩ leagueModel hostRequest)
    (fun plan => plan == .statement hostStatement none none) (by decide +kernel)
  rw [beq_iff_eq.mp htest] at hplan
  obtain ⟨ws, r, hws, hr, hor, hne, hkeys⟩ := keyTests_mem_split_of_compile
    (by decide : leagueModel.hasPlainNames = true) (by decide) (by decide) hplan
  exact ⟨_, ws, r, rfl, hplan, hws, hr, hor, hne, hkeys⟩

end EntityQuery
