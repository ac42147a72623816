import EntityQuery.Proofs.Expr.Steps
import EntityQuery.Statement.Assembly

/-!
# Join chains

A joined statement is assembled link by link, and a link that does not go on where the chain has got
to ends the work. Main result: assembly succeeds exactly if all links go on, and otherwise it names
the first that does not. The alias that the loop carries along is the one that the link before has
reached, as long as all links up to there go on.
-/

namespace EntityQuery

/-- The join of a link with a relationship and a target. -/
def JoinClause.segment (c : JoinClause) : String :=
  " " ++ c.joinKind.keyword ++ " " ++ c.sourceAlias ++ "." ++ c.relationshipName.getD "" ++ " " ++
    c.targetAlias.getD ""

namespace JoinClause

/-! ### Chains -/

/-- The alias that a chain has reached behind link number `i`: the first link binds its source, each
other one its target. -/
def reached? (clauses : List JoinClause) : Nat → Option String
  | 0 => clauses[0]?.map sourceAlias
  | i + 1 => clauses[i + 1]?.bind targetAlias

/-- Link number `i` has a relationship and a target, and starts where the link before it has got
to. -/
def GoesOn (clauses : List JoinClause) (i : Nat) : Prop :=
  ∃ c, clauses[i]? = some c ∧ c.relationshipName.isSome = true ∧ c.targetAlias.isSome = true ∧
    reached? clauses (i - 1) = some c.sourceAlias

/-- A first link, which may be any, and others that each go on. -/
structure IsChain (clauses : List JoinClause) : Prop where
  nonempty : clauses ≠ []
  goesOn : ∀ i, 1 ≤ i → i < clauses.length → GoesOn clauses i

/-- What is wrong with link number `i`: of several things the relationship comes first, then the
target. -/
inductive FaultAt (clauses : List JoinClause) (i : Nat) : JoinFault → Prop
  | missingRelationship {c : JoinClause} (hc : clauses[i]? = some c)
      (hr : c.relationshipName = none) :
    FaultAt clauses i .missingRelationship
  | missingTarget {c : JoinClause} {relationship : String} (hc : clauses[i]? = some c)
    (hr : c.relationshipName = some relationship) (ht : c.targetAlias = none) :
    FaultAt clauses i .missingTarget
  | wrongAnchor {c : JoinClause} {relationship target anchor : String} (hc : clauses[i]? = some c)
    (hr : c.relationshipName = some relationship) (ht : c.targetAlias = some target)
    (ha : reached? clauses (i - 1) = some anchor) (hne : c.sourceAlias ≠ anchor) :
    FaultAt clauses i (.wrongAnchor c.sourceAlias anchor)

/-- Link number `i` is the first one behind the start that does not go on. -/
structure BreaksFirstAt (clauses : List JoinClause) (i : Nat) : Prop where
  one_le : 1 ≤ i
  lt_length : i < clauses.length
  breaks : ¬GoesOn clauses i
  before : ∀ k, 1 ≤ k → k < i → GoesOn clauses k

section

variable {clauses : List JoinClause} {i : Nat} {fault : JoinFault}

theorem FaultAt.lt_length (h : FaultAt clauses i fault) : i < clauses.length := by
  cases h with
  | missingRelationship hc _ => exact (List.getElem?_eq_some_iff.mp hc).1
  | missingTarget hc _ _ => exact (List.getElem?_eq_some_iff.mp hc).1
  | wrongAnchor hc _ _ _ _ => exact (List.getElem?_eq_some_iff.mp hc).1

theorem FaultAt.not_goesOn (h : FaultAt clauses i fault) : ¬GoesOn clauses i := by
  rintro ⟨c, hc, hr, ht, ha⟩
  cases h with
  | missingRelationship hc' hnone =>
    obtain rfl := Option.some.inj (hc.symm.trans hc')
    simp [hnone] at hr
  | missingTarget hc' _ hnone =>
    obtain rfl := Option.some.inj (hc.symm.trans hc')
    simp [hnone] at ht
  | wrongAnchor hc' _ _ ha' hne =>
    obtain rfl := Option.some.inj (hc.symm.trans hc')
    exact hne (Option.some.inj (ha.symm.trans ha'))

theorem BreaksFirstAt.not_isChain (h : BreaksFirstAt clauses i) : ¬IsChain clauses :=
  fun hchain => h.breaks (hchain.goesOn i h.one_le h.lt_length)

end

/-! ### One link -/

section

variable {c : JoinClause} {anchor relationship target : String} {fault : JoinFault}

theorem follow_eq_ok_iff : c.follow anchor = .ok (relationship, target) ↔
    c.relationshipName = some relationship ∧ c.targetAlias = some target ∧
      c.sourceAlias = anchor := by
  unfold follow
  split
  · next hr => simp [hr]
  · next hr ht => simp [ht]
  · next r t hr ht =>
    by_cases ha : c.sourceAlias = anchor
    · simp [hr, ht, ha]
    · simp [ha]

/-- A link that is followed from where the chain has got to goes on. -/
theorem goesOn_of_follow {clauses : List JoinClause} {i : Nat} (hc : clauses[i]? = some c)
    (ha : reached? clauses (i - 1) = some anchor)
    (h : c.follow anchor = .ok (relationship, target)) :
    GoesOn clauses i := by
  obtain ⟨hr, ht, hs⟩ := follow_eq_ok_iff.mp h
  exact ⟨c, hc, by simp [hr], by simp [ht], by rw [ha, hs]⟩

theorem faultAt_of_follow {clauses : List JoinClause} {i : Nat} (hc : clauses[i]? = some c)
    (ha : reached? clauses (i - 1) = some anchor) (h : c.follow anchor = .error fault) :
    FaultAt clauses i fault := by
  unfold follow at h
  split at h
  · next hr =>
    cases h
    exact .missingRelationship hc hr
  · next hr ht =>
    cases h
    exact .missingTarget hc hr ht
  · next hr ht =>
    by_cases hs : c.sourceAlias = anchor
    · simp [hs] at h
    · simp only [hs, ↓reduceIte] at h
      cases h
      exact .wrongAnchor hc hr ht ha hs

end

end JoinClause

namespace StatementContext

open JoinClause

/-! ### All links -/

section

variable {clauses before hops : List JoinClause} {index : Nat} {anchor : String}

theorem joinTexts_cons (c : JoinClause) (hops : List JoinClause) :
    joinTexts index anchor (c :: hops) =
    ((c.follow anchor).mapError (.brokenJoinChain index)).bind fun next =>
      (joinTexts (index + 1) next.2 hops).map fun texts =>
        (" " ++ c.joinKind.keyword ++ " " ++ anchor ++ "." ++ next.1 ++ " " ++ next.2) :: texts :=
  rfl

/-- A link that was followed is the place the chain has got to when the next one is looked at. -/
private theorem reached?_of_follow {c : JoinClause} {relationship target : String}
    (hc : clauses[index]? = some c) (hindex : 1 ≤ index)
    (h : c.follow anchor = .ok (relationship, target)) :
    reached? clauses (index + 1 - 1) = some target := by
  obtain ⟨_, ht, _⟩ := follow_eq_ok_iff.mp h
  cases index with
  | zero => omega
  | succ k => simp [reached?, hc, ht]

/-- The links from number `index` on are all followed, or the first that does not go on is reported.
The alias that the loop carries is the one that the chain has reached. -/
private theorem joinTexts_cases (hclauses : clauses = before ++ hops)
    (hlength : before.length = index) (hindex : 1 ≤ index)
    (hanchor : reached? clauses (index - 1) = some anchor) :
    (joinTexts index anchor hops = .ok (hops.map JoinClause.segment) ∧
      ∀ i, index ≤ i → i < clauses.length → GoesOn clauses i) ∨
    ∃ i fault, joinTexts index anchor hops = .error (.brokenJoinChain i fault) ∧ index ≤ i ∧
      FaultAt clauses i fault ∧ ∀ k, index ≤ k → k < i → GoesOn clauses k := by
  induction hops generalizing before index anchor with
  | nil =>
    left
    refine ⟨rfl, fun i hle hlt => ?_⟩
    rw [hclauses, List.append_nil] at hlt
    omega
  | cons c hops ih =>
    have hc : clauses[index]? = some c := by
      rw [hclauses, ← hlength]
      simp
    rw [joinTexts_cons]
    cases hfollow : c.follow anchor with
    | error fault =>
      right
      refine ⟨index, fault, rfl, Nat.le_refl _, faultAt_of_follow hc hanchor hfollow, ?_⟩
      intro k hle hlt
      omega
    | ok next =>
      obtain ⟨relationship, target⟩ := next
      have hgoes := goesOn_of_follow hc hanchor hfollow
      have hfrom {P : Nat → Prop} {k : Nat} (hk : index ≤ k) (hfirst : P index)
          (hrest : index + 1 ≤ k → P k) : P k := by
        rcases Nat.eq_or_lt_of_le hk with rfl | hlt
        · exact hfirst
        · exact hrest hlt
      have hstep :=
        @ih (before ++ [c]) (index + 1) target (by rw [hclauses, List.append_assoc]; rfl)
        (by rw [List.length_append, hlength]; rfl) (Nat.le_add_left 1 index)
        (reached?_of_follow hc hindex hfollow)
      rcases hstep with ⟨htexts, hall⟩ | ⟨i, fault, herror, hle, hfault, hall⟩
      · left
        constructor
        · obtain ⟨hr, ht, hs⟩ := follow_eq_ok_iff.mp hfollow
          show (joinTexts (index + 1) target hops).map _ = _
          rw [htexts, List.map_cons, JoinClause.segment, hr, ht, hs]
          rfl
        · intro i hle hlt
          exact hfrom hle hgoes fun hle => hall i hle hlt
      · right
        refine ⟨i, fault, ?_, Nat.le_of_succ_le hle, hfault, ?_⟩
        · show (joinTexts (index + 1) target hops).map _ = _
          rw [herror]
          rfl
        · intro k hk hlt
          exact hfrom hk hgoes fun hk => hall k hk hlt

end

/-! ### Statements -/

/-- The text of a statement that selects from the given source. -/
def textFrom (c : StatementContext) (source : String) : String :=
  "SELECT " ++ c.selectExpression ++ " FROM " ++ source ++ whereText c.conditions ++
    orderByText c.orderBy

section

variable {c : StatementContext}

theorem statement_eq (c : StatementContext) : c.statement = c.source.map c.textFrom := rfl

private theorem statement_of_select (hshape : c.shape = .select) :
    c.statement = .ok (c.textFrom (c.entityName ++ " " ++ c.entityAlias)) := by
  rw [statement_eq, source, hshape]
  rfl

private theorem statement_of_no_links (hshape : c.shape = .joinSelect)
    (hnone : c.joinClauses = []) :
    c.statement = .error .joinClauseExpected := by
  rw [statement_eq, source, hshape, hnone]
  rfl

/-- A joined statement has the text of its chain, or the error of the first link that breaks it. -/
private theorem statement_of_links (hshape : c.shape = .joinSelect) {root : JoinClause}
    {hops : List JoinClause} (hclauses : c.joinClauses = root :: hops) :
    (c.statement = .ok (c.textFrom (root.sourceEntityName ++ " " ++ root.sourceAlias ++
        String.join (hops.map JoinClause.segment))) ∧ IsChain c.joinClauses) ∨
    ∃ i fault, c.statement = .error (.brokenJoinChain i fault) ∧ BreaksFirstAt c.joinClauses i ∧
      FaultAt c.joinClauses i fault := by
  have hsource : c.source = (joinTexts 1 root.sourceAlias hops).map fun joins =>
      root.sourceEntityName ++ " " ++ root.sourceAlias ++ String.join joins := by
    rw [source, hshape, hclauses]
  have hanchor : reached? c.joinClauses (1 - 1) = some root.sourceAlias := by
    rw [hclauses]
    rfl
  rcases @joinTexts_cases c.joinClauses [root] hops 1 root.sourceAlias hclauses rfl
    (Nat.le_refl 1) hanchor with
    ⟨htexts, hall⟩ | ⟨i, fault, herror, hle, hfault, hall⟩
  · left
    have hne : c.joinClauses ≠ [] := by
      rw [hclauses]
      exact List.cons_ne_nil root hops
    exact ⟨by rw [statement_eq, hsource, htexts]; rfl, hne, hall⟩
  · right
    exact ⟨i, fault, by rw [statement_eq, hsource, herror]; rfl,
      ⟨hle, hfault.lt_length, hfault.not_goesOn, hall⟩, hfault⟩

end

/-- Assembly succeeds exactly on a statement without joins and on a chain. A joined statement
without links has an error of its own, and one with links that are no chain is refused at the first
link that does not go on, with what is wrong there. The text of a joined statement has the joins of
all links behind the first, in their order; that of any other statement has none. -/
theorem statement_succeeds_iff (c : StatementContext) :
    ((∃ text, c.statement = .ok text) ↔ c.shape = .select ∨ IsChain c.joinClauses) ∧
    (c.shape = .joinSelect → c.joinClauses = [] → c.statement = .error .joinClauseExpected) ∧
    (c.shape = .joinSelect → c.joinClauses ≠ [] → ¬IsChain c.joinClauses →
      ∃ i fault, c.statement = .error (.brokenJoinChain i fault) ∧ BreaksFirstAt c.joinClauses i ∧
        FaultAt c.joinClauses i fault) ∧
    (∀ text, c.shape = .joinSelect → c.statement = .ok text →
      ∃ root hops, c.joinClauses = root :: hops ∧
      text = c.textFrom (root.sourceEntityName ++ " " ++ root.sourceAlias ++
        String.join (hops.map JoinClause.segment))) ∧
    ∀ text, c.shape = .select → c.statement = .ok text →
      text = c.textFrom (c.entityName ++ " " ++ c.entityAlias) := by
  cases hshape : c.shape with
  | select =>
    have htext := statement_of_select hshape
    simp [htext]
  | joinSelect =>
    cases hclauses : c.joinClauses with
    | nil =>
      have herror := statement_of_no_links hshape hclauses
      have hchain : ¬IsChain ([] : List JoinClause) := fun h => h.nonempty rfl
      simp [herror, hchain]
    | cons root hops =>
      rcases statement_of_links hshape hclauses with ⟨htext, hchain⟩ |
        ⟨i, fault, herror, hfirst, hfault⟩
      · rw [hclauses] at hchain
        refine ⟨by simp [htext, hchain], by simp,
          fun _ _ hbroken => absurd hchain hbroken, ?_, by simp⟩
        intro text _ h
        exact ⟨root, hops, rfl, Except.ok.inj (h.symm.trans htext)⟩
      · rw [hclauses] at hfirst hfault
        have hchain := hfirst.not_isChain
        exact ⟨by simp [herror, hchain], by simp, fun _ _ _ => ⟨i, fault, herror, hfirst, hfault⟩,
          by simp [herror], by simp⟩

/-- A start with two links behind it, of which the second starts at the given alias. -/
def threeLinks (shape : StatementShape) (source : String) : StatementContext where
  shape := shape
  entityName := "Stadium"
  entityAlias := "R2"
  selectExpression := "R2"
  joinClauses :=
    [⟨"Match", "E1", none, none, some "E1.id = 7", .inner⟩,
      ⟨"Team", "E1", some "host", some "R1", none, .inner⟩,
      ⟨"Stadium", source, some "home", some "R2", none, .left⟩]
  whereCondition := none
  orderBy := []

/-- Both joins of a chain are written; a link that goes back to the start is the first that breaks
its chain. -/
theorem statement_succeeds_iff_threeLinks :
    (∃ text, (threeLinks .joinSelect "R1").statement = .ok text ∧
      text = "SELECT R2 FROM Match E1 JOIN E1.host R1 LEFT JOIN R1.home R2 WHERE E1.id = 7" ∧
      IsChain (threeLinks .joinSelect "R1").joinClauses) ∧
    ∃ fault, (threeLinks .joinSelect "E1").statement = .error (.brokenJoinChain 2 fault) ∧
      BreaksFirstAt (threeLinks .joinSelect "E1").joinClauses 2 ∧
      FaultAt (threeLinks .joinSelect "E1").joinClauses 2 fault := by
  have hchain := statement_succeeds_iff (threeLinks .joinSelect "R1")
  have hbroken := statement_succeeds_iff (threeLinks .joinSelect "E1")
  constructor
  · have htext : (threeLinks .joinSelect "R1").statement =
        .ok "SELECT R2 FROM Match E1 JOIN E1.host R1 LEFT JOIN R1.home R2 WHERE E1.id = 7" := rfl
    exact ⟨_, htext, rfl, (hchain.1.mp ⟨_, htext⟩).resolve_left (by decide)⟩
  · have herror : (threeLinks .joinSelect "E1").statement =
        .error (.brokenJoinChain 2 (.wrongAnchor "E1" "R1")) := rfl
    have hnot : ¬IsChain (threeLinks .joinSelect "E1").joinClauses := by
      intro h
      obtain ⟨text, htext⟩ := hbroken.1.mpr (.inr h)
      cases herror.symm.trans htext
    obtain ⟨i, fault, hstatement, hfirst, hfault⟩ := hbroken.2.2.1 rfl (List.cons_ne_nil _ _) hnot
    cases herror.symm.trans hstatement
    exact ⟨_, herror, hfirst, hfault⟩

/-- A statement without joins passes over links that it has nevertheless: its text does not have the
join of the link behind the first. -/
theorem statement_select_threeLinks :
    (threeLinks .select "R1").statement = .ok "SELECT R2 FROM Stadium R2" ∧
    ∃ clause ∈ (threeLinks .select "R1").joinClauses.tail,
      clause.segment = " JOIN E1.host R1" ∧
        ¬clause.segment.toList <:+: "SELECT R2 FROM Stadium R2".toList := by
  refine ⟨rfl, _, List.mem_cons_self, rfl, fun h => ?_⟩
  have hmem : 'J' ∈ "SELECT R2 FROM Stadium R2".toList := h.subset (by decide)
  exact absurd hmem (by decide)

end StatementContext

end EntityQuery
