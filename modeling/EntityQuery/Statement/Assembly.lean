import EntityQuery.Statement.Context

/-!
# Statement texts

The text of a statement is put together from its context. Every link of a join chain must start at
the alias that the link before it binds.
-/

namespace EntityQuery

/-- Why a link does not continue its chain. -/
inductive JoinFault where
  | missingRelationship
  | missingTarget
  | wrongAnchor (source anchor : String)
  deriving DecidableEq, Repr

/-- The wording of the fault. -/
def JoinFault.message : JoinFault → String
  | .missingRelationship => "missing relationship name"
  | .missingTarget => "missing target alias"
  | .wrongAnchor source anchor =>
    "clause is anchored at '" ++ source ++ "' but the chain ends at '" ++ anchor ++ "'"

/-- Why a context has no statement. -/
inductive StatementError where
  | joinClauseExpected
  | brokenJoinChain (index : Nat) (fault : JoinFault)
  deriving DecidableEq, Repr

/-- The wording of the error. -/
def StatementError.message : StatementError → String
  | .joinClauseExpected => "join clause expected: a joined statement needs at least one join clause"
  | .brokenJoinChain index fault =>
    "broken join chain at clause " ++ index.repr ++ ": " ++ fault.message

/-- The alias that a link after the first one binds, if it continues a chain that ends at
`anchor`. -/
def JoinClause.follow (c : JoinClause) (anchor : String) : Except JoinFault (String × String) :=
  match c.relationshipName, c.targetAlias with
  | none, _ => .error .missingRelationship
  | some _, none => .error .missingTarget
  | some relationship, some target =>
    if c.sourceAlias = anchor then .ok (relationship, target)
    else .error (.wrongAnchor c.sourceAlias anchor)

namespace StatementContext

/-- The joins of the links from number `index` on, in a chain that ends at `anchor`. -/
def joinTexts (index : Nat) (anchor : String) :
    List JoinClause → Except StatementError (List String)
  | [] => .ok []
  | c :: rest => do
    let (relationship, target) ← (c.follow anchor).mapError (.brokenJoinChain index)
    let text := " " ++ c.joinKind.keyword ++ " " ++ anchor ++ "." ++ relationship ++ " " ++ target
    return text :: (← joinTexts (index + 1) target rest)

/-- What a statement selects from. -/
def source (c : StatementContext) : Except StatementError String :=
  match c.shape, c.joinClauses with
  | .select, _ => .ok (c.entityName ++ " " ++ c.entityAlias)
  | .joinSelect, [] => .error .joinClauseExpected
  | .joinSelect, root :: hops =>
    (joinTexts 1 root.sourceAlias hops).map fun joins =>
      root.sourceEntityName ++ " " ++ root.sourceAlias ++ String.join joins

/-- The conditions of a statement: those of its joins in the order of the chain, then its own. -/
def conditions (c : StatementContext) : List String :=
  (match c.shape with
    | .select => []
    | .joinSelect => c.joinClauses.filterMap JoinClause.joinCondition) ++ c.whereCondition.toList

/-- The `WHERE` part of a statement with these conditions. -/
def whereText (conditions : List String) : String :=
  match conjunction? conditions with
  | some text => " WHERE " ++ text
  | none => ""

/-- The `ORDER BY` part of a statement with these sort keys. -/
def orderByText (keys : List (String × SortOrder)) : String :=
  if keys.isEmpty then ""
  else " ORDER BY " ++ ", ".intercalate (keys.map fun (text, order) => text ++ " " ++ order.keyword)

/-- The text of the statement. -/
def statement (c : StatementContext) : Except StatementError String :=
  c.source.map fun source =>
    "SELECT " ++ c.selectExpression ++ " FROM " ++ source ++ whereText c.conditions ++
      orderByText c.orderBy

end StatementContext

end EntityQuery
