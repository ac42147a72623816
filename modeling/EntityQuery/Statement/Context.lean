import EntityQuery.Config.Basic
import EntityQuery.Jpql.OfExpr
import EntityQuery.Request.Resolved
import EntityQuery.Statement.Alias

/-!
# Statement contexts

A context holds the parts of a statement: what is selected, the chain of joined entities with their
aliases, the conditions and the sort keys. It is built from a resolved request.
-/

namespace EntityQuery

/-- Whether a statement has one entity or a chain of joined ones. -/
inductive StatementShape where
  | select
  | joinSelect
  deriving DecidableEq, Repr

/-- A link of a join chain. The first one binds the alias of the start; each other one follows a
relationship from the alias before it and binds a new alias. -/
structure JoinClause where
  sourceEntityName : String
  sourceAlias : String
  relationshipName : Option String
  targetAlias : Option String
  joinCondition : Option String
  joinKind : JoinKind
  deriving DecidableEq, Repr

/-- The parts of a statement. -/
structure StatementContext where
  shape : StatementShape
  entityName : String
  entityAlias : String
  selectExpression : String
  joinClauses : List JoinClause
  whereCondition : Option String
  orderBy : List (String × SortOrder)
  deriving DecidableEq, Repr

/-- Joins conditions so that all of them must hold. -/
def conjunction? (conditions : List String) : Option String :=
  if conditions.isEmpty then none else some (" AND ".intercalate conditions)

/-- The test that a key property of an entity has its value. -/
def ResolvedKey.test (qualifier : String) (key : ResolvedKey) : Jpql :=
  let property := .property qualifier key.property.internalName
  if key.value.isNull then .isNull property else .binary .eq property (.literal key.value)

/-- The condition that an entity has the given key. -/
def keyCondition? (qualifier : String) (keys : List ResolvedKey) : Option String :=
  conjunction? (keys.map fun key => (key.test qualifier).text)

/-- The list of selected properties, or the entity itself. -/
def selectList (qualifier : String) (properties : List Property) : String :=
  if properties.isEmpty then qualifier
  else ", ".intercalate (properties.map fun p => (Jpql.property qualifier p.internalName).text)

namespace StatementContext

/-- The link that binds the start of a chain. -/
def rootClause (joinKind : JoinKind) (qualifier : String) (r : ResolvedRequest) : JoinClause :=
  ⟨r.start.internalName, qualifier, none, none, keyCondition? qualifier r.keys, joinKind⟩

/-- The links of navigation steps from `anchor` on, and the alias of the last entity. -/
def hopClauses (joinKind : JoinKind) (supply : AliasSupply) (anchor : String) :
    List Hop → List JoinClause × String
  | [] => ([], anchor)
  | hop :: rest =>
    let (targetAlias, supply) := supply.nextRelationship
    let (clauses, last) := hopClauses joinKind supply targetAlias rest
    (⟨hop.target.internalName, anchor, some hop.navigation.internalName, some targetAlias,
      keyCondition? targetAlias hop.keys, joinKind⟩ :: clauses, last)

/-- The text of a filter, in parentheses where it is a disjunction beside other conditions. -/
def filterCondition (qualifier : String) (hasOthers : Bool) (filter : Expr) :
    Except RenderError String :=
  (translate qualifier filter).map fun text =>
    if filter.isDisjunction && hasOthers then "(" ++ text ++ ")" else text

/-- The texts of sort keys; the first that has none decides the error. -/
def sortKeys (qualifier : String) : List OrderItem → Except RenderError (List (String × SortOrder))
  | [] => .ok []
  | item :: rest => do
    let text ← translate qualifier item.expression
    return (text, item.order) :: (← sortKeys qualifier rest)

/-- The context of a request that does not ask for an empty page. A count has no sort keys. -/
def ofRequest? (config : Config) (r : ResolvedRequest) :
    Except RenderError (Option StatementContext) := do
  if r.top = some 0 then return none
  let (rootAlias, supply) :=
    (AliasSupply.start config.entityAliasPrefix config.relationshipAliasPrefix).nextEntity
  let isDirect := r.hops.isEmpty
  let (hops, lastAlias) := hopClauses config.joinKind supply rootAlias r.hops
  let joinClauses := if isDirect then [] else rootClause config.joinKind rootAlias r :: hops
  let keyConditions := if isDirect then (keyCondition? rootAlias r.keys).toList else []
  let hasOthers := !keyConditions.isEmpty || joinClauses.any fun c => c.joinCondition.isSome
  let filterConditions ← match r.filter with
    | some filter => (filterCondition lastAlias hasOthers filter).map fun text => [text]
    | none => .ok []
  let orderBy ← if r.count then .ok [] else sortKeys lastAlias r.orderBy
  return some {
    shape := if isDirect then .select else .joinSelect
    entityName := r.target.internalName
    entityAlias := lastAlias
    selectExpression :=
      if r.count then "COUNT(" ++ lastAlias ++ ")" else selectList lastAlias r.select
    joinClauses
    whereCondition := conjunction? (keyConditions ++ filterConditions)
    orderBy }

end StatementContext

end EntityQuery
