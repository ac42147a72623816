import EntityQuery.Expr.Parser
import EntityQuery.Request.Key

/-!
# Resolved requests

A request is resolved against a model: its names become declarations, its key values literals and
its expressions typed trees. Filter, sort keys and selection belong to the entity type that the last
navigation step leads to.
-/

namespace EntityQuery

/-- Why a request does not fit a model. -/
inductive RequestError where
  | unknownEntitySet (name : String)
  | unknownEntityType (name : String)
  | unknownNavigation (entityType property : String)
  | unknownProperty (entityType property : String)
  | invalidKey (entityType : String) (fault : KeyFault)
  | expression (cause : ExpressionError)
  deriving DecidableEq, Repr

/-- The wording of the error. -/
def RequestError.message : RequestError → String
  | .unknownEntitySet name => "unknown entity set: " ++ name
  | .unknownEntityType name => "unknown entity type: " ++ name
  | .unknownNavigation entityType property =>
    "unknown navigation property '" ++ property ++ "' on entity type " ++ entityType
  | .unknownProperty entityType property =>
    "unknown property '" ++ property ++ "' on entity type " ++ entityType
  | .invalidKey entityType fault =>
    "invalid key predicate for " ++ entityType ++ ": " ++ fault.message
  | .expression cause => cause.message

/-- A resolved navigation step. -/
structure Hop where
  navigation : NavigationProperty
  target : EntityType
  keys : List ResolvedKey
  deriving DecidableEq, Repr

/-- A resolved request; an empty selection stands for the whole entity. -/
structure ResolvedRequest where
  start : EntityType
  keys : List ResolvedKey
  hops : List Hop
  filter : Option Expr
  orderBy : List OrderItem
  select : List Property
  skip : Option UInt32
  top : Option UInt32
  count : Bool
  deriving Repr

/-- The entity type at the end of the steps. -/
def Hop.targetOf (start : EntityType) (hops : List Hop) : EntityType :=
  match hops.getLast? with
  | some hop => hop.target
  | none => start

/-- The entity type that a request asks for. -/
def ResolvedRequest.target (r : ResolvedRequest) : EntityType := Hop.targetOf r.start r.hops

/-- The entity type of a name, which must be declared. -/
def Model.requireEntityType (m : Model) (name : String) : Except RequestError EntityType :=
  match m.entityType? name with
  | some t => .ok t
  | none => .error (.unknownEntityType name)

/-- The keys that predicates give to an entity type. -/
def EntityType.requireKeys (t : EntityType) (predicates : List KeyPredicate) :
    Except RequestError (List ResolvedKey) :=
  (resolveKeys t predicates).mapError fun fault => .invalidKey t.name fault

/-- Resolves a navigation step from an entity type. -/
def Model.resolveHop (m : Model) (current : EntityType) (segment : NavigationSegment) :
    Except RequestError Hop := do
  let navigation ← match current.navigationProperty? segment.property with
    | some n => .ok n
    | none => .error (.unknownNavigation current.name segment.property)
  let target ← m.requireEntityType navigation.targetType
  return ⟨navigation, target, ← target.requireKeys segment.keyPredicates⟩

/-- Resolves navigation steps one after the other. -/
def Model.resolveHops (m : Model) (current : EntityType) :
    List NavigationSegment → Except RequestError (List Hop)
  | [] => .ok []
  | segment :: rest => do
    let hop ← m.resolveHop current segment
    return hop :: (← m.resolveHops hop.target rest)

/-- The properties of the given names. -/
def EntityType.requireProperties (t : EntityType) :
    List String → Except RequestError (List Property)
  | [] => .ok []
  | name :: rest => do
    match t.property? name with
    | some p => return p :: (← t.requireProperties rest)
    | none => .error (.unknownProperty t.name name)

/-- The selected properties; a star among the names selects the whole entity. -/
def EntityType.resolveSelect (t : EntityType) (names : List String) :
    Except RequestError (List Property) :=
  if names.contains "*" then .ok [] else t.requireProperties names

/-- Resolves a request. -/
def Model.resolve (m : Model) (r : Request) : Except RequestError ResolvedRequest := do
  let set ← match m.entitySet? r.entitySet with
    | some s => .ok s
    | none => .error (.unknownEntitySet r.entitySet)
  let start ← m.requireEntityType set.entityType
  let keys ← start.requireKeys r.keyPredicates
  let hops ← m.resolveHops start r.navigation
  let target := Hop.targetOf start hops
  let filter ← match r.filter with
    | some text => ((parseFilter m target text).mapError .expression).map some
    | none => .ok none
  let orderBy ← match r.orderBy with
    | some text => (parseOrderBy m target text).mapError .expression
    | none => .ok []
  let select ← target.resolveSelect r.select
  return {
    start, keys, hops, filter, orderBy, select, skip := r.skip, top := r.top, count := r.count }

end EntityQuery
