/-!
# Requests

A request names an entity set and may address one entity of it by its key, go on by navigation
properties, and filter, sort, select, page or count what it finds. Key values and expressions are
texts that are read against a model later.
-/

namespace EntityQuery

/-- A value for a key property, which is named unless there is only one. -/
structure KeyPredicate where
  property : Option String
  value : String
  deriving DecidableEq, Repr

/-- A step along a navigation property, and the key of the entity to pick there. -/
structure NavigationSegment where
  property : String
  keyPredicates : List KeyPredicate
  deriving DecidableEq, Repr

/-- A query request. -/
structure Request where
  entitySet : String
  keyPredicates : List KeyPredicate
  navigation : List NavigationSegment
  filter : Option String
  orderBy : Option String
  select : List String
  skip : Option UInt32
  top : Option UInt32
  count : Bool
  deriving DecidableEq, Repr

namespace Request

/-- All entities of a set. -/
def all (entitySet : String) : Request := ⟨entitySet, [], [], none, none, [], none, none, false⟩

/-- Adds a key value for the entity of the set. -/
def withKey (r : Request) (key : KeyPredicate) : Request :=
  { r with keyPredicates := r.keyPredicates ++ [key] }

/-- Goes on along a navigation property. -/
def navigate (r : Request) (segment : NavigationSegment) : Request :=
  { r with navigation := r.navigation ++ [segment] }

/-- Keeps only entities that satisfy a condition. -/
def withFilter (r : Request) (filter : String) : Request := { r with filter := some filter }

/-- Sorts the entities. -/
def withOrderBy (r : Request) (orderBy : String) : Request := { r with orderBy := some orderBy }

/-- Selects properties. -/
def withSelect (r : Request) (select : List String) : Request := { r with select }

/-- Leaves out the first entities. -/
def withSkip (r : Request) (skip : UInt32) : Request := { r with skip := some skip }

/-- Limits the number of entities. -/
def withTop (r : Request) (top : UInt32) : Request := { r with top := some top }

/-- Asks for the number of entities instead of the entities. -/
def counting (r : Request) : Request := { r with count := true }

end Request

end EntityQuery
