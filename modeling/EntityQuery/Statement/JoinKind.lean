import EntityQuery.Text.Case

/-!
# Kinds of joins

Entities without a related entity are left out by an inner join and kept by a left join.
-/

namespace EntityQuery

/-- How navigation steps are joined. -/
inductive JoinKind where
  | inner
  | left
  deriving DecidableEq, Repr

namespace JoinKind

/-- The JPQL keyword of a join. -/
def keyword : JoinKind → String
  | .inner => "JOIN"
  | .left => "LEFT JOIN"

/-- The name of a kind. -/
def name : JoinKind → String
  | .inner => "inner"
  | .left => "left"

/-- The kind that has exactly this name. -/
def ofName? (text : String) : Option JoinKind := [inner, left].find? fun k => k.name == text

/-- The kind that has this name in any case. -/
def ofText? (text : String) : Option JoinKind :=
  [inner, left].find? fun k => Text.equalIgnoringCase text k.name

end JoinKind

end EntityQuery
