/-!
# Aliases

A statement names its entities by aliases: a prefix and a number that counts from 1, with one count
for entities and one for relationships.
-/

namespace EntityQuery

/-- The prefixes of aliases and how many of each are used. -/
structure AliasSupply where
  entityPrefix : String
  relationshipPrefix : String
  entities : Nat
  relationships : Nat
  deriving DecidableEq, Repr

namespace AliasSupply

/-- No alias is used yet. -/
def start (entityPrefix relationshipPrefix : String) : AliasSupply :=
  ⟨entityPrefix, relationshipPrefix, 0, 0⟩

/-- The next alias of an entity. -/
def nextEntity (s : AliasSupply) : String × AliasSupply :=
  (s.entityPrefix ++ (s.entities + 1).repr, { s with entities := s.entities + 1 })

/-- The next alias of a relationship. -/
def nextRelationship (s : AliasSupply) : String × AliasSupply :=
  (s.relationshipPrefix ++ (s.relationships + 1).repr,
    { s with relationships := s.relationships + 1 })

end AliasSupply

end EntityQuery
