import EntityQuery.Model.SimpleType

/-!
# Entity data models

A model names entity sets, entity types and complex types. Types, properties and navigation
properties may carry a mapping: the name that the store knows them by. Of several declarations of
one name the first counts.
-/

namespace EntityQuery

/-- The declared type of a property: a primitive type, or a complex type by its name. -/
inductive PropertyType where
  | simple (type : SimpleType)
  | complex (name : String)
  deriving DecidableEq, Repr

namespace PropertyType

/-- The name of the type. -/
def text : PropertyType → String
  | .simple t => t.name
  | .complex name => name

/-- The type as the type of an expression. -/
def valueType : PropertyType → ValueType
  | .simple t => .simple t
  | .complex name => .complex name

end PropertyType

/-- The restrictions on the values of a property. -/
structure Facets where
  nullable : Option Bool
  maxLength : Option UInt32
  precision : Option UInt32
  scale : Option UInt32
  deriving DecidableEq, Repr

namespace Facets

/-- No restriction. -/
def none : Facets := ⟨.none, .none, .none, .none⟩

/-- Null is allowed unless it is forbidden. -/
def isNullable (f : Facets) : Bool := f.nullable.getD true

end Facets

/-- A property of an entity or complex type. -/
structure Property where
  name : String
  type : PropertyType
  facets : Facets
  mapping : Option String
  deriving DecidableEq, Repr

/-- The name that the store knows a property by. -/
def Property.internalName (p : Property) : String := p.mapping.getD p.name

/-- How many entities the far end of a navigation property can have. -/
inductive Multiplicity where
  | zeroOrOne
  | one
  | many
  deriving DecidableEq, Repr

/-- At most one entity. -/
def Multiplicity.isSingle : Multiplicity → Bool
  | .many => false
  | _ => true

/-- One end of a relationship between entity types. -/
structure NavigationProperty where
  name : String
  relationship : String
  targetType : String
  multiplicity : Multiplicity
  mapping : Option String
  deriving DecidableEq, Repr

/-- The name that the store knows a relationship by. -/
def NavigationProperty.internalName (p : NavigationProperty) : String := p.mapping.getD p.name

/-- A type of entities, with the names of its key properties in declaration order. -/
structure EntityType where
  name : String
  mapping : Option String
  key : List String
  properties : List Property
  navigationProperties : List NavigationProperty
  deriving DecidableEq, Repr

namespace EntityType

/-- The name that the store knows an entity by. -/
def internalName (t : EntityType) : String := t.mapping.getD t.name

/-- The property of a name. -/
def property? (t : EntityType) (name : String) : Option Property :=
  t.properties.find? fun p => p.name == name

/-- The navigation property of a name. -/
def navigationProperty? (t : EntityType) (name : String) : Option NavigationProperty :=
  t.navigationProperties.find? fun p => p.name == name

/-- The key properties that are declared, in the order of the key. -/
def keyProperties (t : EntityType) : List Property := t.key.filterMap t.property?

end EntityType

/-- A type of structured values without identity. -/
structure ComplexType where
  name : String
  properties : List Property
  deriving DecidableEq, Repr

/-- The property of a name. -/
def ComplexType.property? (t : ComplexType) (name : String) : Option Property :=
  t.properties.find? fun p => p.name == name

/-- A named collection of entities of one type. -/
structure EntitySet where
  name : String
  entityType : String
  deriving DecidableEq, Repr

/-- An entity data model. -/
structure Model where
  schema : String
  entitySets : List EntitySet
  entityTypes : List EntityType
  complexTypes : List ComplexType
  deriving DecidableEq, Repr

namespace Model

/-- The entity set of a name. -/
def entitySet? (m : Model) (name : String) : Option EntitySet :=
  m.entitySets.find? fun s => s.name == name

/-- The entity type of a name. -/
def entityType? (m : Model) (name : String) : Option EntityType :=
  m.entityTypes.find? fun t => t.name == name

/-- The complex type of a name. -/
def complexType? (m : Model) (name : String) : Option ComplexType :=
  m.complexTypes.find? fun t => t.name == name

/-- The type of the entities of a set. -/
def entityTypeOfSet? (m : Model) (name : String) : Option EntityType :=
  (m.entitySet? name).bind fun s => m.entityType? s.entityType

end Model

end EntityQuery
