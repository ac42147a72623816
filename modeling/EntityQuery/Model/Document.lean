import EntityQuery.Json.Record
import EntityQuery.Model.Basic

/-!
# Model documents

Models are read from JSON documents and written to them. A property type is one string: a name that
starts with `Edm.` is a primitive type, any other the name of a complex type.
-/

namespace EntityQuery

open Json

/-- Reads a primitive type by its name. -/
def SimpleType.ofJson? (j : Json) : Option SimpleType := j.name?.bind SimpleType.ofName?

/-- The property type of a name; an unknown name that starts with `Edm.` has none. -/
def PropertyType.ofName? (name : String) : Option PropertyType :=
  if "Edm.".toList.isPrefixOf name.toList then (SimpleType.ofName? name).map .simple
  else some (.complex name)

/-- Reads a property type. -/
def PropertyType.ofJson? (j : Json) : Option PropertyType := j.string?.bind PropertyType.ofName?

/-- The name of a multiplicity. -/
def Multiplicity.name : Multiplicity → String
  | .zeroOrOne => "0..1"
  | .one => "1"
  | .many => "*"

/-- The multiplicity of a name. -/
def Multiplicity.ofName? (name : String) : Option Multiplicity :=
  [Multiplicity.zeroOrOne, .one, .many].find? fun m => m.name == name

/-- Reads a multiplicity. -/
def Multiplicity.ofJson? (j : Json) : Option Multiplicity := j.name?.bind Multiplicity.ofName?

/-- Reads facets. -/
def Facets.ofJson? (j : Json) : Option Facets := do
  match ← j.fields? ["nullable", "maxLength", "precision", "scale"] with
  | [nullable, maxLength, precision, scale] =>
    return ⟨← optional bool? nullable, ← optional uint32? maxLength, ← optional uint32? precision,
      ← optional uint32? scale⟩
  | _ => failure

/-- Writes facets. -/
def Facets.toJson (f : Facets) : Json :=
  ofMembers [("nullable", f.nullable.map .bool), ("maxLength", f.maxLength.map ofUInt32),
    ("precision", f.precision.map ofUInt32), ("scale", f.scale.map ofUInt32)]

/-- Reads a property. -/
def Property.ofJson? (j : Json) : Option Property := do
  match ← j.fields? ["name", "type", "facets", "mapping"] with
  | [name, type, facets, mapping] =>
    return ⟨← required string? name, ← required PropertyType.ofJson? type,
      ← defaulted Facets.none Facets.ofJson? facets, ← optional string? mapping⟩
  | _ => failure

/-- Writes a property. -/
def Property.toJson (p : Property) : Json :=
  ofMembers [("name", some (.string p.name)), ("type", some (.string p.type.text)),
    ("facets", some p.facets.toJson), ("mapping", p.mapping.map .string)]

/-- Reads a navigation property. -/
def NavigationProperty.ofJson? (j : Json) : Option NavigationProperty := do
  match ← j.fields? ["name", "relationship", "targetType", "multiplicity", "mapping"] with
  | [name, relationship, targetType, multiplicity, mapping] =>
    return ⟨← required string? name, ← required string? relationship, ← required string? targetType,
      ← required Multiplicity.ofJson? multiplicity, ← optional string? mapping⟩
  | _ => failure

/-- Writes a navigation property. -/
def NavigationProperty.toJson (p : NavigationProperty) : Json :=
  ofMembers [("name", some (.string p.name)), ("relationship", some (.string p.relationship)),
    ("targetType", some (.string p.targetType)),
    ("multiplicity", some (.string p.multiplicity.name)),
    ("mapping", p.mapping.map .string)]

/-- Reads an entity type. -/
def EntityType.ofJson? (j : Json) : Option EntityType := do
  match ← j.fields? ["name", "mapping", "key", "properties", "navigationProperties"] with
  | [name, mapping, key, properties, navigationProperties] =>
    return ⟨← required string? name, ← optional string? mapping, ← required (list? string?) key,
      ← defaulted [] (list? Property.ofJson?) properties,
      ← defaulted [] (list? NavigationProperty.ofJson?) navigationProperties⟩
  | _ => failure

/-- Writes an entity type. -/
def EntityType.toJson (t : EntityType) : Json :=
  ofMembers [("name", some (.string t.name)), ("mapping", t.mapping.map .string),
    ("key", some (ofStrings t.key)),
    ("properties", some (.array (t.properties.map Property.toJson))),
    ("navigationProperties", some (.array (t.navigationProperties.map NavigationProperty.toJson)))]

/-- Reads a complex type. -/
def ComplexType.ofJson? (j : Json) : Option ComplexType := do
  match ← j.fields? ["name", "properties"] with
  | [name, properties] =>
    return ⟨← required string? name, ← defaulted [] (list? Property.ofJson?) properties⟩
  | _ => failure

/-- Writes a complex type. -/
def ComplexType.toJson (t : ComplexType) : Json :=
  .object [("name", .string t.name), ("properties", .array (t.properties.map Property.toJson))]

/-- Reads an entity set. -/
def EntitySet.ofJson? (j : Json) : Option EntitySet := do
  match ← j.fields? ["name", "entityType"] with
  | [name, entityType] => return ⟨← required string? name, ← required string? entityType⟩
  | _ => failure

/-- Writes an entity set. -/
def EntitySet.toJson (s : EntitySet) : Json :=
  .object [("name", .string s.name), ("entityType", .string s.entityType)]

/-- Reads a model. -/
def Model.ofJson? (j : Json) : Option Model := do
  match ← j.fields? ["namespace", "entitySets", "entityTypes", "complexTypes"] with
  | [schema, entitySets, entityTypes, complexTypes] =>
    return ⟨← defaulted "" string? schema, ← defaulted [] (list? EntitySet.ofJson?) entitySets,
      ← defaulted [] (list? EntityType.ofJson?) entityTypes,
      ← defaulted [] (list? ComplexType.ofJson?) complexTypes⟩
  | _ => failure

/-- Writes a model. -/
def Model.toJson (m : Model) : Json :=
  .object [("namespace", .string m.schema),
    ("entitySets", .array (m.entitySets.map EntitySet.toJson)),
    ("entityTypes", .array (m.entityTypes.map EntityType.toJson)),
    ("complexTypes", .array (m.complexTypes.map ComplexType.toJson))]

end EntityQuery
