import EntityQuery.Json.Record
import EntityQuery.Request.Basic

/-!
# Request documents

Requests are read from JSON documents and written to them; what a request does not say is left out.
-/

namespace EntityQuery

open Json

/-- Reads a key predicate. -/
def KeyPredicate.ofJson? (j : Json) : Option KeyPredicate := do
  match ← j.fields? ["property", "value"] with
  | [property, value] => return ⟨← optional string? property, ← required string? value⟩
  | _ => failure

/-- Writes a key predicate. -/
def KeyPredicate.toJson (k : KeyPredicate) : Json :=
  ofMembers [("property", k.property.map .string), ("value", some (.string k.value))]

/-- Reads a navigation segment. -/
def NavigationSegment.ofJson? (j : Json) : Option NavigationSegment := do
  match ← j.fields? ["property", "keyPredicates"] with
  | [property, keyPredicates] =>
    return ⟨← required string? property, ← defaulted [] (list? KeyPredicate.ofJson?) keyPredicates⟩
  | _ => failure

/-- Writes a navigation segment. -/
def NavigationSegment.toJson (s : NavigationSegment) : Json :=
  ofMembers [("property", some (.string s.property)),
    ("keyPredicates", nonEmpty (s.keyPredicates.map KeyPredicate.toJson))]

/-- Reads a request. -/
def Request.ofJson? (j : Json) : Option Request := do
  match ← j.fields? ["entitySet", "keyPredicates", "navigation", "filter", "orderBy", "select",
      "skip", "top", "count"] with
  | [entitySet, keyPredicates, navigation, filter, orderBy, select, skip, top, count] =>
    return ⟨← required string? entitySet, ← defaulted [] (list? KeyPredicate.ofJson?) keyPredicates,
      ← defaulted [] (list? NavigationSegment.ofJson?) navigation, ← optional string? filter,
      ← optional string? orderBy, ← defaulted [] (list? string?) select, ← optional uint32? skip,
      ← optional uint32? top, ← defaulted false bool? count⟩
  | _ => failure

/-- Writes a request. -/
def Request.toJson (r : Request) : Json :=
  ofMembers [("entitySet", some (.string r.entitySet)),
    ("keyPredicates", nonEmpty (r.keyPredicates.map KeyPredicate.toJson)),
    ("navigation", nonEmpty (r.navigation.map NavigationSegment.toJson)),
    ("filter", r.filter.map .string), ("orderBy", r.orderBy.map .string),
    ("select", nonEmpty (r.select.map .string)), ("skip", r.skip.map ofUInt32),
    ("top", r.top.map ofUInt32), ("count", some (.bool r.count))]

end EntityQuery
