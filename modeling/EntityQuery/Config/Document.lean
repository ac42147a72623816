import EntityQuery.Config.Basic
import EntityQuery.Json.Record

/-!
# Configuration documents

Settings are read from JSON documents and written to them. Only the limit for pages may be left out
of an object; an array has all settings.
-/

namespace EntityQuery

open Json

/-- Reads a kind of joins by its exact name. -/
def JoinKind.ofJson? (j : Json) : Option JoinKind := j.name?.bind JoinKind.ofName?

namespace Config

/-- The fields of a document, in their order. -/
def fieldNames : List String :=
  ["entityAliasPrefix", "relationshipAliasPrefix", "maxPageSize", "joinKind", "logLevel"]

/-- Reads settings. -/
def ofJson? (j : Json) : Option Config := do
  match ← j.fields? fieldNames with
  | [entityAliasPrefix, relationshipAliasPrefix, maxPageSize, joinKind, logLevel] =>
    return ⟨← required string? entityAliasPrefix, ← required string? relationshipAliasPrefix,
      ← optional uint32? maxPageSize, ← required JoinKind.ofJson? joinKind,
      ← required string? logLevel⟩
  | _ => failure

/-- Writes settings. -/
def toJson (c : Config) : Json :=
  .object [("entityAliasPrefix", .string c.entityAliasPrefix),
    ("relationshipAliasPrefix", .string c.relationshipAliasPrefix),
    ("maxPageSize", (c.maxPageSize.map ofUInt32).getD .null), ("joinKind", .string c.joinKind.name),
    ("logLevel", .string c.logLevel)]

end Config

end EntityQuery
