import EntityQuery.Calendar.Reader
import EntityQuery.Literal.Basic

/-!
# Typed literals

A word directly before a quoted text names the type of the literal: `datetime'2010-01-01T12:00'`.
-/

namespace EntityQuery

/-- The words that may stand before a quoted text, by what they announce. -/
inductive LiteralTag where
  | dateTime
  | dateTimeOffset
  | time
  | guid
  | binary
  deriving DecidableEq, Repr

namespace LiteralTag

/-- The tag that a word is. -/
def ofWord? (word : List Char) : Option LiteralTag :=
  if word = "datetime".toList then some .dateTime
  else if word = "datetimeoffset".toList then some .dateTimeOffset
  else if word = "time".toList then some .time
  else if word = "guid".toList then some .guid
  else if word = "binary".toList ∨ word = "X".toList then some .binary
  else none

/-- The literal of a tag and the unquoted text after it, if the text is well formed. -/
def literal? (tag : LiteralTag) (body : List Char) : Option Literal :=
  match tag with
  | .dateTime => (Calendar.readDateTime? body).map fun v => ⟨.dateTime, .dateTime v⟩
  | .dateTimeOffset =>
    (Calendar.readOffsetDateTime? body).map fun v => ⟨.dateTimeOffset, .dateTimeOffset v⟩
  | .time => (TimeOfDay.ofDuration? body).map fun v => ⟨.time, .time v⟩
  | .guid => (Guid.ofText? body).map fun v => ⟨.guid, .guid v⟩
  | .binary => (Text.hexBytes? body).map fun v => ⟨.binary, .binary v⟩

end LiteralTag

end EntityQuery
