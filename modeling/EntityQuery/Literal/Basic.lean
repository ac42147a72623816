import EntityQuery.Calendar.DateTime
import EntityQuery.Guid
import EntityQuery.Model.SimpleType
import EntityQuery.Number.Shortest
import EntityQuery.Text.Quoted

/-!
# Literals

A literal is a value with the primitive type it was read with. Its text is a literal of JPQL.
-/

namespace EntityQuery

/-- The value of a literal. A decimal keeps the text it was written with. -/
inductive LiteralValue where
  | null
  | boolean (value : Bool)
  | integer (value : Int)
  | decimal (text : String)
  | float (value : Binary64)
  | string (content : String)
  | binary (bytes : List UInt8)
  | dateTime (value : DateTime)
  | dateTimeOffset (value : OffsetDateTime)
  | time (value : TimeOfDay)
  | guid (value : Guid)
  deriving DecidableEq, Repr

/-- A value and its type. -/
structure Literal where
  type : SimpleType
  value : LiteralValue
  deriving DecidableEq, Repr

namespace Literal

/-- The literal `null`. -/
def null : Literal := ⟨.null, .null⟩

/-- A truth value. -/
def boolean (value : Bool) : Literal := ⟨.boolean, .boolean value⟩

/-- A string. -/
def string (content : String) : Literal := ⟨.string, .string content⟩

/-- The narrowest type of an integer of 64 bits. -/
def narrowestType (n : Int) : SimpleType :=
  if n = 0 ∨ n = 1 then .bit
  else if 2 ≤ n ∧ n ≤ 127 then .uint7
  else if -128 ≤ n ∧ n ≤ -1 then .sbyte
  else if 128 ≤ n ∧ n ≤ 255 then .byte
  else if -32768 ≤ n ∧ n ≤ 32767 then .int16
  else if -2147483648 ≤ n ∧ n ≤ 2147483647 then .int32
  else .int64

/-- An integer of 64 bits, typed as narrowly as it fits. -/
def integer (n : Int) : Literal := ⟨narrowestType n, .integer n⟩

/-- Whether the literal is `null`. -/
def isNull (l : Literal) : Bool :=
  match l.value with
  | .null => true
  | _ => false

/-- The number of characters of a string, the number of bytes of a binary value. -/
def length? (l : Literal) : Option Nat :=
  match l.value with
  | .string content => some content.length
  | .binary bytes => some bytes.length
  | _ => none

end Literal

/-- The JPQL text of a value. -/
def LiteralValue.text : LiteralValue → String
  | .null => "NULL"
  | .boolean value => if value then "true" else "false"
  | .integer value => Text.integerText value
  | .decimal text => text
  | .float value => value.text
  | .string content => Text.quoted content
  | .binary bytes => "X'" ++ Text.upperHexText bytes ++ "'"
  | .dateTime value => "\x7bts '" ++ value.milliText ++ "'\x7d"
  | .dateTimeOffset value => "\x7bts '" ++ value.utc.milliText ++ "'\x7d"
  | .time value => "\x7bt '" ++ value.text ++ "'\x7d"
  | .guid value => "'" ++ value.text ++ "'"

/-- The JPQL text of a literal. -/
def Literal.text (l : Literal) : String := l.value.text

end EntityQuery
