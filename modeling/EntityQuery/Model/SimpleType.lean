/-!
# Simple types

The primitive types of the entity data model. Besides the types that a model may declare there are
three system types, which only literals have: `bit` for the numbers 0 and 1, which are Boolean and
numeric at once, `uint7` for the numbers up to 127, which fit both byte types, and `null`.
-/

namespace EntityQuery

/-- A primitive type. -/
inductive SimpleType where
  | binary
  | boolean
  | byte
  | dateTime
  | dateTimeOffset
  | decimal
  | double
  | guid
  | int16
  | int32
  | int64
  | sbyte
  | single
  | string
  | time
  | bit
  | uint7
  | null
  deriving DecidableEq, Repr

namespace SimpleType

/-- The types that a model may declare, in catalogue order. -/
def publicTypes : List SimpleType :=
  [.binary, .boolean, .byte, .dateTime, .dateTimeOffset, .decimal, .double, .guid, .int16, .int32,
    .int64, .sbyte, .single, .string, .time]

/-- The types that only literals have. -/
def systemTypes : List SimpleType := [.bit, .uint7, .null]

/-- The qualified name. -/
def name : SimpleType → String
  | .binary => "Edm.Binary"
  | .boolean => "Edm.Boolean"
  | .byte => "Edm.Byte"
  | .dateTime => "Edm.DateTime"
  | .dateTimeOffset => "Edm.DateTimeOffset"
  | .decimal => "Edm.Decimal"
  | .double => "Edm.Double"
  | .guid => "Edm.Guid"
  | .int16 => "Edm.Int16"
  | .int32 => "Edm.Int32"
  | .int64 => "Edm.Int64"
  | .sbyte => "Edm.SByte"
  | .single => "Edm.Single"
  | .string => "Edm.String"
  | .time => "Edm.Time"
  | .bit => "System.Bit"
  | .uint7 => "System.Uint7"
  | .null => "Null"

/-- The type of a qualified name. -/
def ofName? (text : String) : Option SimpleType :=
  (publicTypes ++ systemTypes).find? fun t => t.name == text

/-- No type has this name. -/
structure UnknownTypeName where
  name : String
  deriving DecidableEq, Repr

/-- The wording of the error. -/
def UnknownTypeName.message (e : UnknownTypeName) : String := "unknown simple type name: " ++ e.name

/-- The type of a name, which must be one of the known names. -/
def read (text : String) : Except UnknownTypeName SimpleType :=
  match ofName? text with
  | some t => .ok t
  | none => .error ⟨text⟩

/-- A type that only literals have. -/
def isSystem : SimpleType → Bool
  | .bit | .uint7 | .null => true
  | _ => false

/-- An integer or floating-point type. -/
def isNumeric : SimpleType → Bool
  | .bit | .uint7 | .byte | .sbyte | .int16 | .int32 | .int64 | .single | .double | .decimal => true
  | _ => false

/-- Whether a value of type `actual` may stand where `formal` is expected. The null value may stand
anywhere; a bit widens to Boolean and to every number, a number of seven bits to both byte types,
and the numbers go on by `int16`, `int32`, `int64`, `single`, `double`, `decimal`. -/
def accepts (formal actual : SimpleType) : Bool :=
  formal == actual ||
    match actual with
    | .null => true
    | .bit => formal == .boolean || formal.isNumeric
    | .uint7 => [.byte, .sbyte, .int16, .int32, .int64, .single, .double, .decimal].contains formal
    | .byte | .sbyte => [.int16, .int32, .int64, .single, .double, .decimal].contains formal
    | .int16 => [.int32, .int64, .single, .double, .decimal].contains formal
    | .int32 => [.int64, .single, .double, .decimal].contains formal
    | .int64 => [.single, .double, .decimal].contains formal
    | .single => [.double, .decimal].contains formal
    | .double => formal == .decimal
    | _ => false

end SimpleType

/-- The type of an expression: a primitive type, or a complex or entity type by its name. -/
inductive ValueType where
  | simple (type : SimpleType)
  | complex (name : String)
  | entity (name : String)
  deriving DecidableEq, Repr

namespace ValueType

/-- The primitive type, if it is one. -/
def simple? : ValueType → Option SimpleType
  | .simple t => some t
  | _ => none

/-- A complex or entity type, whose values have properties. -/
def isStructural : ValueType → Bool
  | .simple _ => false
  | _ => true

/-- The name of the type. -/
def text : ValueType → String
  | .simple t => t.name
  | .complex name => name
  | .entity name => name

end ValueType

end EntityQuery
