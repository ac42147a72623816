import EntityQuery.Operator.Signature

/-!
# The standard operators

The descriptor of every operator of the language. The precedences are the only source of what binds
tighter in an expression.
-/

namespace EntityQuery

/-- The types whose values can be compared, in the order their signatures are tried. -/
def equalityTypes : List SimpleType :=
  [.string, .time, .dateTime, .dateTimeOffset, .guid, .boolean, .sbyte, .byte, .int16, .int32,
    .int64, .single, .double, .decimal, .binary]

/-- The types whose values can be added and multiplied, in the order their signatures are tried. -/
def arithmeticTypes : List SimpleType :=
  [.sbyte, .byte, .int16, .int32, .int64, .single, .double, .decimal]

/-- A signature without repetition. -/
def Signature.fixed (parameters : List SimpleType) (result : SimpleType) : Signature :=
  ⟨parameters, result, false⟩

namespace BinaryOperator

/-- How an operator is written in JPQL. -/
def surface : BinaryOperator → String
  | .or => "OR"
  | .and => "AND"
  | .eq => "="
  | .ne => "<>"
  | .lt => "<"
  | .le => "<="
  | .gt => ">"
  | .ge => ">="
  | .add => "+"
  | .sub => "-"
  | .mul => "*"
  | .div => "/"
  | .mod => "MOD"

/-- How tightly an operator binds in an expression. -/
def precedence : BinaryOperator → Nat
  | .or => 1
  | .and => 2
  | .eq | .ne => 3
  | .lt | .le | .gt | .ge => 4
  | .add | .sub => 5
  | .mul | .div | .mod => 6

/-- The group of an operator. -/
def category : BinaryOperator → OperatorCategory
  | .or | .and => .logical
  | .eq | .ne | .lt | .le | .gt | .ge => .comparison
  | .add | .sub | .mul | .div | .mod => .arithmetic

/-- The signatures of an operator: values are compared with values of the same type, and truth
values only for equality; numbers are combined within one type. -/
def signatures (op : BinaryOperator) : List Signature :=
  match op with
  | .or | .and => [.fixed [.boolean, .boolean] .boolean]
  | .eq | .ne => equalityTypes.map fun t => .fixed [t, t] .boolean
  | .lt | .le | .gt | .ge =>
    (equalityTypes.filter (· != .boolean)).map fun t => .fixed [t, t] .boolean
  | .add | .sub | .mul | .div | .mod => arithmeticTypes.map fun t => .fixed [t, t] t

end BinaryOperator

/-- The signatures of an operator: `not` takes a truth value, the minus sign a signed number. -/
def UnaryOperator.signatures : UnaryOperator → List Signature
  | .not => [.fixed [.boolean] .boolean]
  | .negate => (arithmeticTypes.filter (· != .byte)).map fun t => .fixed [t] t

/-- The signatures of a method. -/
def Method.signatures : Method → List Signature
  | .endsWith | .startsWith | .substringOf => [.fixed [.string, .string] .boolean]
  | .indexOf => [.fixed [.string, .string] .int32]
  | .toLower | .toUpper | .trim => [.fixed [.string] .string]
  | .substring =>
    [.fixed [.string, .int32] .string, .fixed [.string, .int32, .int32] .string]
  | .concat => [⟨[.string, .string], .string, true⟩]
  | .length => [.fixed [.string] .int32]
  | .year | .month | .day | .hour | .minute | .second =>
    [.fixed [.dateTime] .int32, .fixed [.dateTimeOffset] .int32]
  | .round | .floor | .ceiling => [.fixed [.decimal] .decimal, .fixed [.double] .double]

/-- How tightly both unary operators bind: tighter than every binary one. -/
def unaryPrecedence : Nat := 7

/-- The standard descriptor of an operator. -/
def Operator.descriptor (op : Operator) : Descriptor :=
  match op with
  | .binary b => ⟨op, op.keyword, b.surface, b.category, b.precedence, .declared b.signatures⟩
  | .unary .not =>
    ⟨op, op.keyword, "NOT", .unary, unaryPrecedence, .declared UnaryOperator.not.signatures⟩
  | .unary .negate =>
    ⟨op, op.keyword, "-", .unary, unaryPrecedence, .declared UnaryOperator.negate.signatures⟩
  | .method m => ⟨op, op.keyword, m.name, .method, 0, .declared m.signatures⟩
  | .member => ⟨op, op.keyword, ".", .member, unaryPrecedence + 1, .lastParameter⟩

end EntityQuery
