/-!
# Operators

The operators and methods of filter expressions and the keywords they are written with.
-/

namespace EntityQuery

/-- The operators between two operands. -/
inductive BinaryOperator where
  | or
  | and
  | eq
  | ne
  | lt
  | le
  | gt
  | ge
  | add
  | sub
  | mul
  | div
  | mod
  deriving DecidableEq, Repr

namespace BinaryOperator

/-- All binary operators. -/
def all : List BinaryOperator :=
  [.or, .and, .eq, .ne, .lt, .le, .gt, .ge, .add, .sub, .mul, .div, .mod]

/-- The keyword of an operator. -/
def keyword : BinaryOperator → String
  | .or => "or"
  | .and => "and"
  | .eq => "eq"
  | .ne => "ne"
  | .lt => "lt"
  | .le => "le"
  | .gt => "gt"
  | .ge => "ge"
  | .add => "add"
  | .sub => "sub"
  | .mul => "mul"
  | .div => "div"
  | .mod => "mod"

/-- The operator of a keyword. -/
def ofKeyword? (word : String) : Option BinaryOperator := all.find? fun op => op.keyword == word

end BinaryOperator

/-- The operators before one operand. -/
inductive UnaryOperator where
  | not
  | negate
  deriving DecidableEq, Repr

/-- The keyword or sign of an operator. -/
def UnaryOperator.keyword : UnaryOperator → String
  | .not => "not"
  | .negate => "-"

/-- The methods that an expression may call. -/
inductive Method where
  | endsWith
  | startsWith
  | substringOf
  | indexOf
  | toLower
  | toUpper
  | trim
  | substring
  | concat
  | length
  | year
  | month
  | day
  | hour
  | minute
  | second
  | round
  | floor
  | ceiling
  deriving DecidableEq, Repr

namespace Method

/-- All methods. -/
def all : List Method :=
  [.endsWith, .startsWith, .substringOf, .indexOf, .toLower, .toUpper, .trim, .substring, .concat,
    .length, .year, .month, .day, .hour, .minute, .second, .round, .floor, .ceiling]

/-- The name of a method. -/
def name : Method → String
  | .endsWith => "endswith"
  | .startsWith => "startswith"
  | .substringOf => "substringof"
  | .indexOf => "indexof"
  | .toLower => "tolower"
  | .toUpper => "toupper"
  | .trim => "trim"
  | .substring => "substring"
  | .concat => "concat"
  | .length => "length"
  | .year => "year"
  | .month => "month"
  | .day => "day"
  | .hour => "hour"
  | .minute => "minute"
  | .second => "second"
  | .round => "round"
  | .floor => "floor"
  | .ceiling => "ceiling"

/-- The method of a name. -/
def ofName? (word : String) : Option Method := all.find? fun m => m.name == word

end Method

/-- Whatever takes operands: a binary or unary operator, a method, or the access to a member. -/
inductive Operator where
  | binary (op : BinaryOperator)
  | unary (op : UnaryOperator)
  | method (m : Method)
  | member
  deriving DecidableEq, Repr

namespace Operator

/-- All operators. -/
def all : List Operator :=
  BinaryOperator.all.map .binary ++ [.unary .not, .unary .negate, .member] ++ Method.all.map .method

/-- How an operator is written, and how error messages name it. -/
def keyword : Operator → String
  | .binary op => op.keyword
  | .unary op => op.keyword
  | .method m => m.name
  | .member => "/"

end Operator

/-- The groups of operators. -/
inductive OperatorCategory where
  | logical
  | comparison
  | arithmetic
  | unary
  | method
  | member
  deriving DecidableEq, Repr

end EntityQuery
