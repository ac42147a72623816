import EntityQuery.Literal.Basic
import EntityQuery.Operator.Standard

/-!
# JPQL expressions

The expressions that conditions and sort keys of a JPQL statement are made of, and their text.
Parentheses are part of the tree, so the text is read off without further decisions.
-/

namespace EntityQuery

/-- A JPQL expression. -/
inductive Jpql where
  | literal (value : Literal)
  | property (qualifier name : String)
  | member (base : Jpql) (name : String)
  | not (operand : Jpql)
  | negate (operand : Jpql)
  | binary (op : BinaryOperator) (left right : Jpql)
  | isNull (operand : Jpql)
  | isNotNull (operand : Jpql)
  | call (name : String) (arguments : List Jpql)
  | extract (field : String) (operand : Jpql)
  | paren (inner : Jpql)
  deriving Repr

namespace Jpql

mutual

/-- The text of an expression. -/
def text : Jpql → String
  | .literal value => value.text
  | .property qualifier name => qualifier ++ "." ++ name
  | .member base name => base.text ++ "." ++ name
  | .not operand => "NOT(" ++ operand.text ++ ")"
  | .negate operand => "-" ++ operand.text
  | .binary op left right => left.text ++ " " ++ op.surface ++ " " ++ right.text
  | .isNull operand => operand.text ++ " IS NULL"
  | .isNotNull operand => operand.text ++ " IS NOT NULL"
  | .call name arguments => name ++ "(" ++ ", ".intercalate (texts arguments) ++ ")"
  | .extract field operand => "EXTRACT(" ++ field ++ " FROM " ++ operand.text ++ ")"
  | .paren inner => "(" ++ inner.text ++ ")"

/-- The texts of expressions. -/
def texts : List Jpql → List String
  | [] => []
  | e :: rest => e.text :: texts rest

end

/-- The expression in parentheses, if it needs them. -/
def parenIf (needed : Bool) (e : Jpql) : Jpql := if needed then .paren e else e

/-- Whether the text starts with a minus sign. -/
def startsWithMinus (e : Jpql) : Bool := e.text.toList.head? == some '-'

/-- An integer constant. -/
def integer (n : Int) : Jpql := .literal (Literal.integer n)

end Jpql

end EntityQuery
