import EntityQuery.Expr.Error
import EntityQuery.Jpql.Basic
import EntityQuery.Operator.Table

/-!
# From expressions to JPQL

Properties are qualified by the alias of their entity, comparisons with `null` become null tests,
and methods become functions. An operand is put in parentheses only where the JPQL operators around
it would otherwise take it apart.
-/

namespace EntityQuery

/-- How tightly JPQL comparisons and null tests bind. -/
def comparisonStrength : Nat := 4

/-- How tightly literals, paths and function calls bind. -/
def atomStrength : Nat := 9

/-- How tightly the JPQL form of an operator binds. All comparisons bind alike, and `mod` becomes a
function. -/
def BinaryOperator.strength : BinaryOperator → Nat
  | .or => 1
  | .and => 2
  | .eq | .ne | .lt | .le | .gt | .ge => comparisonStrength
  | .add | .sub => 5
  | .mul | .div => 6
  | .mod => atomStrength

/-- Operators whose chains mean the same however they are grouped. -/
def BinaryOperator.isAssociative : BinaryOperator → Bool
  | .or | .and | .add | .mul => true
  | _ => false

/-- Comparisons that become null tests beside the literal `null`. -/
def BinaryOperator.isEquality : BinaryOperator → Bool
  | .eq | .ne => true
  | _ => false

namespace Expr

/-- How tightly the JPQL form of an expression binds. -/
def strength : Expr → Nat
  | .binary _ op _ _ => op.strength
  | .unary _ .negate _ => 7
  | _ => atomStrength

/-- Whether the root is the given operator. -/
def isChainOf (op : BinaryOperator) : Expr → Bool
  | .binary _ inner _ _ => inner == op
  | _ => false

/-- Whether an operand of an operator needs parentheses. Of equal strength, comparisons always do,
and a right operand does unless it goes on a chain of the same associative operator. -/
def needsParen (op : BinaryOperator) (isRight : Bool) (operand : Expr) : Bool :=
  if operand.strength < op.strength then true
  else if op.strength < operand.strength then false
  else if op.strength = comparisonStrength then true
  else isRight && !(op.isAssociative && operand.isChainOf op)

end Expr

namespace Jpql

/-- The null test of an operator on an operand. -/
def nullTest (op : BinaryOperator) (operand : Jpql) : Jpql :=
  if op = .eq then .isNull operand else .isNotNull operand

/-- The call of a method; arguments beyond those the method uses are dropped. Positions in a text
count from 0 in expressions and from 1 in JPQL. -/
def ofMethod? (method : Method) (arguments : List Jpql) : Option Jpql :=
  match method, arguments with
  | .substringOf, a :: b :: _ => some (.paren (.binary .gt (.call "LOCATE" [a, b]) (integer 0)))
  | .startsWith, a :: b :: _ => some (.paren (.binary .eq (.call "LOCATE" [b, a]) (integer 1)))
  | .endsWith, a :: b :: _ =>
    let start := .binary .add (.binary .sub (.call "LENGTH" [a]) (.call "LENGTH" [b])) (integer 1)
    some (.paren (.binary .eq (.call "SUBSTRING" [a, start]) b))
  | .indexOf, a :: b :: _ => some (.paren (.binary .sub (.call "LOCATE" [b, a]) (integer 1)))
  | .substring, a :: b :: rest =>
    some (.call "SUBSTRING" (a :: .binary .add b (integer 1) :: rest.take 1))
  | .concat, all => some (.call "CONCAT" all)
  | .toLower, a :: _ => some (.call "LOWER" [a])
  | .toUpper, a :: _ => some (.call "UPPER" [a])
  | .trim, a :: _ => some (.call "TRIM" [a])
  | .length, a :: _ => some (.call "LENGTH" [a])
  | .round, a :: _ => some (.call "ROUND" [a])
  | .floor, a :: _ => some (.call "FLOOR" [a])
  | .ceiling, a :: _ => some (.call "CEILING" [a])
  | .year, a :: _ => some (.extract "YEAR" a)
  | .month, a :: _ => some (.extract "MONTH" a)
  | .day, a :: _ => some (.extract "DAY" a)
  | .hour, a :: _ => some (.extract "HOUR" a)
  | .minute, a :: _ => some (.extract "MINUTE" a)
  | .second, a :: _ => some (.extract "SECOND" a)
  | _, _ => none

mutual

/-- The JPQL form of an expression whose properties belong to the entity with alias `qualifier`. -/
def ofExpr (qualifier : String) : Expr → Except RenderError Jpql
  | .literal _ value => .ok (.literal value)
  | .property _ ref => .ok (.property qualifier ref.internalName)
  | .member _ path target =>
    match target with
    | .property _ ref => (ofExpr qualifier path).map fun base => .member base ref.internalName
    | other => .error (.memberAccess other.kind)
  | .unary _ .not operand => (ofExpr qualifier operand).map .not
  | .unary _ .negate operand =>
    (ofExpr qualifier operand).map fun inner =>
      .negate (inner.parenIf (decide (operand.strength < atomStrength) || inner.startsWithMinus))
  | .binary _ op left right =>
    if op.isEquality && right.isNull then
      (ofExpr qualifier left).map fun inner =>
        nullTest op (inner.parenIf (decide (left.strength ≤ comparisonStrength)))
    else if op.isEquality && left.isNull then
      (ofExpr qualifier right).map fun inner =>
        nullTest op (inner.parenIf (decide (right.strength ≤ comparisonStrength)))
    else if op != .mod && (OperatorTable.standard.get? (.binary op)).isNone then
      .error (.unknownOperator op)
    else
      match ofExpr qualifier left, ofExpr qualifier right with
      | .error e, _ => .error e
      | _, .error e => .error e
      | .ok l, .ok r =>
        if op = .mod then .ok (.call op.surface [l, r])
        else
          .ok (.binary op (l.parenIf (left.needsParen op false))
            (r.parenIf (right.needsParen op true)))
  | .call _ method arguments =>
    match ofExprs qualifier arguments with
    | .error e => .error e
    | .ok rendered =>
      match ofMethod? method rendered with
      | some e => .ok e
      | none => .error (.argumentCount method rendered.length)

/-- The JPQL forms of expressions; the first that has none decides the error. -/
def ofExprs (qualifier : String) : List Expr → Except RenderError (List Jpql)
  | [] => .ok []
  | e :: rest =>
    match ofExpr qualifier e, ofExprs qualifier rest with
    | .error err, _ => .error err
    | _, .error err => .error err
    | .ok r, .ok rs => .ok (r :: rs)

end

end Jpql

/-- The JPQL text of an expression of a primitive type. -/
def translate (qualifier : String) (e : Expr) : Except RenderError String :=
  if e.type.isStructural then .error (.structural e.kind e.type)
  else (Jpql.ofExpr qualifier e).map Jpql.text

end EntityQuery
