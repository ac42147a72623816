import EntityQuery.Model.SimpleType
import EntityQuery.Operator.Basic

/-!
# Signatures of operators

An operator declares signatures, and the types of its operands choose one: the first that they match
exactly, else the first that they can be promoted to. An operator may instead take the type of its
last operand. The parameter of an operand is found by an index, so a search may fail: a variadic
signature without parameters takes operands that it has no parameter for.
-/

namespace EntityQuery

/-- An index at which a list of the given length has no element. -/
structure OutOfRange where
  index : Nat
  length : Nat
  deriving DecidableEq, Repr

/-- The types of the parameters and of the result; the last parameter may repeat if it is
variadic. -/
structure Signature where
  parameters : List SimpleType
  result : SimpleType
  variadic : Bool
  deriving DecidableEq, Repr

namespace Signature

/-- The type of the parameter for the `i`-th operand, where the last parameter stands for all
operands from it on. Without a parameter there is no last one. -/
def parameterAt (s : Signature) (i : Nat) : Except OutOfRange SimpleType :=
  match s.parameters[min i (s.parameters.length - 1)]? with
  | some formal => .ok formal
  | none => .error ⟨i, s.parameters.length⟩

/-- Whether a signature takes `n` operands. -/
def takes (s : Signature) (n : Nat) : Bool :=
  if s.variadic then decide (s.parameters.length ≤ n) else n == s.parameters.length

/-- Whether operands, of which the first is number `i`, match the parameters by `test`. The first
mismatch ends the search. -/
def fitsFrom (test : SimpleType → SimpleType → Bool) (s : Signature) :
    Nat → List SimpleType → Except OutOfRange Bool
  | _, [] => .ok true
  | i, actual :: rest =>
    match s.parameterAt i with
    | .error e => .error e
    | .ok formal => if test formal actual then fitsFrom test s (i + 1) rest else .ok false

/-- Whether the operands are as many as the signature takes and each one matches its parameter. -/
def fits (test : SimpleType → SimpleType → Bool) (actual : List SimpleType) (s : Signature) :
    Except OutOfRange Bool :=
  if s.takes actual.length then s.fitsFrom test 0 actual else .ok false

end Signature

/-- How the type of a result is found. -/
inductive Signatures where
  | declared (list : List Signature)
  | lastParameter
  deriving DecidableEq, Repr

/-- The primitive types of operands, if all of them are primitive. -/
def simpleTypes? : List ValueType → Option (List SimpleType)
  | [] => some []
  | t :: ts =>
    match t.simple?, simpleTypes? ts with
    | some s, some ss => some (s :: ss)
    | _, _ => none

namespace Signatures

/-- Signatures with more of them behind; none can be added to the rule of the last operand. -/
def append (signatures : Signatures) (more : List Signature) : Signatures :=
  match signatures with
  | .declared list => .declared (list ++ more)
  | .lastParameter => .lastParameter

/-- The first signature that fits, if the search for it comes to an end. -/
def find (fits : Signature → Except OutOfRange Bool) :
    List Signature → Except OutOfRange (Option Signature)
  | [] => .ok none
  | s :: rest =>
    match fits s with
    | .error e => .error e
    | .ok true => .ok (some s)
    | .ok false => find fits rest

/-- The signature that operands of these types choose. -/
def choose (list : List Signature) (actual : List SimpleType) :
    Except OutOfRange (Option Signature) :=
  match find (Signature.fits (· == ·) actual) list with
  | .error e => .error e
  | .ok (some s) => .ok (some s)
  | .ok none => find (Signature.fits SimpleType.accepts actual) list

/-- The type of the result for operands of these types, if the search for a signature comes to an
end. -/
def resolve (signatures : Signatures) (operands : List ValueType) :
    Except OutOfRange (Option ValueType) :=
  match signatures with
  | .lastParameter => .ok operands.getLast?
  | .declared list =>
    match simpleTypes? operands with
    | none => .ok none
    | some actual => (choose list actual).map fun chosen => chosen.map fun s => .simple s.result

end Signatures

/-- What the language knows of an operator: how it is written in expressions and in JPQL, its group,
how tightly it binds, and its signatures. -/
structure Descriptor where
  operator : Operator
  keyword : String
  surface : String
  category : OperatorCategory
  precedence : Nat
  signatures : Signatures
  deriving DecidableEq, Repr

/-- The type of the result for operands of these types. -/
def Descriptor.resolve (d : Descriptor) (operands : List ValueType) :
    Except OutOfRange (Option ValueType) :=
  d.signatures.resolve operands

end EntityQuery
