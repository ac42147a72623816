import EntityQuery.Proofs.Jpql.Renderable

/-!
# Arithmetic values of texts and trees

Integer arithmetic with a quotient that truncates. The text of an arithmetic expression has the
value of the expression, unless a product goes on, without parentheses, in a product that starts
with a quotient: then the reader multiplies before it divides. The exception is exact, since
wherever it occurs among distinct paths, some assignment tells the two values apart.
-/

namespace EntityQuery

open Jpql (Phrase)

/-! ### Values -/

/-- The value of an arithmetic operator. There is none for a divisor zero. -/
def BinaryOperator.intValue? : BinaryOperator → Int → Int → Option Int
  | .add, a, b => some (a + b)
  | .sub, a, b => some (a - b)
  | .mul, a, b => some (a * b)
  | .div, a, b => if b = 0 then none else some (a.tdiv b)
  | .mod, a, b => if b = 0 then none else some (a.tmod b)
  | _, _, _ => none

/-- The value of an operator whose operands may have none. -/
def BinaryOperator.onValues? (op : BinaryOperator) (x y : Option Int) : Option Int :=
  x.bind fun a => y.bind fun b => op.intValue? a b

/-- The value of a phrase, where paths have the values that `env` gives them. -/
def Jpql.Phrase.intValue? (env : String → Int) : Phrase → Option Int
  | .path text => some (env text)
  | .literal text =>
    if Text.isDigits text.toList then some (Text.digitsValue text.toList) else none
  | .negate operand => (operand.intValue? env).map fun a => -a
  | .binary op left right => op.onValues? (left.intValue? env) (right.intValue? env)
  | .modulo left right => BinaryOperator.mod.onValues? (left.intValue? env) (right.intValue? env)
  | .group inner => inner.intValue? env
  | _ => none

/-- The types of integers. -/
def SimpleType.isInteger : SimpleType → Bool
  | .bit | .uint7 | .byte | .sbyte | .int16 | .int32 | .int64 => true
  | _ => false

namespace Expr

/-- Integer literals and integer paths under arithmetic operators. -/
def isArithmetic : Expr → Bool
  | .literal _ ⟨_, .integer _⟩ => true
  | .unary _ .negate operand => operand.isArithmetic
  | .binary _ op left right =>
    decide (op.category = .arithmetic) && left.isArithmetic && right.isArithmetic
  | e => e.isPath && e.type.simple?.any SimpleType.isInteger

/-- The value of a tree, node by node. -/
def intValue? (qualifier : String) (env : String → Int) : Expr → Option Int
  | .literal _ ⟨_, .integer v⟩ => some v
  | .unary _ .negate operand => (operand.intValue? qualifier env).map fun a => -a
  | .binary _ op left right =>
    op.onValues? (left.intValue? qualifier env) (right.intValue? qualifier env)
  | e => if e.isPath then some (env (e.pathText qualifier)) else none

/-- Whether the leftmost chain of products and quotients has a quotient. -/
def startsWithQuotient : Expr → Bool
  | .binary _ .div _ _ => true
  | .binary _ .mul left _ => left.startsWithQuotient
  | _ => false

/-- Whether some product has a product that starts with a quotient as its right operand. -/
def tearsQuotient : Expr → Bool
  | .unary _ _ operand => operand.tearsQuotient
  | .binary _ op left right =>
    (op == .mul && right.isChainOf .mul && right.startsWithQuotient) || left.tearsQuotient ||
      right.tearsQuotient
  | _ => false

end Expr

namespace BinaryOperator

theorem onValues?_eq_some_iff {op : BinaryOperator} {x y : Option Int} {v : Int} :
    op.onValues? x y = some v ↔ ∃ a b, x = some a ∧ y = some b ∧ op.intValue? a b = some v := by
  cases x with
  | none => simp [onValues?]
  | some a =>
    cases y with
    | none => simp [onValues?]
    | some b => simp [onValues?]

theorem onValues?_bind (op : BinaryOperator) (x y : Option Int) (f : Int → Option Int) :
    op.onValues? (x.bind f) y = x.bind fun a => op.onValues? (f a) y := by
  cases x <;> rfl

end BinaryOperator

/-! ### Grafted phrases -/

namespace Jpql.Phrase

variable {env : String → Int}

/-- The value of a phrase as it goes on an operator and its left operand of value `a`. -/
def after? (env : String → Int) (op : BinaryOperator) (a : Int) : Phrase → Option Int
  | .binary inner l r =>
    if inner.strength = op.strength then inner.onValues? (after? env op a l) (r.intValue? env)
    else op.onValues? (some a) (inner.onValues? (l.intValue? env) (r.intValue? env))
  | r => op.onValues? (some a) (r.intValue? env)

theorem after?_of_ne {op : BinaryOperator} {p : Phrase} (a : Int) (h : p.strength ≠ op.strength) :
    p.after? env op a = op.onValues? (some a) (p.intValue? env) := by
  cases p with
  | binary inner l r => exact if_neg h
  | _ => rfl

/-- The value of a graft. -/
theorem intValue?_graft (op : BinaryOperator) (l r : Phrase) :
    (graft op l r).intValue? env = (l.intValue? env).bind fun a => r.after? env op a := by
  induction r with
  | binary inner x y ihx _ =>
    by_cases h : inner.strength = op.strength
    · simp only [graft, after?, if_pos h, intValue?]
      rw [ihx, BinaryOperator.onValues?_bind]
    · simp only [graft, after?, if_neg h, intValue?]
      rfl
  | _ => rfl

/-- Going on in a graft is going on in its parts, one after the other. -/
theorem after?_graft {op inner : BinaryOperator} (h : inner.strength = op.strength) (a : Int)
    (l r : Phrase) : (graft inner l r).after? env op a =
      (l.after? env op a).bind fun b => r.after? env inner b := by
  induction r with
  | binary other x y ihx _ =>
    by_cases ho : other.strength = inner.strength
    · simp only [graft, after?, if_pos ho, if_pos (ho.trans h)]
      rw [ihx, BinaryOperator.onValues?_bind]
    · simp only [graft, after?, if_neg ho, if_pos h]
      rfl
  | _ =>
    simp only [graft, after?, if_pos h]
    rfl

/-- Sums group as they like. -/
theorem after?_add (a : Int) (p : Phrase) :
    p.after? env .add a = BinaryOperator.add.onValues? (some a) (p.intValue? env) := by
  induction p with
  | binary inner l r ihl _ =>
    by_cases h : inner.strength = BinaryOperator.add.strength
    · rw [after?, if_pos h, ihl, intValue?]
      cases l.intValue? env with
      | none => rfl
      | some x =>
        cases r.intValue? env with
        | none => rfl
        | some y =>
          cases inner with
          | add => exact congrArg some (Int.add_assoc a x y)
          | sub => exact congrArg some (Int.add_sub_assoc a x y)
          | _ => exact absurd h (by decide)
    · exact after?_of_ne a h
  | _ => rfl

/-- A phrase goes on a product with one as it stands alone. -/
theorem after?_mul_one (p : Phrase) : p.after? env .mul 1 = p.intValue? env := by
  have one (x : Option Int) : BinaryOperator.mul.onValues? (some 1) x = x := by
    cases x with
    | none => rfl
    | some v => exact congrArg some (Int.one_mul v)
  induction p with
  | binary inner l r ihl _ =>
    by_cases h : inner.strength = BinaryOperator.mul.strength
    · rw [after?, if_pos h, ihl, intValue?]
    · have hne : (Phrase.binary inner l r).strength ≠ BinaryOperator.mul.strength := h
      rw [after?_of_ne 1 hne, one]
  | _ => exact one _

theorem intValue?_groupIf (needed : Bool) (p : Phrase) :
    (p.groupIf needed).regrouped.intValue? env = p.regrouped.intValue? env := by
  cases needed <;> rfl

end Jpql.Phrase

namespace Expr

variable {qualifier : String} {env : String → Int}

/-- The shapes of arithmetic expressions. -/
inductive Arithmetic : Expr → Prop
  | integer (note : Annotation) (type : SimpleType) (v : Int) :
    Arithmetic (.literal note ⟨type, .integer v⟩)
  | path {e : Expr} (h : e.isPath = true) : Arithmetic e
  | negate (note : Annotation) {operand : Expr} (h : Arithmetic operand) :
    Arithmetic (.unary note .negate operand)
  | binary (note : Annotation) {op : BinaryOperator} {left right : Expr}
    (hc : op.category = .arithmetic) (hl : Arithmetic left) (hr : Arithmetic right) :
    Arithmetic (.binary note op left right)

theorem arithmetic_of_isArithmetic {e : Expr} (h : e.isArithmetic = true) : Arithmetic e := by
  fun_induction isArithmetic e with
  | case1 note type v => exact .integer note type v
  | case2 note operand ih => exact .negate note (ih h)
  | case3 note op left right ihl ihr =>
    simp only [Bool.and_eq_true, decide_eq_true_eq] at h
    exact .binary note h.1.1 (ihl h.1.2) (ihr h.2)
  | case4 e =>
    rw [Bool.and_eq_true] at h
    exact .path h.1

theorem Arithmetic.hasCall {e : Expr} (h : e.Arithmetic) : e.hasCall = false := by
  induction h with
  | integer note type v => rfl
  | path hp => exact hasCall_of_isPath hp
  | negate note _ ih => exact ih
  | binary note _ _ _ ihl ihr => rw [Expr.hasCall, ihl, ihr]; rfl

theorem isStructural_of_isArithmetic {e : Expr} (h : e.isRenderable = true)
    (ha : e.isArithmetic = true) : e.type.isStructural = false := by
  cases hs : e.type.isStructural with
  | false => rfl
  | true =>
    have hp := isPath_of_isStructural h hs
    have hinteger : e.type.simple?.any SimpleType.isInteger = true := by
      cases e with
      | property note ref => exact (Bool.and_eq_true_iff.mp ha).2
      | member note base target => exact (Bool.and_eq_true_iff.mp ha).2
      | _ => cases hp
    cases ht : e.type with
    | simple t => rw [ht] at hs; cases hs
    | _ => rw [ht] at hinteger; cases hinteger

theorem intValue?_of_isPath {e : Expr} (h : e.isPath = true) :
    e.intValue? qualifier env = some (env (e.pathText qualifier)) := by
  cases e with
  | property note ref => rfl
  | member note base target => exact if_pos h
  | _ => cases h

/-! ### Values of rendered expressions -/

private theorem intValue?_literal_repr (n : Nat) :
    (Phrase.literal n.repr).intValue? env = some (n : Int) := by
  rw [Phrase.intValue?, if_pos (Text.isDigits_repr n), Text.digitsValue_repr]

/-- The text of an integer has its value. -/
theorem intValue?_rendered_integer (note : Annotation) (type : SimpleType) (v : Int) :
    (rendered qualifier (.literal note ⟨type, .integer v⟩)).regrouped.intValue? env = some v := by
  rw [rendered, regrouped_ofLiteral, Phrase.ofLiteral_of_ne_null (by simp)]
  show (Phrase.ofText (Text.integerText v)).intValue? env = some v
  cases v with
  | ofNat n =>
    have hhead : n.repr.toList.head? ≠ some '-' := by
      intro h
      have hdigit := Text.isDigit_of_mem_repr (List.mem_of_head? h)
      exact absurd hdigit (by decide)
    rw [Text.integerText, Phrase.ofText_of_head hhead]
    exact intValue?_literal_repr n
  | negSucc n =>
    have htext : Phrase.ofText (Text.integerText (.negSucc n)) =
        .negate (.literal (n + 1).repr) := by
      have hcs : (Text.integerText (.negSucc n)).toList = '-' :: (n + 1).repr.toList := by
        simp [Text.integerText]
      rw [Phrase.ofText, hcs]
      show Phrase.negate (.literal (String.ofList (n + 1).repr.toList)) = _
      rw [String.ofList_toList]
    rw [htext, Phrase.intValue?, intValue?_literal_repr]
    rfl

theorem intValue?_rendered_negate (note : Annotation) (x : Expr) :
    (rendered qualifier (.unary note .negate x)).regrouped.intValue? env =
      ((x.rendered qualifier).regrouped.intValue? env).map fun a => -a := by
  rw [rendered, Phrase.regrouped, Phrase.intValue?, Phrase.intValue?_groupIf]

theorem rendered_arithmetic {op : BinaryOperator} (hc : op.category = .arithmetic)
    (note : Annotation) (l r : Expr) : rendered qualifier (.binary note op l r) =
      if op = .mod then .modulo (l.rendered qualifier) (r.rendered qualifier)
      else .binary op ((l.rendered qualifier).groupIf (l.needsParen op false))
        ((r.rendered qualifier).groupIf (r.needsParen op true)) := by
  have heq : op.isEquality = false := by
    cases op with
    | eq => cases hc
    | ne => cases hc
    | _ => rfl
  rw [rendered, heq]
  rfl

/-- Of all operators only a product may go on in its right operand with another value. -/
theorem intValue?_rendered_binary {op : BinaryOperator} (hc : op.category = .arithmetic)
    (note : Annotation) (l r : Expr) (h : (op == .mul && r.isChainOf .mul) = false) :
    (rendered qualifier (.binary note op l r)).regrouped.intValue? env =
      op.onValues? ((l.rendered qualifier).regrouped.intValue? env)
        ((r.rendered qualifier).regrouped.intValue? env) := by
  rw [rendered_arithmetic hc]
  by_cases hop : op = .mod
  · subst hop
    rfl
  · rw [if_neg hop, Phrase.regrouped]
    by_cases hadd : op = .add
    · subst hadd
      rw [Phrase.intValue?_graft, Phrase.intValue?_groupIf]
      simp only [Phrase.after?_add, Phrase.intValue?_groupIf]
      cases (l.rendered qualifier).regrouped.intValue? env <;> rfl
    · have hchain : (op.isAssociative && r.isChainOf op) = false := by
        cases op with
        | mul => simpa [BinaryOperator.isAssociative] using h
        | add => exact absurd rfl hadd
        | or => cases hc
        | and => cases hc
        | _ => rfl
      rw [Phrase.graft_of_ne _ (strength_rightOperand_ne hop hchain), Phrase.intValue?,
        Phrase.intValue?_groupIf, Phrase.intValue?_groupIf]

/-- Behind a product, the text of the expression multiplies by `n`. -/
def Scales (qualifier : String) (env : String → Int) (e : Expr) (n : Int) : Prop :=
  ∀ k, (e.rendered qualifier).regrouped.after? env .mul k = some (k * n)

theorem Scales.value {e : Expr} {n : Int} (h : Scales qualifier env e n) :
    (e.rendered qualifier).regrouped.intValue? env = some n := by
  rw [← Phrase.after?_mul_one, h 1, Int.one_mul]

theorem Scales.groupIf {e : Expr} {n : Int} (h : Scales qualifier env e n) (needed : Bool)
    (k : Int) : ((e.rendered qualifier).groupIf needed).regrouped.after? env .mul k =
      some (k * n) := by
  cases needed with
  | false => exact h k
  | true =>
    show BinaryOperator.mul.onValues? (some k) ((e.rendered qualifier).regrouped.intValue? env) = _
    rw [h.value]
    rfl

theorem scales_of_ne {e : Expr} {n : Int}
    (hne : (e.rendered qualifier).strength ≠ BinaryOperator.mul.strength)
    (h : (e.rendered qualifier).regrouped.intValue? env = some n) : Scales qualifier env e n := by
  intro k
  rw [Phrase.after?_of_ne k (by rw [Phrase.strength_regrouped]; exact hne), h]
  rfl

/-- A right operand of a product multiplies by its value if it does so where it goes on the
chain. -/
theorem after?_rightOperand {e : Expr} {n : Int}
    (h : (e.rendered qualifier).regrouped.intValue? env = some n)
    (hchain : e.isChainOf .mul = true → Scales qualifier env e n) (k : Int) :
    ((e.rendered qualifier).groupIf (e.needsParen .mul true)).regrouped.after? env .mul k =
      some (k * n) := by
  cases hc : e.isChainOf .mul with
  | true => exact (hchain hc).groupIf _ k
  | false =>
    rw [Phrase.after?_of_ne k (strength_rightOperand_ne (by decide) (by rw [hc]; rfl)),
      Phrase.intValue?_groupIf, h]
    rfl

theorem intValue?_rendered_mul (note : Annotation) (l r : Expr) :
    (rendered qualifier (.binary note .mul l r)).regrouped.intValue? env =
      ((l.rendered qualifier).regrouped.intValue? env).bind fun a =>
        ((r.rendered qualifier).groupIf (r.needsParen .mul true)).regrouped.after? env .mul a := by
  rw [rendered_arithmetic rfl, if_neg (by decide), Phrase.regrouped, Phrase.intValue?_graft,
    Phrase.intValue?_groupIf]

theorem after?_rendered_mul (note : Annotation) (l r : Expr) (k : Int) :
    (rendered qualifier (.binary note .mul l r)).regrouped.after? env .mul k =
      (((l.rendered qualifier).groupIf (l.needsParen .mul false)).regrouped.after? env .mul k).bind
        (((r.rendered qualifier).groupIf (r.needsParen .mul true)).regrouped.after? env .mul) := by
  rw [rendered_arithmetic rfl, if_neg (by decide), Phrase.regrouped, Phrase.after?_graft rfl]

theorem after?_rendered_div (note : Annotation) (l r : Expr) (k : Int) :
    (rendered qualifier (.binary note .div l r)).regrouped.after? env .mul k =
      BinaryOperator.div.onValues?
        (((l.rendered qualifier).groupIf (l.needsParen .div false)).regrouped.after? env .mul k)
        ((r.rendered qualifier).regrouped.intValue? env) := by
  rw [rendered_arithmetic rfl, if_neg (by decide), Phrase.regrouped,
    Phrase.graft_of_ne _ (strength_rightOperand_ne (by decide) rfl), Phrase.after?,
    if_pos (by decide),
    Phrase.intValue?_groupIf]

/-! ### Texts that keep the value -/

theorem atom_ne_mul : atomStrength ≠ BinaryOperator.mul.strength := by decide

theorem strength_rendered_of_category {op : BinaryOperator} (hc : op.category = .arithmetic)
    (hmul : op ≠ .mul) (hdiv : op ≠ .div) (note : Annotation) (l r : Expr) :
    (rendered qualifier (.binary note op l r)).strength ≠ BinaryOperator.mul.strength := by
  rw [rendered_arithmetic hc]
  cases op with
  | add => exact (by decide : BinaryOperator.add.strength ≠ BinaryOperator.mul.strength)
  | sub => exact (by decide : BinaryOperator.sub.strength ≠ BinaryOperator.mul.strength)
  | mod => exact atom_ne_mul
  | mul => exact absurd rfl hmul
  | div => exact absurd rfl hdiv
  | _ => cases hc

/-- Without a torn quotient the text has the tree's value, and behind a product it multiplies by
this value unless it starts with a quotient itself. -/
theorem keeps_of_not_tears {e : Expr} (ha : e.Arithmetic) (ht : e.tearsQuotient = false)
    {v : Int} (hv : e.intValue? qualifier env = some v) :
    (e.rendered qualifier).regrouped.intValue? env = some v ∧
      (e.startsWithQuotient = false → Scales qualifier env e v) := by
  induction ha generalizing v with
  | integer note type n =>
    have hx : (rendered qualifier (.literal note ⟨type, .integer n⟩)).regrouped.intValue? env =
        some v := by
      rw [intValue?_rendered_integer]
      exact hv
    exact ⟨hx, fun _ => scales_of_ne (by rw [rendered, strength_ofLiteral]; exact atom_ne_mul) hx⟩
  | @path e hp =>
    have hx : (e.rendered qualifier).regrouped.intValue? env = some v := by
      rw [intValue?_of_isPath hp] at hv
      rw [rendered_of_isPath hp]
      exact hv
    exact ⟨hx, fun _ => scales_of_ne (by rw [rendered_of_isPath hp]; exact atom_ne_mul) hx⟩
  | @negate note operand _ ih =>
    rw [intValue?, Option.map_eq_some_iff] at hv
    obtain ⟨a, hoperand, rfl⟩ := hv
    have hx : (rendered qualifier (.unary note .negate operand)).regrouped.intValue? env =
        some (-a) := by
      rw [intValue?_rendered_negate, (ih ht hoperand).1]
      rfl
    exact ⟨hx, fun _ => scales_of_ne (by rw [rendered]; exact atom_ne_mul) hx⟩
  | @binary note op left right hc _ _ ihl ihr =>
    simp only [tearsQuotient, Bool.or_eq_false_iff] at ht
    obtain ⟨⟨hnode, htl⟩, htr⟩ := ht
    rw [intValue?, BinaryOperator.onValues?_eq_some_iff] at hv
    obtain ⟨a, b, hl, hr, hop⟩ := hv
    obtain ⟨hxl, hsl⟩ := ihl htl hl
    obtain ⟨hxr, hsr⟩ := ihr htr hr
    by_cases hmul : op = .mul
    · -- Only the right operand of a product goes on its chain, where a quotient at its start is
      -- torn.
      subst hmul
      have hright := after?_rightOperand hxr fun hchain => hsr (by simpa [hchain] using hnode)
      cases hop
      constructor
      · rw [intValue?_rendered_mul, hxl, Option.bind_some, hright]
      · intro hq k
        rw [after?_rendered_mul, (hsl hq).groupIf, Option.bind_some, hright, Int.mul_assoc]
    · have hx : (rendered qualifier (.binary note op left right)).regrouped.intValue? env =
          some v := by
        rw [intValue?_rendered_binary hc note left right (by simp [hmul]), hxl, hxr]
        exact hop
      refine ⟨hx, fun hq => scales_of_ne ?_ hx⟩
      have hdiv : op ≠ .div := by
        rintro rfl
        cases hq
      exact strength_rendered_of_category hc hmul hdiv note left right

end Expr

end EntityQuery
