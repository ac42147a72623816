import EntityQuery.Proofs.Expr.Steps

/-!
# The grammar of expressions

A declarative grammar over tokens, with one level for each strength of binding. Trees of the grammar
carry types and no positions, and every node meets the conditions of the model: its names are known,
the prefixes of its paths are structural, and its operands are of types that the operator takes.
-/

namespace EntityQuery

/-! ### Trees without positions -/

namespace Expr

mutual

/-- The tree with all positions forgotten. -/
def unplaced : Expr → Expr
  | .literal a value => .literal ⟨a.type, 0⟩ value
  | .property a ref => .property ⟨a.type, 0⟩ ref
  | .member a path target => .member ⟨a.type, 0⟩ path.unplaced target.unplaced
  | .unary a op operand => .unary ⟨a.type, 0⟩ op operand.unplaced
  | .binary a op left right => .binary ⟨a.type, 0⟩ op left.unplaced right.unplaced
  | .call a method arguments => .call ⟨a.type, 0⟩ method (unplacedAll arguments)

/-- The trees with all positions forgotten. -/
def unplacedAll : List Expr → List Expr
  | [] => []
  | e :: rest => e.unplaced :: unplacedAll rest

end

@[simp]
theorem type_unplaced (e : Expr) : e.unplaced.type = e.type := by
  cases e <;> rfl

@[simp]
theorem unplaced_moveTo (e : Expr) (position : Nat) :
    (e.moveTo position).unplaced = e.unplaced := by
  cases e <;> rfl

@[simp]
theorem map_type_unplacedAll (es : List Expr) :
    (unplacedAll es).map Expr.type = es.map Expr.type := by
  induction es with
  | nil => rfl
  | cons e rest ih => simp [unplacedAll, ih]

end Expr

/-! ### Keywords -/

theorem BinaryOperator.ofKeyword?_eq_some_iff {word : String} {op : BinaryOperator} :
    BinaryOperator.ofKeyword? word = some op ↔ word = op.keyword := by
  constructor
  · intro h
    have hk : op.keyword = word := by simpa using List.find?_some h
    exact hk.symm
  · rintro rfl
    cases op <;> rfl

theorem Method.ofName?_eq_some_iff {word : String} {m : Method} :
    Method.ofName? word = some m ↔ word = m.name := by
  constructor
  · intro h
    have hk : m.name = word := by simpa using List.find?_some h
    exact hk.symm
  · rintro rfl
    cases m <;> rfl

namespace Token

theorem binaryOperator?_eq_some_iff {t : Token} {op : BinaryOperator} :
    t.binaryOperator? = some op ↔ t.kind = .identifier ∧ t.text = op.keyword := by
  unfold binaryOperator?
  by_cases h : t.kind = .identifier
  · simp [h, BinaryOperator.ofKeyword?_eq_some_iff]
  · simp [h]

theorem unaryOperator?_eq_not_iff {t : Token} :
    t.unaryOperator? = some .not ↔ t.kind = .identifier ∧ t.text = "not" := by
  unfold unaryOperator? isWord
  by_cases h : t.kind = .minus
  · simp [h, UnaryOperator.keyword]
  · simp [h, UnaryOperator.keyword]

theorem unaryOperator?_eq_negate_iff {t : Token} :
    t.unaryOperator? = some .negate ↔ t.kind = .minus := by
  unfold unaryOperator? isWord
  by_cases h : t.kind = .minus
  · simp [h]
  · simp [h]

theorem unaryOperator?_eq_none_iff {t : Token} :
    t.unaryOperator? = none ↔ ¬(t.kind = .identifier ∧ t.text = "not") ∧ t.kind ≠ .minus := by
  rw [ne_eq, ← unaryOperator?_eq_not_iff, ← unaryOperator?_eq_negate_iff]
  cases t.unaryOperator? with
  | none => simp
  | some op => cases op <;> simp

end Token

/-! ### The grammar -/

/-- What a name stands for on a type: a property, or else a navigation property that leads to at
most one entity. -/
inductive Names (model : Model) (owner : ValueType) (name : String) : PropertyRef → ValueType → Prop
  | property {p : Property} (h : Scope.property? model owner name = some p) :
    Names model owner name ⟨p.name, p.internalName, p.facets⟩ p.type.valueType
  | navigation {n : NavigationProperty} (hp : Scope.property? model owner name = none)
    (hn : Scope.navigation? model owner name = some n) (hs : n.multiplicity.isSingle = true) :
    Names model owner name ⟨n.name, n.internalName, Facets.none⟩ (.entity n.targetType)

section

variable (model : Model) (entityType : EntityType)

/-- Paths: identifiers divided by slashes or dots, of which the first is not the keyword `not`. A
path has no parenthesis in it, so its first identifier is never the name of a call. -/
inductive DerivesPath : List Token → Expr → Prop
  | first {t : Token} {ref : PropertyRef} {type : ValueType} (hk : t.kind = .identifier)
    (hn : t.text ≠ "not") (hr : Names model (.entity entityType.name) t.text ref type) :
    DerivesPath [t] (.property ⟨type, 0⟩ ref)
  | step {tokens : List Token} {node : Expr} {separator segment : Token} {ref : PropertyRef}
    {type : ValueType} (hp : DerivesPath tokens node)
    (hs : separator.kind = .slash ∨ separator.kind = .dot) (hk : segment.kind = .identifier)
    (ht : node.type.isStructural = true) (hr : Names model node.type segment.text ref type) :
    DerivesPath (tokens ++ [separator, segment])
      (.member ⟨type, 0⟩ node (.property ⟨type, 0⟩ ref))

mutual

/-- Expressions of a level: operands, and operands of a binary operator that binds at least as
tightly as the level. The left operand may go on at the operator's own level, the right one must
bind tighter. -/
inductive Derives : Nat → List Token → Expr → Prop
  | unary {p : Nat} {tokens : List Token} {e : Expr} (h : DerivesUnary tokens e) :
      Derives p tokens e
  | binary {p : Nat} {op : BinaryOperator} {t : Token} {before after : List Token}
    {left right : Expr} {type : ValueType} (hp : p ≤ op.precedence) (hk : t.kind = .identifier)
    (ht : t.text = op.keyword) (hl : Derives op.precedence before left)
    (hr : Derives (op.precedence + 1) after right)
    (hc : (Operator.binary op).descriptor.resolve [left.type, right.type] = .ok (some type)) :
    Derives p (before ++ t :: after) (.binary ⟨type, 0⟩ op left right)

/-- Operands with the unary operators before them. -/
inductive DerivesUnary : List Token → Expr → Prop
  | not {t : Token} {tokens : List Token} {e : Expr} {type : ValueType} (hk : t.kind = .identifier)
    (ht : t.text = "not") (h : DerivesUnary tokens e)
    (hc : (Operator.unary .not).descriptor.resolve [e.type] = .ok (some type)) :
    DerivesUnary (t :: tokens) (.unary ⟨type, 0⟩ .not e)
  | negate {t : Token} {tokens : List Token} {e : Expr} {type : ValueType} (hk : t.kind = .minus)
    (h : DerivesUnary tokens e)
    (hc : (Operator.unary .negate).descriptor.resolve [e.type] = .ok (some type)) :
    DerivesUnary (t :: tokens) (.unary ⟨type, 0⟩ .negate e)
  | primary {tokens : List Token} {e : Expr} (h : DerivesPrimary tokens e) : DerivesUnary tokens e

/-- Literals, calls, paths and parenthesised expressions. -/
inductive DerivesPrimary : List Token → Expr → Prop
  | literal {t : Token} {value : Literal} (h : t.content = .literal value) :
    DerivesPrimary [t] (.literal ⟨.simple value.type, 0⟩ value)
  | call {t opening closing : Token} {method : Method} {tokens : List Token} {arguments : List Expr}
    {type : ValueType} (hk : t.kind = .identifier) (ht : t.text = method.name)
    (ho : opening.kind = .openParen) (h : DerivesArguments tokens arguments)
    (hd : closing.kind = .closeParen)
    (hc : (Operator.method method).descriptor.resolve (arguments.map Expr.type) = .ok (some type)) :
    DerivesPrimary (t :: opening :: (tokens ++ [closing])) (.call ⟨type, 0⟩ method arguments)
  | path {tokens : List Token} {e : Expr} (h : DerivesPath model entityType tokens e) :
    DerivesPrimary tokens e
  | paren {opening closing : Token} {tokens : List Token} {e : Expr}
    (ho : opening.kind = .openParen) (h : Derives 0 tokens e) (hd : closing.kind = .closeParen) :
    DerivesPrimary (opening :: (tokens ++ [closing])) e

/-- The arguments of a call, divided by commas. -/
inductive DerivesArguments : List Token → List Expr → Prop
  | none : DerivesArguments [] []
  | one {tokens : List Token} {e : Expr} (h : Derives 0 tokens e) : DerivesArguments tokens [e]
  | more {tokens rest : List Token} {comma : Token} {e next : Expr} {others : List Expr}
    (h : Derives 0 tokens e) (hk : comma.kind = .comma)
    (hr : DerivesArguments rest (next :: others)) :
    DerivesArguments (tokens ++ comma :: rest) (e :: next :: others)

end

end

end EntityQuery
