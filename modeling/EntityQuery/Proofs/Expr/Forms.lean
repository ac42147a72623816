import EntityQuery.Proofs.Expr.Recognition

/-!
# What was read, form by form

A reader that succeeds has gone one of a few ways, and each of them says from which tokens the parts
of the result were read. The forms of a reader are all its ways and nothing else, so a proof about a
result goes by forms, and a result is found by giving its form.
-/

namespace EntityQuery

namespace Scope

variable {s : Scope}

/-! ### Paths -/

/-- A path ends, or goes on with the name of a property of the type before it. -/
inductive PathForm (s : Scope) (start : Nat) (node : Expr) (tokens : List Token) :
    Expr → List Token → Prop
  | stop (hstop : ∀ u ∈ tokens.head?, u.isPathSeparator = false) :
      PathForm s start node tokens node tokens
  | step {separator segment : Token} {middle rest : List Token} {ref : PropertyRef}
      {type : ValueType} {e : Expr} (htokens : tokens = separator :: segment :: middle)
      (hseparator : separator.isPathSeparator = true) (hsegment : segment.kind = .identifier)
      (hstructural : node.type.isStructural = true)
      (hnames : Names s.model node.type segment.text ref type)
      (hpath : plain (s.readPath start
        (.member ⟨type, start⟩ node (.property ⟨type, segment.position⟩ ref)) middle) =
          .ok (e, rest)) :
      PathForm s start node tokens e rest

theorem readPath_iff {start : Nat} {node e : Expr} {tokens rest : List Token} :
    plain (s.readPath start node tokens) = .ok (e, rest) ↔ PathForm s start node tokens e rest := by
  constructor
  · intro h
    by_cases hs : ∀ u ∈ tokens.head?, u.isPathSeparator = false
    · rw [plain_readPath_of_stop hs] at h
      cases h
      exact .stop hs
    · cases tokens with
      | nil => simp at hs
      | cons separator tokens =>
        have hseparator : separator.isPathSeparator = true := by simpa using hs
        rw [plain_readPath_cons hseparator, bind_eq_ok_iff] at h
        obtain ⟨⟨segment, middle⟩, hx, h⟩ := h
        obtain ⟨rfl, hk⟩ := plain_expect_eq_ok_iff.mp hx
        split at h
        · next hstructural =>
          rw [bind_eq_ok_iff] at h
          obtain ⟨property, hp, h⟩ := h
          obtain ⟨ref, type, hnames, rfl⟩ := resolve_eq_ok_iff.mp hp
          exact .step rfl hseparator hk hstructural hnames h
        · cases h
  · intro h
    cases h with
    | stop hstop => exact plain_readPath_of_stop hstop
    | step htokens hseparator hsegment hstructural hnames hpath =>
      rw [htokens, plain_readPath_cons hseparator, plain_expect_eq_ok_iff.mpr ⟨rfl, hsegment⟩]
      simp only [Except.bind, hstructural, ↓reduceIte, resolve_eq_ok_iff.mpr ⟨_, _, hnames, rfl⟩]
      exact hpath

/-! ### Chains of operators -/

theorem readBinary_iff {least : Nat} {e : Expr} {tokens rest : List Token} :
    plain (s.readBinary least tokens) = .ok (e, rest) ↔ ∃ left middle,
      plain (s.readUnary tokens) = .ok (left, middle) ∧
        plain (s.readTail least left middle) = .ok (e, rest) := by
  rw [plain_readBinary, bind_eq_ok_iff, Prod.exists]

/-- A chain ends, or an operator takes what was read so far and an operand that binds tighter. -/
inductive TailForm (s : Scope) (least : Nat) (left : Expr) (tokens : List Token) :
    Expr → List Token → Prop
  | stop (hstops : Stops least tokens) : TailForm s least left tokens left tokens
  | fold {t : Token} {after middle rest : List Token} {op : BinaryOperator} {right e : Expr}
      {type : ValueType} (htokens : tokens = t :: after) (hop : t.binaryOperator? = some op)
      (hle : least ≤ op.precedence)
      (hright : plain (s.readBinary (op.precedence + 1) after) = .ok (right, middle))
      (hcheck : (Operator.binary op).check t.position [left.type, right.type] = .ok type)
      (htail : plain (s.readTail least (.binary ⟨type, left.position⟩ op left right) middle) =
        .ok (e, rest)) :
      TailForm s least left tokens e rest

theorem readTail_iff {least : Nat} {left e : Expr} {tokens rest : List Token} :
    plain (s.readTail least left tokens) = .ok (e, rest) ↔ TailForm s least left tokens e rest := by
  constructor
  · intro h
    by_cases hs : Stops least tokens
    · rw [plain_readTail_of_stops hs] at h
      cases h
      exact .stop hs
    · obtain ⟨t, after, op, rfl, hop, hle⟩ := exists_fold_of_not_stops hs
      rw [plain_readTail_cons hop hle, bind_eq_ok_iff] at h
      obtain ⟨⟨right, middle⟩, hright, h⟩ := h
      rw [bind_eq_ok_iff] at h
      obtain ⟨type, hcheck, htail⟩ := h
      exact .fold rfl hop hle hright hcheck htail
  · intro h
    cases h with
    | stop hstops => exact plain_readTail_of_stops hstops
    | fold htokens hop hle hright hcheck htail =>
      rw [htokens, plain_readTail_cons hop hle, hright]
      simp only [Except.bind, hcheck]
      exact htail

/-! ### Operands -/

/-- An operand has a unary operator before it or none. -/
inductive UnaryForm (s : Scope) (tokens : List Token) : Expr → List Token → Prop
  | primary {t : Token} {after rest : List Token} {e : Expr} (htokens : tokens = t :: after)
      (hoperator : t.unaryOperator? = none)
      (hprimary : plain (s.readPrimary t after) = .ok (e, rest)) :
      UnaryForm s tokens e rest
  | operator {t : Token} {after rest : List Token} {op : UnaryOperator} {operand : Expr}
      {type : ValueType} (htokens : tokens = t :: after) (hoperator : t.unaryOperator? = some op)
      (hoperand : plain (s.readUnary after) = .ok (operand, rest))
      (hcheck : (Operator.unary op).check t.position [operand.type] = .ok type) :
      UnaryForm s tokens (.unary ⟨type, t.position⟩ op operand) rest

theorem readUnary_iff {e : Expr} {tokens rest : List Token} :
    plain (s.readUnary tokens) = .ok (e, rest) ↔ UnaryForm s tokens e rest := by
  constructor
  · intro h
    cases tokens with
    | nil =>
      rw [plain_readUnary_nil] at h
      cases h
    | cons t after =>
      cases hoperator : t.unaryOperator? with
      | none =>
        rw [plain_readUnary_of_none hoperator] at h
        exact .primary rfl hoperator h
      | some op =>
        rw [plain_readUnary_of_some hoperator, bind_eq_ok_iff] at h
        obtain ⟨⟨operand, middle⟩, hoperand, h⟩ := h
        rw [bind_eq_ok_iff] at h
        obtain ⟨type, hcheck, h⟩ := h
        cases h
        exact .operator rfl hoperator hoperand hcheck
  · intro h
    cases h with
    | primary htokens hoperator hprimary =>
      rw [htokens, plain_readUnary_of_none hoperator]
      exact hprimary
    | operator htokens hoperator hoperand hcheck =>
      rw [htokens, plain_readUnary_of_some hoperator, hoperand]
      simp only [Except.bind, hcheck]

/-- What starts with a token is a literal, a group, a path or a call. -/
inductive PrimaryForm (s : Scope) (t : Token) (tokens : List Token) : Expr → List Token → Prop
  | literal {value : Literal} (hcontent : t.content = .literal value) :
      PrimaryForm s t tokens (.literal ⟨.simple value.type, t.position⟩ value) tokens
  | paren {closing : Token} {rest : List Token} {inner : Expr} (hcontent : t.content = .openParen)
      (hinner : plain (s.readBinary 0 tokens) = .ok (inner, closing :: rest))
      (hclosing : closing.kind = .closeParen) :
      PrimaryForm s t tokens (inner.moveTo t.position) rest
  | path {rest : List Token} {ref : PropertyRef} {type : ValueType} {e : Expr}
      (hcontent : t.content = .identifier) (hopen : ∀ u ∈ tokens.head?, u.kind ≠ .openParen)
      (hnames : Names s.model s.root t.text ref type)
      (hpath : plain (s.readPath t.position (.property ⟨type, t.position⟩ ref) tokens) =
        .ok (e, rest)) :
      PrimaryForm s t tokens e rest
  | call {opening : Token} {inside rest : List Token} {method : Method} {arguments : List Expr}
      {type : ValueType} (hcontent : t.content = .identifier) (htokens : tokens = opening :: inside)
      (hopening : opening.kind = .openParen) (hmethod : Method.ofName? t.text = some method)
      (harguments : plain (s.readArguments inside) = .ok (arguments, rest))
      (hcheck : (Operator.method method).check t.position (arguments.map Expr.type) = .ok type) :
      PrimaryForm s t tokens (.call ⟨type, t.position⟩ method arguments) rest

theorem readPrimary_iff {t : Token} {e : Expr} {tokens rest : List Token} :
    plain (s.readPrimary t tokens) = .ok (e, rest) ↔ PrimaryForm s t tokens e rest := by
  constructor
  · intro h
    cases hc : t.content with
    | openParen =>
      rw [plain_readPrimary_openParen hc, bind_eq_ok_iff] at h
      obtain ⟨⟨inner, middle⟩, hinner, h⟩ := h
      rw [bind_eq_ok_iff] at h
      obtain ⟨⟨closing, last⟩, hx, h⟩ := h
      obtain ⟨rfl, hclosing⟩ := plain_expect_eq_ok_iff.mp hx
      cases h
      exact .paren hc hinner hclosing
    | literal value =>
      rw [plain_readPrimary_literal hc] at h
      cases h
      exact .literal hc
    | identifier =>
      by_cases hopen : ∀ u ∈ tokens.head?, u.kind ≠ .openParen
      · rw [plain_readPrimary_path hc hopen, bind_eq_ok_iff] at h
        obtain ⟨node, hr, h⟩ := h
        obtain ⟨ref, type, hnames, rfl⟩ := resolve_eq_ok_iff.mp hr
        exact .path hc hopen hnames h
      · cases tokens with
        | nil => simp at hopen
        | cons opening inside =>
          have hopening : opening.kind = .openParen := by simpa using hopen
          rw [plain_readPrimary_call hc hopening] at h
          split at h
          · cases h
          · next method hmethod =>
            rw [bind_eq_ok_iff] at h
            obtain ⟨⟨arguments, last⟩, harguments, h⟩ := h
            rw [bind_eq_ok_iff] at h
            obtain ⟨type, hcheck, h⟩ := h
            cases h
            exact .call hc rfl hopening hmethod harguments hcheck
    | closeParen | comma | slash | dot | minus =>
      rw [plain_readPrimary_other (by simp [Token.kind, hc, TokenContent.kind])
        (by simp [Token.kind, hc, TokenContent.kind])
        (by simp [Token.kind, hc, TokenContent.kind])] at h
      cases h
  · intro h
    cases h with
    | literal hcontent => exact plain_readPrimary_literal hcontent
    | paren hcontent hinner hclosing =>
      rw [plain_readPrimary_openParen hcontent, hinner]
      simp only [Except.bind, plain_expect_eq_ok_iff.mpr ⟨rfl, hclosing⟩]
    | path hcontent hopen hnames hpath =>
      rw [plain_readPrimary_path hcontent hopen, resolve_eq_ok_iff.mpr ⟨_, _, hnames, rfl⟩]
      exact hpath
    | call hcontent htokens hopening hmethod harguments hcheck =>
      rw [htokens, plain_readPrimary_call hcontent hopening, hmethod]
      simp only [harguments, Except.bind, hcheck]

/-! ### Arguments -/

/-- A call has no arguments, or some. -/
inductive ArgumentsForm (s : Scope) (tokens : List Token) : List Expr → List Token → Prop
  | none {closing : Token} {rest : List Token} (htokens : tokens = closing :: rest)
      (hclosing : closing.kind = .closeParen) : ArgumentsForm s tokens [] rest
  | items {es : List Expr} {rest : List Token} (hhead : ∀ u ∈ tokens.head?, u.kind ≠ .closeParen)
      (hitems : plain (s.readItems tokens) = .ok (es, rest)) : ArgumentsForm s tokens es rest

theorem readArguments_iff {es : List Expr} {tokens rest : List Token} :
    plain (s.readArguments tokens) = .ok (es, rest) ↔ ArgumentsForm s tokens es rest := by
  constructor
  · intro h
    by_cases hhead : ∀ u ∈ tokens.head?, u.kind ≠ .closeParen
    · rw [plain_readArguments_of_items hhead] at h
      exact .items hhead h
    · cases tokens with
      | nil => simp at hhead
      | cons closing tokens =>
        have hclosing : closing.kind = .closeParen := by simpa using hhead
        rw [plain_readArguments_nil hclosing] at h
        cases h
        exact .none rfl hclosing
  · intro h
    cases h with
    | none htokens hclosing =>
      rw [htokens]
      exact plain_readArguments_nil hclosing
    | items hhead hitems =>
      rw [plain_readArguments_of_items hhead]
      exact hitems

/-- An argument is the last one, or others follow it behind a comma. -/
inductive ItemsForm (s : Scope) (tokens : List Token) : List Expr → List Token → Prop
  | last {argument : Expr} {closing : Token} {rest : List Token}
      (hargument : plain (s.readBinary 0 tokens) = .ok (argument, closing :: rest))
      (hclosing : closing.kind = .closeParen) : ItemsForm s tokens [argument] rest
  | more {argument : Expr} {comma : Token} {after rest : List Token} {arguments : List Expr}
      (hargument : plain (s.readBinary 0 tokens) = .ok (argument, comma :: after))
      (hcomma : comma.kind = .comma) (hmore : plain (s.readItems after) = .ok (arguments, rest)) :
      ItemsForm s tokens (argument :: arguments) rest

theorem readItems_iff {es : List Expr} {tokens rest : List Token} :
    plain (s.readItems tokens) = .ok (es, rest) ↔ ItemsForm s tokens es rest := by
  constructor
  · intro h
    rw [plain_readItems, bind_eq_ok_iff] at h
    obtain ⟨⟨argument, middle⟩, hargument, h⟩ := h
    cases ha : accept? .comma middle with
    | some shorter =>
      rcases shorter with ⟨after, hlt⟩
      simp only [ha] at h
      rw [bind_eq_ok_iff] at h
      obtain ⟨⟨arguments, last⟩, hmore, h⟩ := h
      obtain ⟨comma, rfl, hcomma⟩ := accept?_eq_some_iff.mp ha
      cases h
      exact .more hargument hcomma hmore
    | none =>
      simp only [ha] at h
      rw [bind_eq_ok_iff] at h
      obtain ⟨⟨closing, last⟩, hx, h⟩ := h
      obtain ⟨rfl, hclosing⟩ := plain_expect_eq_ok_iff.mp hx
      cases h
      exact .last hargument hclosing
  · intro h
    rw [plain_readItems]
    cases h with
    | @last _ closing rest hargument hclosing =>
      have hcomma : accept? .comma (closing :: rest) = none :=
        accept?_eq_none_iff.mpr (by simp [hclosing])
      rw [hargument]
      simp only [Except.bind, hcomma, plain_expect_eq_ok_iff.mpr ⟨rfl, hclosing⟩]
    | more hargument hcomma hmore =>
      rw [hargument]
      simp only [Except.bind, accept?_cons_of_kind hcomma, hmore]

end Scope

end EntityQuery
