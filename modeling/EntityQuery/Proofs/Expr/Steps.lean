import EntityQuery.Expr.Parser
import EntityQuery.Proofs.Operator.Indexing

/-!
# What the readers of expressions do

Each reader of expressions is described by one equation a branch. The equations speak of the tokens
that a reader leaves and not of the bound that comes with them, and of operators and not of their
entries in the table, which always has one, so that proofs about reading need not open a reader.
-/

namespace EntityQuery

/-- A sequence of two computations succeeds exactly if both do. -/
theorem bind_eq_ok_iff {ε α β : Type} {x : Except ε α} {f : α → Except ε β} {b : β} :
    x.bind f = .ok b ↔ ∃ a, x = .ok a ∧ f a = .ok b := by
  cases x with
  | error e => simp [Except.bind]
  | ok a => simp [Except.bind]

theorem bind_eq_error_iff {ε α β : Type} {x : Except ε α} {f : α → Except ε β} {e : ε} :
    x.bind f = .error e ↔ x = .error e ∨ ∃ a, x = .ok a ∧ f a = .error e := by
  cases x with
  | error e' => simp [Except.bind]
  | ok a => simp [Except.bind]

theorem map_eq_ok_iff {ε α β : Type} {x : Except ε α} {f : α → β} {b : β} :
    x.map f = .ok b ↔ ∃ a, x = .ok a ∧ f a = b := by
  cases x with
  | error e => simp [Except.map]
  | ok a => simp [Except.map]

theorem map_eq_error_iff {ε α β : Type} {x : Except ε α} {f : α → β} {e : ε} :
    x.map f = .error e ↔ x = .error e := by
  cases x with
  | error e' => simp [Except.map]
  | ok a => simp [Except.map]

theorem mapError_eq_ok_iff {ε ε' α : Type} {x : Except ε α} {f : ε → ε'} {a : α} :
    x.mapError f = .ok a ↔ x = .ok a := by
  constructor
  · intro h
    cases x with
    | error e => cases h
    | ok b => cases h; rfl
  · rintro rfl
    rfl

/-- A computation whose result passes a test has a result. -/
theorem exists_ok_of_any {ε α : Type} {x : Except ε α} {test : α → Bool}
    (h : x.toOption.any test = true) : ∃ a, x = .ok a ∧ test a = true := by
  cases x with
  | error e => cases h
  | ok a => exact ⟨a, rfl, h⟩

/-- A computation that, once its error is caught, gives the error asked for has this error. -/
theorem eq_error_of_caught {ε α : Type} {x : Except ε α} {e : ε}
    (h : ((x.map fun _ => none).tryCatch fun e' => .ok (some e')).toOption = some (some e)) :
    x = .error e := by
  cases x with
  | error e' => exact congrArg Except.error (Option.some.inj (Option.some.inj h))
  | ok a => cases h

/-! ### Entries of the table -/

namespace Operator

variable {op : Operator} {position : Nat} {operands : List ValueType}

/-- An operator is checked by its standard descriptor. -/
theorem check_eq : op.check position operands = op.descriptor.check position operands := by
  rw [check, OperatorTable.get?_standard]

/-- A check passes exactly if the signatures of the operator give a type for the operands. -/
theorem check_eq_ok_iff {type : ValueType} :
    op.check position operands = .ok type ↔ op.descriptor.resolve operands = .ok (some type) := by
  rw [check_eq, Descriptor.check]
  split
  · next t h => simp [h]
  · next h => simp [h]
  · next e h => simp [h]

/-- The operands are the only reason for which a check fails. -/
theorem eq_of_check_eq_error {err : ParseError} (h : op.check position operands = .error err) :
    err = .operandMismatch position op operands := by
  obtain ⟨type?, htype⟩ := op.exists_resolve operands
  have hop : op.descriptor.operator = op := by
    cases op with
    | unary o => cases o <;> rfl
    | _ => rfl
  rw [check_eq, Descriptor.check, htype, hop] at h
  cases type? with
  | none => exact (Except.error.inj h).symm
  | some type => cases h

/-- The access to a member has the type of the property. -/
theorem check_member (position : Nat) (owner type : ValueType) :
    member.check position [owner, type] = .ok type :=
  check_eq_ok_iff.mpr rfl

end Operator

theorem BinaryOperator.lookUp?_eq (word : String) : BinaryOperator.lookUp? word =
    (BinaryOperator.ofKeyword? word).map fun op => (op, (Operator.binary op).descriptor) := by
  rw [lookUp?, OperatorTable.binary?]
  cases BinaryOperator.ofKeyword? word with
  | none => rfl
  | some op =>
    simp only [Option.bind_some, OperatorTable.get?_standard]
    rfl

theorem Method.lookUp?_eq (name : String) : Method.lookUp? name =
    (Method.ofName? name).map fun method => (method, (Operator.method method).descriptor) := by
  rw [lookUp?, OperatorTable.method?]
  cases Method.ofName? name with
  | none => rfl
  | some method =>
    simp only [Option.bind_some, OperatorTable.get?_standard]
    rfl

/-- The binary operator that a token is the keyword of. -/
def Token.binaryOperator? (t : Token) : Option BinaryOperator :=
  if t.kind = .identifier then BinaryOperator.ofKeyword? t.text else none

theorem Token.lookUpBinary?_eq (t : Token) : t.lookUpBinary? =
    t.binaryOperator?.map fun op => (op, (Operator.binary op).descriptor) := by
  unfold lookUpBinary? binaryOperator?
  by_cases h : t.kind = .identifier
  · rw [if_pos h, if_pos h, BinaryOperator.lookUp?_eq]
  · rw [if_neg h, if_neg h]
    rfl

theorem Token.literal?_of_content {t : Token} {value : Literal} (h : t.content = .literal value) :
    t.literal? = some value := by
  rw [literal?, h]

namespace Scope

/-- The result of a reader without the bound on the tokens that it leaves. -/
def plain {α : Type} {p : List Token → Prop}
    (result : Except ParseError (α × { rest : List Token // p rest })) :
    Except ParseError (α × List Token) :=
  result.map fun x => (x.1, x.2.val)

variable {s : Scope} {least : Nat} {left node : Expr} {t : Token} {tokens rest : List Token}

/-! ### Single tokens -/

theorem expect_cons_of_kind {kind : TokenKind} (h : t.kind = kind) :
    s.expect kind (t :: rest) = .ok (t, ⟨rest, Nat.lt_succ_self rest.length⟩) := by
  have htaken : takeKind s.inputSize kind (t :: rest) =
      .ok (t, ⟨rest, Nat.lt_succ_self rest.length⟩) := by
    simp [takeKind, takeIf?, h]
  rw [expect, htaken]
  rfl

theorem expect_eq_error {kind : TokenKind} (h : ∀ t ∈ tokens.head?, t.kind ≠ kind) :
    s.expect kind tokens = .error (s.unexpected (.kind kind) tokens) := by
  cases tokens with
  | nil => rfl
  | cons t rest =>
    have hkind : t.kind ≠ kind := h t rfl
    have htaken : takeKind s.inputSize kind (t :: rest) =
        .error (EntityQuery.unexpected s.inputSize (.kind kind) (t :: rest)) := by
      simp [takeKind, takeIf?, hkind]
    rw [expect, htaken]
    rfl

/-- An expected token is the first one. -/
theorem plain_expect_eq_ok_iff {kind : TokenKind} :
    plain (s.expect kind tokens) = .ok (t, rest) ↔ tokens = t :: rest ∧ t.kind = kind := by
  by_cases h : ∀ t ∈ tokens.head?, t.kind ≠ kind
  · rw [expect_eq_error h]
    constructor
    · intro herror
      cases herror
    · rintro ⟨rfl, hkind⟩
      exact absurd hkind (h t rfl)
  · cases tokens with
    | nil => simp at h
    | cons u us =>
      have hu : u.kind = kind := by simpa using h
      rw [expect_cons_of_kind hu]
      simp only [plain, Except.map, Except.ok.injEq, Prod.mk.injEq, List.cons.injEq]
      constructor
      · rintro ⟨rfl, rfl⟩
        exact ⟨⟨rfl, rfl⟩, hu⟩
      · rintro ⟨⟨rfl, rfl⟩, _⟩
        exact ⟨rfl, rfl⟩

theorem accept?_cons_of_kind {kind : TokenKind} (h : t.kind = kind) :
    accept? kind (t :: rest) = some ⟨rest, Nat.lt_succ_self rest.length⟩ := by
  simp [accept?, takeIf?, h]

theorem accept?_eq_none_iff {kind : TokenKind} :
    accept? kind tokens = none ↔ ∀ t ∈ tokens.head?, t.kind ≠ kind := by
  cases tokens with
  | nil => simp [accept?, takeIf?]
  | cons u us => simp [accept?, takeIf?]

theorem accept?_eq_some_iff {kind : TokenKind} {h : rest.length < tokens.length} :
    accept? kind tokens = some ⟨rest, h⟩ ↔ ∃ t, tokens = t :: rest ∧ t.kind = kind := by
  cases tokens with
  | nil => simp [accept?, takeIf?]
  | cons u us =>
    by_cases hu : u.kind = kind
    · rw [accept?_cons_of_kind hu]
      simp only [Option.some.injEq, Subtype.mk.injEq, List.cons.injEq]
      constructor
      · rintro rfl
        exact ⟨u, ⟨rfl, rfl⟩, hu⟩
      · rintro ⟨t, ⟨_, rfl⟩, _⟩
        rfl
    · have hnone : accept? kind (u :: us) = none := by simpa [accept?_eq_none_iff] using hu
      rw [hnone]
      constructor
      · intro hsome
        cases hsome
      · rintro ⟨t, ⟨rfl, rfl⟩, hk⟩
        exact absurd hk hu

/-! ### Chains of binary operators -/

theorem plain_readBinary :
    plain (s.readBinary least tokens) =
      (plain (s.readUnary tokens)).bind fun x => plain (s.readTail least x.1 x.2) := by
  rw [readBinary]
  cases s.readUnary tokens with
  | error e => rfl
  | ok x =>
    rcases x with ⟨left, middle, hm⟩
    simp only [plain, Except.map, Except.bind]
    cases s.readTail least left middle <;> rfl

/-- No operator comes next that binds at least as tightly as asked for. -/
def Stops (least : Nat) (tokens : List Token) : Prop :=
  ∀ t ∈ tokens.head?, ∀ op, t.binaryOperator? = some op → op.precedence < least

theorem plain_readTail_of_stops (h : Stops least tokens) :
    plain (s.readTail least left tokens) = .ok (left, tokens) := by
  cases tokens with
  | nil => rw [readTail]; rfl
  | cons t rest =>
    rw [readTail]
    split
    · rfl
    · next op entry hentry =>
      rw [t.lookUpBinary?_eq, Option.map_eq_some_iff] at hentry
      obtain ⟨_, hop, hpair⟩ := hentry
      cases hpair
      have hlt : (Operator.binary op).descriptor.precedence < least := h t rfl op hop
      simp [hlt, plain, Except.map]

theorem plain_readTail_cons {op : BinaryOperator} (hop : t.binaryOperator? = some op)
    (hle : least ≤ op.precedence) :
    plain (s.readTail least left (t :: tokens)) =
      (plain (s.readBinary (op.precedence + 1) tokens)).bind fun x =>
        ((Operator.binary op).check t.position [left.type, x.1.type]).bind fun type =>
          plain (s.readTail least (.binary ⟨type, left.position⟩ op left x.1) x.2) := by
  have hlt : ¬(Operator.binary op).descriptor.precedence < least := Nat.not_lt.mpr hle
  have hentry : t.lookUpBinary? = some (op, (Operator.binary op).descriptor) := by
    rw [t.lookUpBinary?_eq, hop]
    rfl
  rw [readTail]
  split
  · next h => simp [hentry] at h
  · next h =>
    rw [hentry] at h
    cases h
    simp only [hlt, ↓reduceIte]
    show _ = (plain (s.readBinary ((Operator.binary op).descriptor.precedence + 1) tokens)).bind _
    cases s.readBinary ((Operator.binary op).descriptor.precedence + 1) tokens with
    | error e => rfl
    | ok x =>
      rcases x with ⟨right, middle, hm⟩
      simp only [plain, Except.map, Except.bind, Operator.check_eq]
      cases (Operator.binary op).descriptor.check t.position [left.type, right.type] with
      | error e => rfl
      | ok type =>
        simp only
        cases s.readTail least (.binary ⟨type, left.position⟩ op left right) middle <;> rfl

/-! ### Operands -/

theorem plain_readUnary_nil : plain (s.readUnary []) = .error (s.unexpected .expression []) := by
  rw [readUnary]; rfl

theorem plain_readUnary_of_none (h : t.unaryOperator? = none) :
    plain (s.readUnary (t :: tokens)) = plain (s.readPrimary t tokens) := by
  rw [readUnary]
  split
  · rfl
  · next op hop => simp [h] at hop

theorem plain_readUnary_of_some {op : UnaryOperator} (h : t.unaryOperator? = some op) :
    plain (s.readUnary (t :: tokens)) =
      (plain (s.readUnary tokens)).bind fun x =>
        ((Operator.unary op).check t.position [x.1.type]).bind fun type =>
          .ok (.unary ⟨type, t.position⟩ op x.1, x.2) := by
  rw [readUnary]
  split
  · next hn => simp [h] at hn
  · next op' hop =>
    obtain rfl : op = op' := by simpa [h] using hop
    cases s.readUnary tokens with
    | error e => rfl
    | ok x =>
      rcases x with ⟨operand, middle, hm⟩
      simp only [plain, Except.map, Except.bind]
      cases (Operator.unary op).check t.position [operand.type] <;> rfl

theorem plain_readPrimary_openParen (h : t.content = .openParen) :
    plain (s.readPrimary t tokens) =
      (plain (s.readBinary 0 tokens)).bind fun x =>
        (plain (s.expect .closeParen x.2)).bind fun y => .ok (x.1.moveTo t.position, y.2) := by
  have hkind : t.kind = .openParen := by rw [Token.kind, h]; rfl
  rw [readPrimary]
  simp only [hkind]
  cases s.readBinary 0 tokens with
  | error e => rfl
  | ok x =>
    rcases x with ⟨inner, middle, hm⟩
    simp only [plain, Except.map, Except.bind]
    cases s.expect .closeParen middle <;> rfl

theorem plain_readPrimary_literal {value : Literal} (h : t.content = .literal value) :
    plain (s.readPrimary t tokens) =
      .ok (.literal ⟨.simple value.type, t.position⟩ value, tokens) := by
  have hkind : t.kind = .literal := by rw [Token.kind, h]; rfl
  rw [readPrimary]
  simp only [hkind, Token.literal?_of_content h]
  rfl

theorem plain_readPrimary_call {u : Token} (h : t.content = .identifier)
    (hu : u.kind = .openParen) :
    plain (s.readPrimary t (u :: tokens)) =
      match Method.ofName? t.text with
      | none => .error (.unknownMethod t.position t.text)
      | some method =>
        (plain (s.readArguments tokens)).bind fun x =>
          ((Operator.method method).check t.position (x.1.map Expr.type)).bind fun type =>
            .ok (.call ⟨type, t.position⟩ method x.1, x.2) := by
  have hkind : t.kind = .identifier := by rw [Token.kind, h]; rfl
  rw [readPrimary]
  simp only [hkind, accept?_cons_of_kind hu, Method.lookUp?_eq]
  cases Method.ofName? t.text with
  | none => rfl
  | some method =>
    simp only [Option.map_some]
    cases s.readArguments tokens with
    | error e => rfl
    | ok x =>
      rcases x with ⟨arguments, middle, hm⟩
      simp only [plain, Except.map, Except.bind, Operator.check_eq]
      cases (Operator.method method).descriptor.check t.position (arguments.map Expr.type) <;> rfl

theorem plain_readPrimary_path (h : t.content = .identifier)
    (hp : ∀ u ∈ tokens.head?, u.kind ≠ .openParen) :
    plain (s.readPrimary t tokens) =
      (resolve s.model s.root t.text t.position).bind fun node =>
        plain (s.readPath t.position node tokens) := by
  have hkind : t.kind = .identifier := by rw [Token.kind, h]; rfl
  rw [readPrimary]
  simp only [hkind, accept?_eq_none_iff.mpr hp]
  cases resolve s.model s.root t.text t.position with
  | error e => rfl
  | ok node =>
    simp only [plain, Except.map, Except.bind]
    cases s.readPath t.position node tokens <;> rfl

/-- A primary expression starts with a parenthesis, a literal or an identifier. -/
theorem plain_readPrimary_other (ho : t.kind ≠ .openParen) (hl : t.kind ≠ .literal)
    (hi : t.kind ≠ .identifier) :
    plain (s.readPrimary t tokens) = .error (s.unexpected .expression (t :: tokens)) := by
  rw [readPrimary]
  split
  · next hkind => exact absurd hkind ho
  · next hkind => exact absurd hkind hl
  · next hkind => exact absurd hkind hi
  · rfl

/-! ### Paths -/

theorem plain_readPath_of_stop {start : Nat}
    (h : ∀ u ∈ tokens.head?, u.isPathSeparator = false) :
    plain (s.readPath start node tokens) = .ok (node, tokens) := by
  cases tokens with
  | nil => rw [readPath]; rfl
  | cons u us =>
    have hu : u.isPathSeparator = false := h u rfl
    rw [readPath]
    simp [hu, plain, Except.map]

theorem plain_readPath_cons {start : Nat} (h : t.isPathSeparator = true) :
    plain (s.readPath start node (t :: tokens)) =
      (plain (s.expect .identifier tokens)).bind fun x =>
        if node.type.isStructural then
          (resolve s.model node.type x.1.text x.1.position).bind fun property =>
            plain (s.readPath start (.member ⟨property.type, start⟩ node property) x.2)
        else .error (.pathNotStructural x.1.position x.1.text node.type) := by
  rw [readPath]
  simp only [h, ↓reduceIte]
  cases s.expect .identifier tokens with
  | error e => rfl
  | ok x =>
    rcases x with ⟨segment, middle, hm⟩
    simp only [plain, Except.map, Except.bind]
    by_cases hs : node.type.isStructural = true
    · simp only [hs, ↓reduceIte]
      cases resolve s.model node.type segment.text segment.position with
      | error e => rfl
      | ok property =>
        simp only [Operator.check_member]
        cases s.readPath start (.member ⟨property.type, start⟩ node property) middle <;> rfl
    · simp only [hs, Bool.false_eq_true, ↓reduceIte]

/-! ### Arguments -/

theorem plain_readArguments_nil (h : t.kind = .closeParen) :
    plain (s.readArguments (t :: tokens)) = .ok ([], tokens) := by
  rw [readArguments, accept?_cons_of_kind h]
  rfl

theorem plain_readArguments_of_items (h : ∀ u ∈ tokens.head?, u.kind ≠ .closeParen) :
    plain (s.readArguments tokens) = plain (s.readItems tokens) := by
  rw [readArguments, accept?_eq_none_iff.mpr h]

theorem plain_readItems :
    plain (s.readItems tokens) =
      (plain (s.readBinary 0 tokens)).bind fun x =>
        match accept? .comma x.2 with
        | some rest => (plain (s.readItems rest.val)).bind fun y => .ok (x.1 :: y.1, y.2)
        | none => (plain (s.expect .closeParen x.2)).bind fun y => .ok ([x.1], y.2) := by
  rw [readItems]
  cases s.readBinary 0 tokens with
  | error e => rfl
  | ok x =>
    rcases x with ⟨argument, middle, hm⟩
    simp only [plain, Except.map, Except.bind]
    cases accept? .comma middle with
    | some rest =>
      simp only
      cases s.readItems rest.val <;> rfl
    | none =>
      simp only
      cases s.expect .closeParen middle <;> rfl

/-! ### Whole expressions -/

theorem finish_eq_error_iff {err : ParseError} :
    finish tokens = .error err ↔
      ∃ t rest, tokens = t :: rest ∧ err = .trailing t.position t.text := by
  cases tokens with
  | nil => simp [finish]
  | cons t rest => simp [finish, eq_comm]

theorem readExpression_eq :
    s.readExpression tokens =
      (plain (s.readBinary 0 tokens)).bind fun x => (finish x.2).map fun () => x.1 := by
  unfold readExpression
  cases s.readBinary 0 tokens <;> rfl

/-- An expression is read from tokens exactly if a chain of any operators takes all of them. -/
theorem readExpression_eq_ok_iff {e : Expr} :
    s.readExpression tokens = .ok e ↔ plain (s.readBinary 0 tokens) = .ok (e, []) := by
  unfold readExpression
  cases s.readBinary 0 tokens with
  | error err => simp [plain, Except.map]
  | ok x =>
    rcases x with ⟨e', rest, hr⟩
    cases rest with
    | nil => simp [plain, Except.map, finish]
    | cons t rest => simp [plain, Except.map, finish]

/-! ### Sort keys -/

theorem readOrder_nil : readOrder [] = (.ascending, ⟨[], Nat.le_refl _⟩) := rfl

theorem readOrder_cons : readOrder (t :: rest) =
    if t.isWord "desc" then (.descending, ⟨rest, Nat.le_succ rest.length⟩)
    else if t.isWord "asc" then (.ascending, ⟨rest, Nat.le_succ rest.length⟩)
    else (.ascending, ⟨t :: rest, Nat.le_refl _⟩) := by
  by_cases hdesc : t.isWord "desc" = true
  · simp [readOrder, takeIf?, hdesc]
  · by_cases hasc : t.isWord "asc" = true <;> simp [readOrder, takeIf?, hdesc, hasc]

/-- What follows a sort key: other keys behind a comma, or nothing. -/
def readMore (s : Scope) (item : OrderItem) (tokens : List Token) :
    Except ParseError (List OrderItem) :=
  match accept? .comma tokens with
  | none => (finish tokens).map fun () => [item]
  | some later => (s.readOrderBy later.val).map (item :: ·)

theorem readMore_of_end {item : OrderItem} (h : ∀ t ∈ tokens.head?, t.kind ≠ .comma) :
    s.readMore item tokens = (finish tokens).map fun () => [item] := by
  rw [readMore, accept?_eq_none_iff.mpr h]

theorem readMore_of_comma {item : OrderItem} (h : t.kind = .comma) :
    s.readMore item (t :: tokens) = (s.readOrderBy tokens).map (item :: ·) := by
  rw [readMore, accept?_cons_of_kind h]

theorem readOrderBy_eq :
    s.readOrderBy tokens = (plain (s.readBinary 0 tokens)).bind fun x =>
      s.readMore ⟨x.1, (readOrder x.2).1⟩ (readOrder x.2).2.val := by
  rw [readOrderBy]
  cases s.readBinary 0 tokens with
  | error e => rfl
  | ok x =>
    rcases x with ⟨e, rest, _⟩
    simp only [plain, Except.map, Except.bind, readMore]
    cases accept? .comma (readOrder rest).2.val with
    | none => rfl
    | some later =>
      simp only
      cases s.readOrderBy later.val <;> rfl

end Scope

/-- A text is read from the tokens that it is cut into. -/
theorem readText_eq {α : Type} {read : Scope → List Token → Except ParseError α} {model : Model}
    {entityType : EntityType} {input : String} : readText read model entityType input =
      match tokenize input with
      | .error e => .error (.lexical e)
      | .ok tokens =>
        (read ⟨model, entityType, utf8Size input.toList⟩ tokens).mapError .parse := by
  unfold readText TokenStream.ofText
  cases tokenize input <;> rfl

/-- A text is read exactly if it is cut into tokens and they are read. -/
theorem parseExpression_eq_ok_iff {model : Model} {entityType : EntityType} {input : String}
    {tokens : List Token} (h : tokenize input = .ok tokens) {e : Expr} :
    parseExpression model entityType input = .ok e ↔
      (Scope.mk model entityType (utf8Size input.toList)).readExpression tokens = .ok e := by
  rw [parseExpression, readText_eq, h]
  exact mapError_eq_ok_iff

/-- A filter is an expression of type Boolean. -/
theorem parseFilter_eq_ok_iff {model : Model} {entityType : EntityType} {input : String}
    {e : Expr} :
    parseFilter model entityType input = .ok e ↔
      parseExpression model entityType input = .ok e ∧ e.type = .simple .boolean := by
  rw [parseFilter, parseExpression, readText_eq, readText_eq]
  cases tokenize input with
  | error err => simp
  | ok tokens =>
    rw [mapError_eq_ok_iff, mapError_eq_ok_iff]
    unfold Scope.readFilter
    cases (Scope.mk model entityType (utf8Size input.toList)).readExpression tokens with
    | error err => simp
    | ok e' =>
      by_cases htype : e'.type = .simple .boolean
      · simp only [if_pos htype, Except.ok.injEq]
        exact ⟨fun h => ⟨h, h ▸ htype⟩, fun h => h.1⟩
      · simp only [if_neg htype, Except.ok.injEq]
        constructor
        · intro h
          cases h
        · rintro ⟨rfl, hboolean⟩
          exact absurd hboolean htype

end EntityQuery
