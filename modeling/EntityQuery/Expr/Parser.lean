import EntityQuery.Expr.Scope

/-!
# Reading expressions

Expressions are read from tokens by precedence climbing, and each node is checked as soon as it is
complete. A reader returns the tokens it leaves with a bound on their number, so that reading ends
because the tokens do.
-/

namespace EntityQuery

/-- The binary operator that a token is the keyword of, and its entry in the standard table. -/
def Token.lookUpBinary? (t : Token) : Option (BinaryOperator × Descriptor) :=
  if t.kind = .identifier then BinaryOperator.lookUp? t.text else none

/-- The unary operator that a token is the keyword or sign of. -/
def Token.unaryOperator? (t : Token) : Option UnaryOperator :=
  if t.isWord UnaryOperator.not.keyword then some .not
  else if t.kind = .minus then some .negate
  else none

/-- A slash or a dot, which divide the segments of a path. -/
def Token.isPathSeparator (t : Token) : Bool := t.kind == .slash || t.kind == .dot

namespace Scope

/-- Takes a token of the given kind, which must be next. -/
def expect (s : Scope) (kind : TokenKind) (tokens : List Token) :
    Except ParseError (Token × Shorter tokens) :=
  (takeKind s.inputSize kind tokens).mapError .unexpected

/-- The tokens after a token of the given kind, if one is next. -/
def accept? (kind : TokenKind) (tokens : List Token) : Option (Shorter tokens) :=
  (takeIf? (fun t => t.kind == kind) tokens).map Prod.snd

/-- Reads on a path whose node so far is `node` and which starts at `start`. Each segment names a
property of the type before it, and the access to a member has the type of the property. -/
def readPath (s : Scope) (start : Nat) (node : Expr) (tokens : List Token) :
    Except ParseError (Expr × NoLonger tokens) :=
  match tokens with
  | [] => .ok (node, ⟨[], by simp⟩)
  | separator :: rest =>
    if separator.isPathSeparator then
      match s.expect .identifier rest with
      | .error e => .error e
      | .ok (segment, ⟨rest', h⟩) =>
        if node.type.isStructural then
          match resolve s.model node.type segment.text segment.position with
          | .error e => .error e
          | .ok property =>
            match Operator.member.check segment.position [node.type, property.type] with
            | .error e => .error e
            | .ok type =>
              match readPath s start (.member ⟨type, start⟩ node property) rest' with
              | .error e => .error e
              | .ok (path, ⟨rest'', h'⟩) => .ok (path, ⟨rest'', by simp at *; omega⟩)
        else .error (.pathNotStructural segment.position segment.text node.type)
    else .ok (node, ⟨separator :: rest, by simp⟩)
termination_by tokens.length
decreasing_by simp at *; omega

mutual

/-- Reads a chain of binary operators that bind at least as tightly as `least`. -/
def readBinary (s : Scope) (least : Nat) (tokens : List Token) :
    Except ParseError (Expr × Shorter tokens) :=
  match readUnary s tokens with
  | .error e => .error e
  | .ok (left, ⟨rest, h⟩) =>
    match readTail s least left rest with
    | .error e => .error e
    | .ok (e, ⟨rest', h'⟩) => .ok (e, ⟨rest', by omega⟩)
termination_by 4 * tokens.length + 2

/-- Reads the operators and right operands that follow `left`. An operator's right operand takes all
that binds tighter than the operator, so chains of one strength group to the left. How tightly an
operator binds and what operands it takes is in its entry. -/
def readTail (s : Scope) (least : Nat) (left : Expr) (tokens : List Token) :
    Except ParseError (Expr × NoLonger tokens) :=
  match tokens with
  | [] => .ok (left, ⟨[], by simp⟩)
  | t :: rest =>
    match t.lookUpBinary? with
    | none => .ok (left, ⟨t :: rest, by simp⟩)
    | some (op, entry) =>
      if entry.precedence < least then .ok (left, ⟨t :: rest, by simp⟩)
      else
        match readBinary s (entry.precedence + 1) rest with
        | .error e => .error e
        | .ok (right, ⟨rest', h⟩) =>
          match entry.check t.position [left.type, right.type] with
          | .error e => .error e
          | .ok type =>
            match readTail s least (.binary ⟨type, left.position⟩ op left right) rest' with
            | .error e => .error e
            | .ok (e, ⟨rest'', h'⟩) => .ok (e, ⟨rest'', by simp at *; omega⟩)
termination_by 4 * tokens.length
decreasing_by all_goals simp at *; omega

/-- Reads an operand with the unary operators before it. -/
def readUnary (s : Scope) (tokens : List Token) : Except ParseError (Expr × Shorter tokens) :=
  match tokens with
  | [] => .error (s.unexpected .expression [])
  | t :: rest =>
    match t.unaryOperator? with
    | none => readPrimary s t rest
    | some op =>
      match readUnary s rest with
      | .error e => .error e
      | .ok (operand, ⟨rest', h⟩) =>
        match (Operator.unary op).check t.position [operand.type] with
        | .error e => .error e
        | .ok type => .ok (.unary ⟨type, t.position⟩ op operand, ⟨rest', by simp; omega⟩)
termination_by 4 * tokens.length + 1
decreasing_by all_goals simp at *; try omega

/-- Reads what starts with the token `t`: a parenthesised expression, which moves to the position of
its parenthesis, a literal, a call or a path. -/
def readPrimary (s : Scope) (t : Token) (rest : List Token) :
    Except ParseError (Expr × Shorter (t :: rest)) :=
  match t.kind with
  | .openParen =>
    match readBinary s 0 rest with
    | .error e => .error e
    | .ok (inner, ⟨rest', h⟩) =>
      match s.expect .closeParen rest' with
      | .error e => .error e
      | .ok (_, ⟨rest'', h'⟩) => .ok (inner.moveTo t.position, ⟨rest'', by simp; omega⟩)
  | .literal =>
    match t.literal? with
    | some value => .ok (.literal ⟨.simple value.type, t.position⟩ value, ⟨rest, by simp⟩)
    | none => .error (.invalidToken ⟨t.position, t.text⟩)
  | .identifier =>
    match accept? .openParen rest with
    | some ⟨inside, h⟩ =>
      match Method.lookUp? t.text with
      | none => .error (.unknownMethod t.position t.text)
      | some (method, entry) =>
        match readArguments s inside with
        | .error e => .error e
        | .ok (arguments, ⟨rest', h'⟩) =>
          match entry.check t.position (arguments.map Expr.type) with
          | .error e => .error e
          | .ok type => .ok (.call ⟨type, t.position⟩ method arguments, ⟨rest', by simp; omega⟩)
    | none =>
      match resolve s.model s.root t.text t.position with
      | .error e => .error e
      | .ok node =>
        match s.readPath t.position node rest with
        | .error e => .error e
        | .ok (path, ⟨rest', h⟩) => .ok (path, ⟨rest', by simp; omega⟩)
  | _ => .error (s.unexpected .expression (t :: rest))
termination_by 4 * rest.length + 4

/-- Reads the arguments of a call and the parenthesis that closes it. -/
def readArguments (s : Scope) (tokens : List Token) :
    Except ParseError (List Expr × Shorter tokens) :=
  match accept? .closeParen tokens with
  | some rest => .ok ([], rest)
  | none => readItems s tokens
termination_by 4 * tokens.length + 4

/-- Reads one argument or more, divided by commas, and the parenthesis that closes the call. -/
def readItems (s : Scope) (tokens : List Token) :
    Except ParseError (List Expr × Shorter tokens) :=
  match readBinary s 0 tokens with
  | .error e => .error e
  | .ok (argument, ⟨rest, h⟩) =>
    match accept? .comma rest with
    | some ⟨rest', h'⟩ =>
      match readItems s rest' with
      | .error e => .error e
      | .ok (arguments, ⟨rest'', h''⟩) => .ok (argument :: arguments, ⟨rest'', by omega⟩)
    | none =>
      match s.expect .closeParen rest with
      | .error e => .error e
      | .ok (_, ⟨rest', h'⟩) => .ok ([argument], ⟨rest', by omega⟩)
termination_by 4 * tokens.length + 3

end

/-- Nothing may follow. -/
def finish (tokens : List Token) : Except ParseError Unit :=
  match tokens with
  | [] => .ok ()
  | t :: _ => .error (.trailing t.position t.text)

/-- Reads an expression that takes all tokens. -/
def readExpression (s : Scope) (tokens : List Token) : Except ParseError Expr :=
  match s.readBinary 0 tokens with
  | .error e => .error e
  | .ok (e, rest) => (finish rest.val).map fun () => e

/-- Reads an expression of type Boolean that takes all tokens. -/
def readFilter (s : Scope) (tokens : List Token) : Except ParseError Expr :=
  match s.readExpression tokens with
  | .error e => .error e
  | .ok e =>
    if e.type = .simple .boolean then .ok e
    else .error (.typeExpected e.position .boolean e.type)

/-- Reads the direction of a sort key, which is ascending unless it says otherwise. -/
def readOrder (tokens : List Token) : SortOrder × NoLonger tokens :=
  match takeIf? (fun t => t.isWord "desc") tokens with
  | some (_, ⟨rest, h⟩) => (.descending, ⟨rest, Nat.le_of_lt h⟩)
  | none =>
    match takeIf? (fun t => t.isWord "asc") tokens with
    | some (_, ⟨rest, h⟩) => (.ascending, ⟨rest, Nat.le_of_lt h⟩)
    | none => (.ascending, ⟨tokens, Nat.le_refl _⟩)

/-- Reads sort keys, divided by commas, that take all tokens. -/
def readOrderBy (s : Scope) (tokens : List Token) : Except ParseError (List OrderItem) :=
  match s.readBinary 0 tokens with
  | .error e => .error e
  | .ok (e, ⟨rest, _⟩) =>
    match readOrder rest with
    | (order, ⟨rest', _⟩) =>
      match accept? .comma rest' with
      | none => (finish rest').map fun () => [⟨e, order⟩]
      | some ⟨rest'', _⟩ =>
        match readOrderBy s rest'' with
        | .error e => .error e
        | .ok items => .ok (⟨e, order⟩ :: items)
termination_by tokens.length

end Scope

/-- Cuts a text into tokens and reads them all, from the start of their stream. -/
def readText {α : Type} (read : Scope → List Token → Except ParseError α) (model : Model)
    (entityType : EntityType) (input : String) : Except ExpressionError α :=
  match TokenStream.ofText input with
  | .error e => .error (.lexical e)
  | .ok stream => (read ⟨model, entityType, stream.inputSize⟩ stream.pending).mapError .parse

/-- Reads an expression over the properties of an entity type. -/
def parseExpression (model : Model) (entityType : EntityType) (input : String) :
    Except ExpressionError Expr :=
  readText Scope.readExpression model entityType input

/-- Reads a condition on entities of a type. -/
def parseFilter (model : Model) (entityType : EntityType) (input : String) :
    Except ExpressionError Expr :=
  readText Scope.readFilter model entityType input

/-- Reads the sort keys for entities of a type. -/
def parseOrderBy (model : Model) (entityType : EntityType) (input : String) :
    Except ExpressionError (List OrderItem) :=
  readText Scope.readOrderBy model entityType input

end EntityQuery
