import EntityQuery.Proofs.Expr.Extent
import EntityQuery.Proofs.Token.Layout

/-!
# Where errors point

An error of reading tokens is at the start of one of them, or at the end of the input where a token
is missing. Tokens are left over behind a complete expression only, and the error is at the first
token that no expression which starts in the same way takes. No error is about a token without its
value or about the table of operators: the tokens of a text have their values, and the standard
table has an entry for every operator and a parameter for every operand that is looked for.
-/

namespace EntityQuery

/-- The error is about a part of an expression, and the tokens are to blame for it. It is not about
a whole expression or what follows it. -/
def ParseError.isInner : ParseError → Bool
  | .unexpected _ | .operandMismatch _ _ _ | .pathNotStructural _ _ _ | .unknownProperty _ _ _
  | .unknownMethod _ _ | .collectionNavigation _ _ => true
  | .trailing _ _ | .typeExpected _ _ _ | .invalidToken _ | .unsupportedNode _ | .outOfRange _ =>
    false

/-- The error is at the start of one of the tokens, or at the end of the input where a token is
missing. -/
def ParseError.PointsInto (inputSize : Nat) (tokens : List Token) (err : ParseError) : Prop :=
  (∃ t ∈ tokens, err.position? = some t.position) ∨
    (err.position? = some inputSize ∧
      ∃ expected, err = .unexpected ⟨inputSize, expected, .endOfInput⟩)

namespace Scope

variable {s : Scope} {err : ParseError}

/-! ### Errors within expressions -/

/-- The error is about a part of an expression and points into the tokens. -/
structure FailsIn (s : Scope) (tokens : List Token) (err : ParseError) : Prop where
  inner : err.isInner = true
  place : err.PointsInto s.inputSize tokens

section

variable {tokens rest : List Token} {t : Token}

theorem FailsIn.mono (h : FailsIn s rest err) (hrest : rest <:+ tokens) : FailsIn s tokens err := by
  refine ⟨h.inner, ?_⟩
  rcases h.place with ⟨t, ht, hposition⟩ | hend
  · exact .inl ⟨t, hrest.subset ht, hposition⟩
  · exact .inr hend

theorem failsIn_of_position (ht : t ∈ tokens) (hposition : err.position? = some t.position)
    (hinner : err.isInner = true) : FailsIn s tokens err :=
  ⟨hinner, .inl ⟨t, ht, hposition⟩⟩

theorem failsIn_unexpected (expected : Expected) (tokens : List Token) :
    FailsIn s tokens (s.unexpected expected tokens) := by
  cases tokens with
  | nil => exact ⟨rfl, .inr ⟨rfl, expected, rfl⟩⟩
  | cons t rest => exact failsIn_of_position List.mem_cons_self rfl rfl

theorem failsIn_of_expect {kind : TokenKind} (h : plain (s.expect kind tokens) = .error err) :
    FailsIn s tokens err := by
  by_cases hkind : ∀ t ∈ tokens.head?, t.kind ≠ kind
  · rw [expect_eq_error hkind] at h
    cases h
    exact failsIn_unexpected _ tokens
  · cases tokens with
    | nil => simp at hkind
    | cons t rest =>
      rw [expect_cons_of_kind (show t.kind = kind by simpa using hkind)] at h
      cases h

theorem failsIn_of_check {op : Operator} {operands : List ValueType} (ht : t ∈ tokens)
    (h : op.check t.position operands = .error err) : FailsIn s tokens err := by
  rw [Operator.eq_of_check_eq_error h]
  exact failsIn_of_position ht rfl rfl

theorem failsIn_of_resolve {owner : ValueType} (ht : t ∈ tokens)
    (h : resolve s.model owner t.text t.position = .error err) : FailsIn s tokens err := by
  unfold resolve at h
  split at h
  · cases h
  · split at h
    · cases h
      exact failsIn_of_position ht rfl rfl
    · split at h
      · cases h
      · cases h
        exact failsIn_of_position ht rfl rfl

theorem suffix_of_readUnary {e : Expr} (h : plain (s.readUnary tokens) = .ok (e, rest)) :
    rest <:+ tokens := by
  obtain ⟨taken, htokens, _⟩ := readUnary_elsewhere h
  exact ⟨taken, htokens.symm⟩

theorem suffix_of_readBinary {least : Nat} {e : Expr}
    (h : plain (s.readBinary least tokens) = .ok (e, rest)) :
    rest <:+ tokens := by
  obtain ⟨taken, htokens, _⟩ := readBinary_elsewhere h
  exact ⟨taken, htokens.symm⟩

end

theorem failsIn_of_readPath {start : Nat} {node : Expr} {tokens : List Token}
    (h : plain (s.readPath start node tokens) = .error err) : FailsIn s tokens err := by
  by_cases hs : ∀ u ∈ tokens.head?, u.isPathSeparator = false
  · rw [plain_readPath_of_stop hs] at h
    cases h
  · match tokens with
    | [] => simp at hs
    | separator :: tokens =>
      have hseparator : separator.isPathSeparator = true := by simpa using hs
      rw [plain_readPath_cons hseparator, bind_eq_error_iff] at h
      rcases h with hx | ⟨⟨segment, middle⟩, hx, h⟩
      · exact (failsIn_of_expect hx).mono (List.suffix_cons _ _)
      · have hlt : middle.length < tokens.length := bound_of_plain hx
        obtain ⟨htokens, _⟩ := plain_expect_eq_ok_iff.mp hx
        have hsegment : segment ∈ separator :: tokens := by simp [htokens]
        split at h
        · rw [bind_eq_error_iff] at h
          rcases h with hresolve | ⟨property, _, h⟩
          · exact failsIn_of_resolve hsegment hresolve
          · refine (failsIn_of_readPath h).mono ?_
            rw [htokens]
            exact List.suffix_append [separator, segment] middle
        · cases h
          exact failsIn_of_position hsegment rfl rfl
termination_by tokens.length

mutual

theorem failsIn_of_readBinary {least : Nat} {tokens : List Token}
    (h : plain (s.readBinary least tokens) = .error err) : FailsIn s tokens err := by
  rw [plain_readBinary, bind_eq_error_iff] at h
  rcases h with hunary | ⟨⟨left, middle⟩, hunary, h⟩
  · exact failsIn_of_readUnary hunary
  · have hlt : middle.length < tokens.length := bound_of_plain hunary
    exact (failsIn_of_readTail h).mono (suffix_of_readUnary hunary)
termination_by 4 * tokens.length + 2

theorem failsIn_of_readTail {least : Nat} {left : Expr} {tokens : List Token}
    (h : plain (s.readTail least left tokens) = .error err) : FailsIn s tokens err := by
  by_cases hs : Stops least tokens
  · rw [plain_readTail_of_stops hs] at h
    cases h
  · obtain ⟨t, operands, op, htokens, hop, hle⟩ := exists_fold_of_not_stops hs
    have hlength : tokens.length = operands.length + 1 := congrArg List.length htokens
    have ht : t ∈ tokens := by simp [htokens]
    have hoperands : operands <:+ tokens := by
      rw [htokens]
      exact List.suffix_cons t operands
    rw [htokens, plain_readTail_cons hop hle, bind_eq_error_iff] at h
    rcases h with hb | ⟨⟨right, middle⟩, hb, h⟩
    · exact (failsIn_of_readBinary hb).mono hoperands
    · have hlt : middle.length < operands.length := bound_of_plain hb
      rw [bind_eq_error_iff] at h
      rcases h with hcheck | ⟨type, _, h⟩
      · exact failsIn_of_check ht hcheck
      · exact (failsIn_of_readTail h).mono ((suffix_of_readBinary hb).trans hoperands)
termination_by 4 * tokens.length

theorem failsIn_of_readUnary {tokens : List Token} (h : plain (s.readUnary tokens) = .error err) :
    FailsIn s tokens err := by
  match tokens with
  | [] =>
    rw [plain_readUnary_nil] at h
    cases h
    exact failsIn_unexpected _ _
  | t :: tokens =>
    cases hu : t.unaryOperator? with
    | none =>
      rw [plain_readUnary_of_none hu] at h
      exact failsIn_of_readPrimary h
    | some op =>
      rw [plain_readUnary_of_some hu, bind_eq_error_iff] at h
      rcases h with ho | ⟨⟨operand, middle⟩, _, h⟩
      · exact (failsIn_of_readUnary ho).mono (List.suffix_cons _ _)
      · rw [bind_eq_error_iff] at h
        rcases h with hcheck | ⟨type, _, h⟩
        · exact failsIn_of_check List.mem_cons_self hcheck
        · cases h
termination_by 4 * tokens.length + 1

theorem failsIn_of_readPrimary {t : Token} {tokens : List Token}
    (h : plain (s.readPrimary t tokens) = .error err) : FailsIn s (t :: tokens) err := by
  have htail : tokens <:+ t :: tokens := List.suffix_cons t tokens
  cases hc : t.content with
  | openParen =>
    rw [plain_readPrimary_openParen hc, bind_eq_error_iff] at h
    rcases h with hb | ⟨⟨inner, middle⟩, hb, h⟩
    · exact (failsIn_of_readBinary hb).mono htail
    · rw [bind_eq_error_iff] at h
      rcases h with hx | ⟨_, _, h⟩
      · exact (failsIn_of_expect hx).mono ((suffix_of_readBinary hb).trans htail)
      · cases h
  | literal value =>
    rw [plain_readPrimary_literal hc] at h
    cases h
  | identifier =>
    by_cases hp : ∀ u ∈ tokens.head?, u.kind ≠ .openParen
    · rw [plain_readPrimary_path hc hp, bind_eq_error_iff] at h
      rcases h with hresolve | ⟨node, _, h⟩
      · exact failsIn_of_resolve List.mem_cons_self hresolve
      · exact (failsIn_of_readPath h).mono htail
    · match tokens with
      | [] => simp at hp
      | u :: tokens =>
        have hu : u.kind = .openParen := by simpa using hp
        rw [plain_readPrimary_call hc hu] at h
        split at h
        · cases h
          exact failsIn_of_position List.mem_cons_self rfl rfl
        · rw [bind_eq_error_iff] at h
          rcases h with ha | ⟨⟨arguments, last⟩, _, h⟩
          · exact (failsIn_of_readArguments ha).mono (List.suffix_append [t, u] tokens)
          · rw [bind_eq_error_iff] at h
            rcases h with hcheck | ⟨type, _, h⟩
            · exact failsIn_of_check List.mem_cons_self hcheck
            · cases h
  | closeParen | comma | slash | dot | minus =>
    rw [plain_readPrimary_other (by simp [Token.kind, hc, TokenContent.kind])
      (by simp [Token.kind, hc, TokenContent.kind])
      (by simp [Token.kind, hc, TokenContent.kind])] at h
    cases h
    exact failsIn_unexpected _ _
termination_by 4 * tokens.length + 4

theorem failsIn_of_readArguments {tokens : List Token}
    (h : plain (s.readArguments tokens) = .error err) :
    FailsIn s tokens err := by
  by_cases hc : ∀ u ∈ tokens.head?, u.kind ≠ .closeParen
  · rw [plain_readArguments_of_items hc] at h
    exact failsIn_of_readItems h
  · cases tokens with
    | nil => simp at hc
    | cons t tokens =>
      rw [plain_readArguments_nil (show t.kind = .closeParen by simpa using hc)] at h
      cases h
termination_by 4 * tokens.length + 4

theorem failsIn_of_readItems {tokens : List Token} (h : plain (s.readItems tokens) = .error err) :
    FailsIn s tokens err := by
  rw [plain_readItems, bind_eq_error_iff] at h
  rcases h with hb | ⟨⟨argument, middle⟩, hb, h⟩
  · exact failsIn_of_readBinary hb
  · have hlt : middle.length < tokens.length := bound_of_plain hb
    have hmiddle : middle <:+ tokens := suffix_of_readBinary hb
    cases ha : accept? .comma middle with
    | some shorter =>
      rcases shorter with ⟨after, hafter⟩
      simp only [ha] at h
      rw [bind_eq_error_iff] at h
      rcases h with hi | ⟨_, _, h⟩
      · obtain ⟨comma, hcomma, _⟩ := accept?_eq_some_iff.mp ha
        refine (failsIn_of_readItems hi).mono (List.IsSuffix.trans ?_ hmiddle)
        rw [hcomma]
        exact List.suffix_cons comma after
      · cases h
    | none =>
      simp only [ha] at h
      rw [bind_eq_error_iff] at h
      rcases h with hx | ⟨_, _, h⟩
      · exact (failsIn_of_expect hx).mono hmiddle
      · cases h
termination_by 4 * tokens.length + 3

end

/-! ### Tokens that are left over -/

/-- A token is left over: those before it are read, and with it they are not, whatever follows. -/
def LeavesOver {α : Type} (read : List Token → Except ParseError α) (tokens : List Token)
    (err : ParseError) : Prop :=
  ∃ taken t rest, tokens = taken ++ t :: rest ∧ err = .trailing t.position t.text ∧
    (∃ a, read taken = .ok a) ∧ ∀ more, read (taken ++ t :: more) = .error err

/-- Reading an expression fails within it, or behind it at a token that is left over. -/
theorem readExpression_error {tokens : List Token} (h : s.readExpression tokens = .error err) :
    FailsIn s tokens err ∨ LeavesOver s.readExpression tokens err := by
  rw [readExpression_eq, bind_eq_error_iff] at h
  rcases h with hb | ⟨⟨e, rest⟩, hb, h⟩
  · exact .inl (failsIn_of_readBinary hb)
  · rw [map_eq_error_iff, finish_eq_error_iff] at h
    obtain ⟨t, after, rfl, rfl⟩ := h
    have hstops := stops_of_readBinary hb
    obtain ⟨taken, rfl, _⟩ := readBinary_elsewhere hb
    have hread (next : List Token) (hnext : BreaksOff next (t :: after)) :
        s.readExpression (taken ++ next) = (finish next).map fun () => e := by
      rw [readExpression_eq, readBinary_breaksOff hb (Nat.le_refl 0) hnext (hnext.stops hstops)]
      rfl
    refine .inr ⟨taken, t, after, rfl, rfl, ⟨e, ?_⟩, fun more => hread (t :: more) (.inr rfl)⟩
    have halone := hread [] (.inl rfl)
    rw [List.append_nil] at halone
    exact halone

/-- Reading sort keys fails within the expression of one of them, or at a token that is left
over. -/
theorem readOrderBy_error {tokens : List Token} (h : s.readOrderBy tokens = .error err) :
    FailsIn s tokens err ∨ LeavesOver s.readOrderBy tokens err := by
  cases hb : plain (s.readBinary 0 tokens) with
  | error err' =>
    rw [readOrderBy_eq, hb] at h
    cases h
    exact .inl (failsIn_of_readBinary hb)
  | ok x =>
    obtain ⟨own, last, item, htokens, hlt, hread⟩ := exists_item_of_readBinary hb
    rw [htokens, hread last (.inr rfl)] at h
    cases hcomma : accept? .comma last with
    | none =>
      have hhead := accept?_eq_none_iff.mp hcomma
      rw [readMore_of_end hhead, map_eq_error_iff, finish_eq_error_iff] at h
      obtain ⟨t, after, hlast, herr⟩ := h
      subst hlast
      refine .inr ⟨own, t, after, htokens, herr, ⟨[item], ?_⟩, fun more => ?_⟩
      · have halone := hread [] (.inl rfl)
        rw [List.append_nil] at halone
        exact halone
      · have hhead' : ∀ u ∈ (t :: more).head?, u.kind ≠ .comma := hhead
        rw [hread (t :: more) (.inr rfl), readMore_of_end hhead', herr]
        rfl
    | some shorter =>
      rcases shorter with ⟨later, hlater⟩
      obtain ⟨comma, hlast, hk⟩ := accept?_eq_some_iff.mp hcomma
      have hgoes (next : List Token) :
          s.readOrderBy (own ++ comma :: next) = (s.readOrderBy next).map (item :: ·) := by
        rw [hread (comma :: next) (.inr (by rw [hlast]; rfl)), readMore_of_comma hk]
      rw [hlast, readMore_of_comma hk, map_eq_error_iff] at h
      -- a comma is never left over, as another key must follow it
      rcases readOrderBy_error h with hfails |
        ⟨taken, t, after, hafter, herr, ⟨items, hitems⟩, hmore⟩
      · refine .inl (hfails.mono ?_)
        rw [htokens, hlast]
        exact (List.suffix_cons comma later).trans (List.suffix_append _ _)
      · refine .inr ⟨own ++ comma :: taken, t, after, by rw [htokens, hlast, hafter]; simp, herr,
          ⟨item :: items, by rw [hgoes, hitems]; rfl⟩, fun more => ?_⟩
        rw [List.append_assoc, List.cons_append, hgoes, hmore more]
        rfl
termination_by tokens.length

/-- Reading a filter fails where reading an expression does, or at the first token, where the
expression is of another type. -/
theorem readFilter_error {tokens : List Token} (h : s.readFilter tokens = .error err) :
    s.readExpression tokens = .error err ∨ ∃ (e : Expr) (t : Token), tokens.head? = some t ∧
      err = .typeExpected t.position .boolean e.type := by
  unfold readFilter at h
  cases hread : s.readExpression tokens with
  | error err' =>
    rw [hread] at h
    exact .inl h
  | ok e =>
    rw [hread] at h
    simp only at h
    split at h
    · cases h
    · cases h
      obtain ⟨t, ht, hposition⟩ := Option.map_eq_some_iff.mp (head_of_readExpression hread)
      exact .inr ⟨e, t, ht, by rw [hposition]⟩

end Scope

/-! ### Texts -/

/-- An error of reading tokens is at one of them or at the end of the input, where a token is
missing. It is at a token that is left over if it says so, and at the first token if it is about the
type of the whole. It is never about a literal token without a value, an operator without an entry
in the table or an operand without a parameter. -/
structure ParseError.Placed {α : Type} (read : List Token → Except ParseError α) (inputSize : Nat)
    (tokens : List Token) (err : ParseError) : Prop where
  place : err.PointsInto inputSize tokens
  trailing : ∀ position found, err = .trailing position found → Scope.LeavesOver read tokens err
  typeExpected : ∀ position expected found, err = .typeExpected position expected found →
    tokens.head?.map Token.position = some position
  invalidToken : ∀ cause, err ≠ .invalidToken cause
  unsupportedNode : ∀ op, err ≠ .unsupportedNode op
  outOfRange : ∀ cause, err ≠ .outOfRange cause

namespace ParseError

variable {α : Type} {read : List Token → Except ParseError α} {s : Scope} {tokens : List Token}
  {err : ParseError}

theorem placed_of_failsIn (h : s.FailsIn tokens err) : err.Placed read s.inputSize tokens := by
  refine ⟨h.place, ?_, ?_, ?_, ?_, ?_⟩
  · rintro position found rfl
    cases h.inner
  · rintro position expected found rfl
    cases h.inner
  · rintro cause rfl
    cases h.inner
  · rintro op rfl
    cases h.inner
  · rintro cause rfl
    cases h.inner

theorem placed_of_leavesOver (h : Scope.LeavesOver read tokens err) (inputSize : Nat) :
    err.Placed read inputSize tokens := by
  have htrailing : ∃ t ∈ tokens, err = .trailing t.position t.text := by
    obtain ⟨taken, t, rest, rfl, rfl, _⟩ := h
    exact ⟨t, by simp, rfl⟩
  obtain ⟨t, ht, rfl⟩ := htrailing
  refine ⟨.inl ⟨t, ht, rfl⟩, fun _ _ _ => h, ?_, ?_, ?_, ?_⟩
  · intro position expected found htype
    cases htype
  · intro cause hcause
    cases hcause
  · intro op hop
    cases hop
  · intro cause hcause
    cases hcause

theorem placed_of_typeExpected {t : Token} (ht : tokens.head? = some t) (expected : SimpleType)
    (found : ValueType) (inputSize : Nat) :
    (typeExpected t.position expected found).Placed read inputSize tokens := by
  refine ⟨.inl ⟨t, List.mem_of_head? ht, rfl⟩, ?_, ?_, ?_, ?_, ?_⟩
  · intro position found' h
    cases h
  · rintro position expected' found' h
    cases h
    rw [ht]
    rfl
  · intro cause hcause
    cases hcause
  · intro op hop
    cases hop
  · intro cause hcause
    cases hcause

end ParseError

/-- Every error of reading an expression has its place. -/
theorem Scope.placed_of_readExpression {s : Scope} {tokens : List Token} {err : ParseError}
    (h : s.readExpression tokens = .error err) :
    err.Placed s.readExpression s.inputSize tokens := by
  rcases readExpression_error h with hfails | hleaves
  · exact ParseError.placed_of_failsIn hfails
  · exact ParseError.placed_of_leavesOver hleaves _

/-- The error of a text that is cut into tokens comes from reading them. -/
theorem exists_of_readText_error {α : Type} {read : Scope → List Token → Except ParseError α}
    {model : Model} {entityType : EntityType} {input : String} {tokens : List Token}
    {err : ExpressionError}
    (ht : tokenize input = .ok tokens) (h : readText read model entityType input = .error err) :
    ∃ cause, err = .parse cause ∧
      read ⟨model, entityType, input.utf8ByteSize⟩ tokens = .error cause := by
  have hsize : input.utf8ByteSize = utf8Size input.toList := by
    rw [← utf8ByteSize_ofList, String.ofList_toList]
  rw [hsize]
  rw [readText_eq] at h
  simp only [ht] at h
  cases hread : read ⟨model, entityType, utf8Size input.toList⟩ tokens with
  | error cause =>
    rw [hread] at h
    exact ⟨cause, (Except.error.inj h).symm, rfl⟩
  | ok a =>
    rw [hread] at h
    cases h

/-- Once a text is cut into tokens, every error of reading it as an expression, a filter or sort
keys comes from reading the tokens, and has its place in the input. -/
theorem parse_error_placed (model : Model) (entityType : EntityType) (input : String)
    (tokens : List Token) (ht : tokenize input = .ok tokens) :
    (∀ err, parseExpression model entityType input = .error err → ∃ cause, err = .parse cause ∧
      cause.Placed (Scope.readExpression ⟨model, entityType, input.utf8ByteSize⟩) input.utf8ByteSize
        tokens) ∧
    (∀ err, parseFilter model entityType input = .error err → ∃ cause, err = .parse cause ∧
      cause.Placed (Scope.readExpression ⟨model, entityType, input.utf8ByteSize⟩) input.utf8ByteSize
        tokens) ∧
    (∀ err, parseOrderBy model entityType input = .error err → ∃ cause, err = .parse cause ∧
      cause.Placed (Scope.readOrderBy ⟨model, entityType, input.utf8ByteSize⟩) input.utf8ByteSize
        tokens) := by
  refine ⟨fun err h => ?_, fun err h => ?_, fun err h => ?_⟩
  · obtain ⟨cause, herr, hread⟩ := exists_of_readText_error ht h
    exact ⟨cause, herr, Scope.placed_of_readExpression hread⟩
  · obtain ⟨cause, herr, hread⟩ := exists_of_readText_error ht h
    rcases Scope.readFilter_error hread with hread | ⟨e, t, hhead, rfl⟩
    · exact ⟨cause, herr, Scope.placed_of_readExpression hread⟩
    · exact ⟨_, herr, ParseError.placed_of_typeExpected hhead _ _ _⟩
  · obtain ⟨cause, herr, hread⟩ := exists_of_readText_error ht h
    rcases Scope.readOrderBy_error hread with hfails | hleaves
    · exact ⟨cause, herr, ParseError.placed_of_failsIn hfails⟩
    · exact ⟨cause, herr, ParseError.placed_of_leavesOver hleaves _⟩

/-- An argument that the end of the input follows, a number behind a blank where a condition is
asked for, and a second direction of a sort key. -/
theorem parse_error_placed_samples :
    (∃ tokens, tokenize "length('é'" = .ok tokens ∧
      parseExpression sampleModel sampleType "length('é'" =
        .error (.parse (.unexpected ⟨11, .kind .closeParen, .endOfInput⟩)) ∧
      (ParseError.unexpected ⟨11, .kind .closeParen, .endOfInput⟩).Placed
        (Scope.readExpression ⟨sampleModel, sampleType, "length('é'".utf8ByteSize⟩)
        "length('é'".utf8ByteSize
        tokens) ∧
    (∃ tokens, tokenize " (home add 1) mul 2" = .ok tokens ∧
      parseFilter sampleModel sampleType " (home add 1) mul 2" =
        .error (.parse (.typeExpected 1 .boolean (.simple .int32))) ∧
      (ParseError.typeExpected 1 .boolean (.simple .int32)).Placed
        (Scope.readExpression ⟨sampleModel, sampleType, " (home add 1) mul 2".utf8ByteSize⟩)
        " (home add 1) mul 2".utf8ByteSize tokens) ∧
    ∃ tokens, tokenize "eq desc, (eq) asc asc" = .ok tokens ∧
      parseOrderBy sampleModel sampleType "eq desc, (eq) asc asc" =
        .error (.parse (.trailing 18 "asc")) ∧
      (ParseError.trailing 18 "asc").Placed
        (Scope.readOrderBy ⟨sampleModel, sampleType, "eq desc, (eq) asc asc".utf8ByteSize⟩)
        "eq desc, (eq) asc asc".utf8ByteSize tokens := by
  refine ⟨?_, ?_, ?_⟩
  · obtain ⟨tokens, ht, _⟩ := @exists_ok_of_any _ _ (tokenize "length('é'") (fun _ => true)
      (by decide +kernel)
    have h : parseExpression sampleModel sampleType "length('é'" =
        .error (.parse (.unexpected ⟨11, .kind .closeParen, .endOfInput⟩)) :=
      eq_error_of_caught (by decide +kernel)
    obtain ⟨cause, hcause, hplaced⟩ := (parse_error_placed sampleModel sampleType _ tokens ht).1 _ h
    cases hcause
    exact ⟨tokens, ht, h, hplaced⟩
  · obtain ⟨tokens, ht, _⟩ := @exists_ok_of_any _ _ (tokenize " (home add 1) mul 2") (fun _ => true)
      (by decide +kernel)
    have h : parseFilter sampleModel sampleType " (home add 1) mul 2" =
        .error (.parse (.typeExpected 1 .boolean (.simple .int32))) :=
      eq_error_of_caught (by decide +kernel)
    obtain ⟨cause, hcause, hplaced⟩ :=
      (parse_error_placed sampleModel sampleType _ tokens ht).2.1 _ h
    cases hcause
    exact ⟨tokens, ht, h, hplaced⟩
  · obtain ⟨tokens, ht, _⟩ := @exists_ok_of_any _ _ (tokenize "eq desc, (eq) asc asc")
      (fun _ => true)
      (by decide +kernel)
    have h : parseOrderBy sampleModel sampleType "eq desc, (eq) asc asc" =
        .error (.parse (.trailing 18 "asc")) := eq_error_of_caught (by decide +kernel)
    obtain ⟨cause, hcause, hplaced⟩ :=
      (parse_error_placed sampleModel sampleType _ tokens ht).2.2 _ h
    cases hcause
    exact ⟨tokens, ht, h, hplaced⟩

end EntityQuery
