import EntityQuery.Proofs.Expr.Grammar

/-!
# Reading accepts exactly the grammar

Precedence climbing is sound and complete for the grammar of expressions. Soundness rests on what a
chain leaves: the operator after it binds looser than the chain was asked for, so what was folded
before can be the left operand of that operator. Completeness reads a derivation from the left and
goes on with the tail of the chain.
-/

namespace EntityQuery

namespace Scope

variable {s : Scope}

/-- A name resolves exactly to what it stands for, placed where it is written. -/
theorem resolve_eq_ok_iff {model : Model} {owner : ValueType} {name : String} {position : Nat}
    {e : Expr} :
    resolve model owner name position = .ok e ↔
      ∃ ref type, Names model owner name ref type ∧ e = .property ⟨type, position⟩ ref := by
  unfold resolve
  constructor
  · intro h
    split at h
    · next p hp =>
      cases h
      exact ⟨_, _, .property hp, rfl⟩
    · next hp =>
      split at h
      · cases h
      · next n hn =>
        split at h
        · next hs =>
          cases h
          exact ⟨_, _, .navigation hp hn hs, rfl⟩
        · cases h
  · rintro ⟨ref, type, hn, rfl⟩
    cases hn with
    | property hp => simp [hp]
    | navigation hp hn hs => simp [hp, hn, hs]

theorem bound_of_plain {α : Type} {p : List Token → Prop} {a : α} {rest : List Token}
    {result : Except ParseError (α × { rest : List Token // p rest })}
    (h : plain result = .ok (a, rest)) : p rest := by
  cases result with
  | error e => cases h
  | ok x =>
    rcases x with ⟨b, r, hr⟩
    cases h
    exact hr

/-! ### What a chain leaves -/

theorem exists_fold_of_not_stops {least : Nat} {tokens : List Token}
    (h : ¬Stops least tokens) : ∃ t rest op, tokens = t :: rest ∧
      t.binaryOperator? = some op ∧ least ≤ op.precedence := by
  cases tokens with
  | nil => simp [Stops] at h
  | cons t rest =>
    cases hop : t.binaryOperator? with
    | none => simp [Stops, hop] at h
    | some op =>
      have hle : least ≤ op.precedence := by simpa [Stops, hop] using h
      exact ⟨t, rest, op, rfl, hop, hle⟩

private theorem stops_of_readTail (n : Nat) : ∀ (least : Nat) (left e : Expr)
    (tokens rest : List Token), tokens.length ≤ n →
    plain (s.readTail least left tokens) = .ok (e, rest) → Stops least rest := by
  induction n with
  | zero =>
    intro least left e tokens rest hn h
    obtain rfl : tokens = [] := List.eq_nil_of_length_eq_zero (by omega)
    rw [plain_readTail_of_stops (by simp [Stops])] at h
    cases h
    simp [Stops]
  | succ n ih =>
    intro least left e tokens rest hn h
    by_cases hs : Stops least tokens
    · rw [plain_readTail_of_stops hs] at h
      cases h
      exact hs
    · obtain ⟨t, tokens, op, rfl, hop, hle⟩ := exists_fold_of_not_stops hs
      rw [plain_readTail_cons hop hle, bind_eq_ok_iff] at h
      obtain ⟨⟨right, middle⟩, hb, h⟩ := h
      rw [bind_eq_ok_iff] at h
      obtain ⟨type, _, h⟩ := h
      have hm : middle.length < tokens.length := bound_of_plain hb
      simp only [List.length_cons] at hn
      exact ih _ _ _ middle _ (by omega) h

/-- The operator after a chain binds looser than the chain was asked for. -/
theorem stops_of_readBinary {least : Nat} {e : Expr} {tokens rest : List Token}
    (h : plain (s.readBinary least tokens) = .ok (e, rest)) : Stops least rest := by
  rw [plain_readBinary, bind_eq_ok_iff] at h
  obtain ⟨⟨left, middle⟩, _, h⟩ := h
  exact stops_of_readTail _ _ _ _ _ _ (Nat.le_refl _) h

/-! ### Soundness -/

private theorem path_sound (n : Nat) : ∀ (start : Nat) (node e : Expr)
    (taken tokens rest : List Token), tokens.length ≤ n →
    DerivesPath s.model s.entityType taken node.unplaced →
    plain (s.readPath start node tokens) = .ok (e, rest) →
    ∃ more, tokens = more ++ rest ∧
      DerivesPath s.model s.entityType (taken ++ more) e.unplaced := by
  induction n with
  | zero =>
    intro start node e taken tokens rest hn hd h
    obtain rfl : tokens = [] := List.eq_nil_of_length_eq_zero (by omega)
    rw [plain_readPath_of_stop (by simp)] at h
    cases h
    exact ⟨[], rfl, by simpa using hd⟩
  | succ n ih =>
    intro start node e taken tokens rest hn hd h
    by_cases hs : ∀ u ∈ tokens.head?, u.isPathSeparator = false
    · rw [plain_readPath_of_stop hs] at h
      cases h
      exact ⟨[], rfl, by simpa using hd⟩
    · cases tokens with
      | nil => simp at hs
      | cons t tokens =>
        have ht : t.isPathSeparator = true := by simpa using hs
        rw [plain_readPath_cons ht, bind_eq_ok_iff] at h
        obtain ⟨⟨segment, middle⟩, hx, h⟩ := h
        obtain ⟨rfl, hk⟩ := plain_expect_eq_ok_iff.mp hx
        split at h
        · next hst =>
          rw [bind_eq_ok_iff] at h
          obtain ⟨property, hp, h⟩ := h
          obtain ⟨ref, type, hr, rfl⟩ := resolve_eq_ok_iff.mp hp
          simp only [List.length_cons] at hn
          have hsep : t.kind = .slash ∨ t.kind = .dot := by
            simpa [Token.isPathSeparator] using ht
          have hstep := DerivesPath.step hd hsep hk (by simpa using hst) (by simpa using hr)
          obtain ⟨more, rfl, hm⟩ := ih _ _ _ _ middle _ (by omega) hstep h
          exact ⟨t :: segment :: more, rfl, by simpa using hm⟩
        · cases h

/-- Chains read from fewer than `n` tokens are derived from the tokens they take. -/
private def SoundBelow (s : Scope) (n : Nat) : Prop :=
  ∀ (least : Nat) (e : Expr) (tokens rest : List Token), tokens.length < n →
    plain (s.readBinary least tokens) = .ok (e, rest) →
    ∃ taken, tokens = taken ++ rest ∧ Derives s.model s.entityType least taken e.unplaced

private theorem items_sound {n : Nat} (ih : SoundBelow s n) (k : Nat) : ∀ (es : List Expr)
    (tokens rest : List Token), tokens.length ≤ k → tokens.length < n →
    plain (s.readItems tokens) = .ok (es, rest) →
    ∃ taken closing e others, tokens = taken ++ closing :: rest ∧ closing.kind = .closeParen ∧
      Expr.unplacedAll es = e :: others ∧
      DerivesArguments s.model s.entityType taken (Expr.unplacedAll es) := by
  induction k with
  | zero =>
    intro es tokens rest hk hn h
    have hlt : rest.length < tokens.length := bound_of_plain h
    omega
  | succ k ihk =>
    intro es tokens rest hk hn h
    rw [plain_readItems, bind_eq_ok_iff] at h
    obtain ⟨⟨argument, middle⟩, hb, h⟩ := h
    obtain ⟨taken, rfl, hd⟩ := ih _ _ _ _ hn hb
    cases ha : accept? .comma middle with
    | some shorter =>
      rcases shorter with ⟨after, hlt⟩
      obtain ⟨comma, rfl, hk'⟩ := accept?_eq_some_iff.mp ha
      simp only [ha] at h
      rw [bind_eq_ok_iff] at h
      obtain ⟨⟨arguments, last⟩, hi, h⟩ := h
      cases h
      simp only [List.length_append, List.length_cons] at hk hn
      obtain ⟨more, closing, e, others, ht, hc, he, hd'⟩ := ihk _ _ _ (by omega) (by omega) hi
      subst ht
      refine ⟨taken ++ comma :: more, closing, argument.unplaced, e :: others, by simp, hc, ?_, ?_⟩
      · rw [Expr.unplacedAll, he]
      · rw [Expr.unplacedAll, he]
        exact .more hd hk' (he ▸ hd')
    | none =>
      simp only [ha] at h
      rw [bind_eq_ok_iff] at h
      obtain ⟨⟨closing, last⟩, hx, h⟩ := h
      obtain ⟨rfl, hc⟩ := plain_expect_eq_ok_iff.mp hx
      cases h
      exact ⟨taken, closing, argument.unplaced, [], rfl, hc, rfl, .one hd⟩

private theorem arguments_sound {n : Nat} (ih : SoundBelow s n) {es : List Expr}
    {tokens rest : List Token} (hn : tokens.length < n)
    (h : plain (s.readArguments tokens) = .ok (es, rest)) :
    ∃ taken closing, tokens = taken ++ closing :: rest ∧ closing.kind = .closeParen ∧
      DerivesArguments s.model s.entityType taken (Expr.unplacedAll es) := by
  by_cases hc : ∀ u ∈ tokens.head?, u.kind ≠ .closeParen
  · rw [plain_readArguments_of_items hc] at h
    obtain ⟨taken, closing, _, _, ht, hk, _, hd⟩ := items_sound ih _ _ _ _ (Nat.le_refl _) hn h
    exact ⟨taken, closing, ht, hk, hd⟩
  · cases tokens with
    | nil => simp at hc
    | cons t tokens =>
      have ht : t.kind = .closeParen := by simpa using hc
      rw [plain_readArguments_nil ht] at h
      cases h
      exact ⟨[], t, rfl, ht, .none⟩

private theorem primary_sound {n : Nat} (ih : SoundBelow s n) {e : Expr} {t : Token}
    {tokens rest : List Token} (hn : tokens.length < n) (hu : t.unaryOperator? = none)
    (h : plain (s.readPrimary t tokens) = .ok (e, rest)) :
    ∃ taken, t :: tokens = taken ++ rest ∧
      DerivesPrimary s.model s.entityType taken e.unplaced := by
  cases hc : t.content with
  | openParen =>
    rw [plain_readPrimary_openParen hc, bind_eq_ok_iff] at h
    obtain ⟨⟨inner, middle⟩, hb, h⟩ := h
    rw [bind_eq_ok_iff] at h
    obtain ⟨⟨closing, last⟩, hx, h⟩ := h
    obtain ⟨rfl, hk⟩ := plain_expect_eq_ok_iff.mp hx
    obtain ⟨taken, rfl, hd⟩ := ih _ _ _ _ hn hb
    cases h
    refine ⟨t :: (taken ++ [closing]), by simp, ?_⟩
    rw [Expr.unplaced_moveTo]
    exact .paren (by simp [Token.kind, hc, TokenContent.kind]) hd hk
  | literal value =>
    rw [plain_readPrimary_literal hc] at h
    cases h
    exact ⟨[t], rfl, .literal hc⟩
  | identifier =>
    have hk : t.kind = .identifier := by simp [Token.kind, hc, TokenContent.kind]
    by_cases hp : ∀ u ∈ tokens.head?, u.kind ≠ .openParen
    · rw [plain_readPrimary_path hc hp, bind_eq_ok_iff] at h
      obtain ⟨node, hr, h⟩ := h
      obtain ⟨ref, type, hnames, rfl⟩ := resolve_eq_ok_iff.mp hr
      have hnot : t.text ≠ "not" := fun ht =>
        (Token.unaryOperator?_eq_none_iff.mp hu).1 ⟨hk, ht⟩
      have hfirst := DerivesPath.first hk hnot hnames
      obtain ⟨more, rfl, hd⟩ := path_sound _ _ _ _ _ _ _ (Nat.le_refl _) hfirst h
      exact ⟨t :: more, rfl, .path hd⟩
    · cases tokens with
      | nil => simp at hp
      | cons u tokens =>
        have huk : u.kind = .openParen := by simpa using hp
        rw [plain_readPrimary_call hc huk] at h
        split at h
        · cases h
        · next method hm =>
          rw [bind_eq_ok_iff] at h
          obtain ⟨⟨arguments, last⟩, ha, h⟩ := h
          rw [bind_eq_ok_iff] at h
          obtain ⟨type, hcheck, h⟩ := h
          rw [Operator.check_eq_ok_iff] at hcheck
          simp only [List.length_cons] at hn
          obtain ⟨taken, closing, rfl, hck, hd⟩ := arguments_sound ih (by omega) ha
          cases h
          refine ⟨t :: u :: (taken ++ [closing]), by simp, ?_⟩
          refine .call hk (Method.ofName?_eq_some_iff.mp hm) huk hd hck ?_
          rw [Expr.map_type_unplacedAll]
          exact hcheck
  | closeParen | comma | slash | dot | minus =>
    rw [plain_readPrimary_other (by simp [Token.kind, hc, TokenContent.kind])
      (by simp [Token.kind, hc, TokenContent.kind])
      (by simp [Token.kind, hc, TokenContent.kind])] at h
    cases h

private theorem unary_sound {n : Nat} (ih : SoundBelow s n) : ∀ (tokens : List Token) (e : Expr)
    (rest : List Token), tokens.length ≤ n → plain (s.readUnary tokens) = .ok (e, rest) →
    ∃ taken, tokens = taken ++ rest ∧ DerivesUnary s.model s.entityType taken e.unplaced := by
  intro tokens
  induction tokens with
  | nil =>
    intro e rest _ h
    rw [plain_readUnary_nil] at h
    cases h
  | cons t tokens iht =>
    intro e rest hn h
    simp only [List.length_cons] at hn
    cases hu : t.unaryOperator? with
    | none =>
      rw [plain_readUnary_of_none hu] at h
      obtain ⟨taken, ht, hd⟩ := primary_sound ih (by omega) hu h
      exact ⟨taken, ht, .primary hd⟩
    | some op =>
      rw [plain_readUnary_of_some hu, bind_eq_ok_iff] at h
      obtain ⟨⟨operand, middle⟩, ho, h⟩ := h
      rw [bind_eq_ok_iff] at h
      obtain ⟨type, hcheck, h⟩ := h
      rw [Operator.check_eq_ok_iff] at hcheck
      obtain ⟨taken, rfl, hd⟩ := iht _ _ (by omega) ho
      cases h
      refine ⟨t :: taken, rfl, ?_⟩
      cases op with
      | not =>
        obtain ⟨hk, ht⟩ := Token.unaryOperator?_eq_not_iff.mp hu
        exact .not hk ht hd (by simpa using hcheck)
      | negate =>
        exact .negate (Token.unaryOperator?_eq_negate_iff.mp hu) hd (by simpa using hcheck)

-- `left` was folded from `taken`. It is an operand at the level asked for and, since whatever comes
-- next binds no tighter than what was folded last, also at the level of the next operator.
private theorem tail_sound {n : Nat} (ih : SoundBelow s n) (k : Nat) : ∀ (least : Nat)
    (left e : Expr) (taken tokens rest : List Token), tokens.length ≤ k → tokens.length ≤ n →
    Derives s.model s.entityType least taken left.unplaced →
    (∀ t ∈ tokens.head?, ∀ op, t.binaryOperator? = some op → least ≤ op.precedence →
      Derives s.model s.entityType op.precedence taken left.unplaced) →
    plain (s.readTail least left tokens) = .ok (e, rest) →
    ∃ more, tokens = more ++ rest ∧
      Derives s.model s.entityType least (taken ++ more) e.unplaced := by
  induction k with
  | zero =>
    intro least left e taken tokens rest hk _ hd _ h
    obtain rfl : tokens = [] := List.eq_nil_of_length_eq_zero (by omega)
    rw [plain_readTail_of_stops (by simp [Stops])] at h
    cases h
    exact ⟨[], rfl, by simpa using hd⟩
  | succ k ihk =>
    intro least left e taken tokens rest hk hn hd hnext h
    by_cases hs : Stops least tokens
    · rw [plain_readTail_of_stops hs] at h
      cases h
      exact ⟨[], rfl, by simpa using hd⟩
    · obtain ⟨t, tokens, op, rfl, hop, hle⟩ := exists_fold_of_not_stops hs
      have hleft := hnext t rfl op hop hle
      obtain ⟨hkind, htext⟩ := Token.binaryOperator?_eq_some_iff.mp hop
      rw [plain_readTail_cons hop hle, bind_eq_ok_iff] at h
      obtain ⟨⟨right, middle⟩, hb, h⟩ := h
      rw [bind_eq_ok_iff] at h
      obtain ⟨type, hcheck, h⟩ := h
      rw [Operator.check_eq_ok_iff] at hcheck
      simp only [List.length_cons] at hk hn
      obtain ⟨after, rfl, hright⟩ := ih _ _ _ _ (by omega) hb
      have hfold (p : Nat) (hp : p ≤ op.precedence) : Derives s.model s.entityType p
          (taken ++ t :: after) (.binary ⟨type, 0⟩ op left.unplaced right.unplaced) :=
        .binary hp hkind htext hleft hright (by simpa using hcheck)
      simp only [List.length_append] at hk hn
      -- The right operand took all that binds tighter than `op`.
      have hlooser : ∀ u ∈ middle.head?, ∀ op', u.binaryOperator? = some op' →
          op'.precedence ≤ op.precedence := by
        intro u hu op' hop'
        have hstop := stops_of_readBinary hb u hu op' hop'
        omega
      obtain ⟨more, rfl, hm⟩ := ihk least (.binary ⟨type, left.position⟩ op left right) e
        (taken ++ t :: after) middle rest (by omega) (by omega) (hfold least hle)
        (fun u hu op' hop' _ => hfold _ (hlooser u hu op' hop')) h
      exact ⟨t :: (after ++ more), by simp, by simpa using hm⟩

private theorem soundBelow (s : Scope) (n : Nat) : SoundBelow s n := by
  induction n with
  | zero =>
    intro least e tokens rest hn
    omega
  | succ n ih =>
    intro least e tokens rest hn h
    rw [plain_readBinary, bind_eq_ok_iff] at h
    obtain ⟨⟨left, middle⟩, hu, h⟩ := h
    obtain ⟨taken, rfl, hd⟩ := unary_sound ih _ _ _ (by omega) hu
    simp only [List.length_append] at hn
    obtain ⟨more, rfl, hm⟩ := tail_sound ih _ _ _ _ taken middle _ (Nat.le_refl _) (by omega)
      (.unary hd) (fun _ _ _ _ _ => .unary hd) h
    exact ⟨taken ++ more, by simp, hm⟩

/-- What is read as a chain is derived from the tokens taken, at the level asked for. -/
theorem derives_of_readBinary {least : Nat} {e : Expr} {tokens rest : List Token}
    (h : plain (s.readBinary least tokens) = .ok (e, rest)) :
    ∃ taken, tokens = taken ++ rest ∧ Derives s.model s.entityType least taken e.unplaced :=
  soundBelow s _ least e tokens rest (Nat.lt_succ_self _) h

/-! ### Completeness -/

/-- What follows cannot go on a path, nor make a name the name of a call. -/
def Closed (tokens : List Token) : Prop :=
  ∀ t ∈ tokens.head?, t.kind ≠ .openParen ∧ t.isPathSeparator = false

private theorem closed_of_kind {t : Token} {tokens : List Token}
    (h : t.kind = .identifier ∨ t.kind = .closeParen ∨ t.kind = .comma) : Closed (t :: tokens) := by
  rcases h with h | h | h <;> simp [Closed, Token.isPathSeparator, h]

theorem stops_of_kind {t : Token} {tokens : List Token} (h : t.kind ≠ .identifier)
    (least : Nat) : Stops least (t :: tokens) := by
  simp [Stops, Token.binaryOperator?, h]

private theorem content_of_identifier {t : Token} (h : t.kind = .identifier) :
    t.content = .identifier := by
  cases hc : t.content <;> simp_all [Token.kind, TokenContent.kind]

private theorem content_of_openParen {t : Token} (h : t.kind = .openParen) :
    t.content = .openParen := by
  cases hc : t.content <;> simp_all [Token.kind, TokenContent.kind]

private theorem head_ne_closeParen {least : Nat} {e : Expr} {tokens rest : List Token}
    (h : plain (s.readBinary least tokens) = .ok (e, rest)) :
    ∀ u ∈ tokens.head?, u.kind ≠ .closeParen := by
  cases tokens with
  | nil => simp
  | cons t tokens =>
    intro u hu hk
    obtain rfl : t = u := by simpa using hu
    have hn : t.unaryOperator? = none := Token.unaryOperator?_eq_none_iff.mpr (by simp [hk])
    rw [plain_readBinary, plain_readUnary_of_none hn,
      plain_readPrimary_other (by simp [hk]) (by simp [hk]) (by simp [hk])] at h
    cases h

private theorem plain_readItems_of_arguments {es : List Expr} {tokens rest : List Token}
    (h : plain (s.readArguments tokens) = .ok (es, rest)) (hne : es ≠ []) :
    plain (s.readItems tokens) = .ok (es, rest) := by
  by_cases hc : ∀ u ∈ tokens.head?, u.kind ≠ .closeParen
  · rw [← plain_readArguments_of_items hc, h]
  · cases tokens with
    | nil => simp at hc
    | cons t tokens =>
      rw [plain_readArguments_nil (by simpa using hc)] at h
      cases h
      exact absurd rfl hne

private theorem path_complete {taken : List Token} {tree : Expr}
    (h : DerivesPath s.model s.entityType taken tree) :
    ∃ first more node e, taken = first :: more ∧ first.kind = .identifier ∧ first.text ≠ "not" ∧
      (∀ u ∈ more.head?, u.isPathSeparator = true) ∧
      resolve s.model s.root first.text first.position = .ok node ∧ e.unplaced = tree ∧
      ∀ rest, plain (s.readPath first.position node (more ++ rest)) =
        plain (s.readPath first.position e rest) := by
  induction h with
  | @first t ref type hk hn hr =>
    refine ⟨t, [], .property ⟨type, t.position⟩ ref, .property ⟨type, t.position⟩ ref, rfl, hk, hn,
      by simp, resolve_eq_ok_iff.mpr ⟨ref, type, hr, rfl⟩, rfl, fun rest => rfl⟩
  | @step tokens tree separator segment ref type _ hs hk ht hr ih =>
    obtain ⟨first, more, node, e, rfl, hf, hn, hm, hres, rfl, hread⟩ := ih
    have hsep : separator.isPathSeparator = true := by simpa [Token.isPathSeparator] using hs
    have hprop : resolve s.model e.type segment.text segment.position =
        .ok (.property ⟨type, segment.position⟩ ref) :=
      resolve_eq_ok_iff.mpr ⟨ref, type, by simpa using hr, rfl⟩
    refine ⟨first, more ++ [separator, segment], node, .member ⟨type, first.position⟩ e
      (.property ⟨type, segment.position⟩ ref), rfl, hf, hn, ?_, hres, rfl, fun rest => ?_⟩
    · cases more with
      | nil => simpa using hsep
      | cons u us => simpa using hm
    · have hexpect : plain (s.expect .identifier (segment :: rest)) = .ok (segment, rest) :=
        plain_expect_eq_ok_iff.mpr ⟨rfl, hk⟩
      have hst : e.type.isStructural = true := by simpa using ht
      rw [List.append_assoc, hread]
      simp only [List.cons_append, List.nil_append]
      rw [plain_readPath_cons hsep, hexpect]
      simp only [Except.bind, hst, ↓reduceIte, hprop]
      rfl

mutual

/-- A derivation at a level is read as a chain that goes on with what follows. -/
theorem readBinary_of_derives {p : Nat} {tokens : List Token} {tree : Expr}
    (h : Derives s.model s.entityType p tokens tree) {least : Nat} (hle : least ≤ p)
    {rest : List Token} (hc : Closed rest) (hs : Stops (p + 1) rest) :
    ∃ e, e.unplaced = tree ∧
      plain (s.readBinary least (tokens ++ rest)) = plain (s.readTail least e rest) := by
  match h with
  | .unary h =>
    obtain ⟨e, rfl, hu⟩ := readUnary_of_derives h hc
    exact ⟨e, rfl, by rw [plain_readBinary, hu]; rfl⟩
  | @Derives.binary _ _ _ op t _ after _ _ type hp hk ht hl hr hcheck =>
    have hop : t.binaryOperator? = some op := Token.binaryOperator?_eq_some_iff.mpr ⟨hk, ht⟩
    have hnext : Stops (op.precedence + 1) (t :: (after ++ rest)) := by
      simp [Stops, hop]
    have hrest : Stops (op.precedence + 1) rest := fun u hu op' hop' => by
      have := hs u hu op' hop'
      omega
    have hrest' : Stops (op.precedence + 1 + 1) rest := fun u hu op' hop' => by
      have := hs u hu op' hop'
      omega
    obtain ⟨left, rfl, hleft⟩ := readBinary_of_derives hl (Nat.le_trans hle hp)
      (closed_of_kind (.inl hk)) hnext
    obtain ⟨right, rfl, hright⟩ := readBinary_of_derives hr (Nat.le_refl _) hc hrest'
    refine ⟨.binary ⟨type, left.position⟩ op left right, rfl, ?_⟩
    have hok : (Operator.binary op).check t.position [left.type, right.type] = .ok type :=
      Operator.check_eq_ok_iff.mpr (by simpa using hcheck)
    rw [List.append_assoc, List.cons_append, hleft, plain_readTail_cons hop (Nat.le_trans hle hp),
      hright, plain_readTail_of_stops hrest]
    simp only [Except.bind, hok]

theorem readUnary_of_derives {tokens : List Token} {tree : Expr}
    (h : DerivesUnary s.model s.entityType tokens tree) {rest : List Token} (hc : Closed rest) :
    ∃ e, e.unplaced = tree ∧ plain (s.readUnary (tokens ++ rest)) = .ok (e, rest) := by
  match h with
  | @DerivesUnary.not _ _ t _ _ type hk ht h hcheck =>
    obtain ⟨e, rfl, he⟩ := readUnary_of_derives h hc
    have hok : (Operator.unary .not).check t.position [e.type] = .ok type :=
      Operator.check_eq_ok_iff.mpr (by simpa using hcheck)
    refine ⟨.unary ⟨type, t.position⟩ .not e, rfl, ?_⟩
    rw [List.cons_append, plain_readUnary_of_some (Token.unaryOperator?_eq_not_iff.mpr ⟨hk, ht⟩),
      he]
    simp only [Except.bind, hok]
  | @DerivesUnary.negate _ _ t _ _ type hk h hcheck =>
    obtain ⟨e, rfl, he⟩ := readUnary_of_derives h hc
    have hok : (Operator.unary .negate).check t.position [e.type] = .ok type :=
      Operator.check_eq_ok_iff.mpr (by simpa using hcheck)
    refine ⟨.unary ⟨type, t.position⟩ .negate e, rfl, ?_⟩
    rw [List.cons_append, plain_readUnary_of_some (Token.unaryOperator?_eq_negate_iff.mpr hk), he]
    simp only [Except.bind, hok]
  | .primary h => exact readPrimary_of_derives h hc

theorem readPrimary_of_derives {tokens : List Token} {tree : Expr}
    (h : DerivesPrimary s.model s.entityType tokens tree) {rest : List Token} (hc : Closed rest) :
    ∃ e, e.unplaced = tree ∧ plain (s.readUnary (tokens ++ rest)) = .ok (e, rest) := by
  match h with
  | @DerivesPrimary.literal _ _ t value hv =>
    have hu : t.unaryOperator? = none :=
      Token.unaryOperator?_eq_none_iff.mpr (by simp [Token.kind, hv, TokenContent.kind])
    refine ⟨.literal ⟨.simple value.type, t.position⟩ value, rfl, ?_⟩
    rw [List.singleton_append, plain_readUnary_of_none hu, plain_readPrimary_literal hv]
  | @DerivesPrimary.call _ _ t opening closing method tokens _ type hk ht ho h hd hcheck =>
    have hu : t.unaryOperator? = none := by
      refine Token.unaryOperator?_eq_none_iff.mpr ⟨?_, by simp [hk]⟩
      rw [ht]
      rintro ⟨_, hn⟩
      cases method <;> simp [Method.name] at hn
    obtain ⟨es, rfl, hes⟩ := readArguments_of_derives h hd rest
    have hok : (Operator.method method).check t.position (es.map Expr.type) = .ok type :=
      Operator.check_eq_ok_iff.mpr (by simpa using hcheck)
    refine ⟨.call ⟨type, t.position⟩ method es, rfl, ?_⟩
    have hshape : t :: opening :: (tokens ++ [closing]) ++ rest =
        t :: opening :: (tokens ++ closing :: rest) := by simp
    rw [hshape, plain_readUnary_of_none hu, plain_readPrimary_call (content_of_identifier hk) ho,
      Method.ofName?_eq_some_iff.mpr ht]
    simp only [hes, Except.bind, hok]
  | .path h =>
    obtain ⟨first, more, node, e, rfl, hk, hn, hm, hres, rfl, hread⟩ := path_complete h
    have hu : first.unaryOperator? = none :=
      Token.unaryOperator?_eq_none_iff.mpr ⟨fun hnot => hn hnot.2, by simp [hk]⟩
    have hp : ∀ u ∈ (more ++ rest).head?, u.kind ≠ .openParen := by
      cases more with
      | nil => exact fun u hu => (hc u hu).1
      | cons u us =>
        have hsep : u.isPathSeparator = true := hm u rfl
        simp only [Token.isPathSeparator, Bool.or_eq_true, beq_iff_eq] at hsep
        rcases hsep with hsep | hsep <;> simp [hsep]
    refine ⟨e, rfl, ?_⟩
    rw [List.cons_append, plain_readUnary_of_none hu,
      plain_readPrimary_path (content_of_identifier hk) hp, hres]
    simp only [Except.bind, hread]
    exact plain_readPath_of_stop fun u hu => (hc u hu).2
  | @DerivesPrimary.paren _ _ opening closing tokens _ ho h hd =>
    have hu : opening.unaryOperator? = none :=
      Token.unaryOperator?_eq_none_iff.mpr (by simp [ho])
    obtain ⟨e, rfl, he⟩ := readBinary_of_derives h (Nat.le_refl _)
      (closed_of_kind (.inr (.inl hd)) : Closed (closing :: rest)) (stops_of_kind (by simp [hd]) _)
    refine ⟨e.moveTo opening.position, Expr.unplaced_moveTo _ _, ?_⟩
    have hshape : opening :: (tokens ++ [closing]) ++ rest =
        opening :: (tokens ++ closing :: rest) := by simp
    have hexpect : plain (s.expect .closeParen (closing :: rest)) = .ok (closing, rest) :=
      plain_expect_eq_ok_iff.mpr ⟨rfl, hd⟩
    rw [hshape, plain_readUnary_of_none hu, plain_readPrimary_openParen (content_of_openParen ho),
      he, plain_readTail_of_stops (stops_of_kind (by simp [hd]) _)]
    simp only [Except.bind, hexpect]

theorem readArguments_of_derives {tokens : List Token} {trees : List Expr}
    (h : DerivesArguments s.model s.entityType tokens trees) {closing : Token}
    (hd : closing.kind = .closeParen) (rest : List Token) :
    ∃ es, Expr.unplacedAll es = trees ∧
      plain (s.readArguments (tokens ++ closing :: rest)) = .ok (es, rest) := by
  match h with
  | .none => exact ⟨[], rfl, plain_readArguments_nil hd⟩
  | .one h =>
    obtain ⟨e, rfl, he⟩ := readBinary_of_derives h (Nat.le_refl _)
      (closed_of_kind (.inr (.inl hd)) : Closed (closing :: rest)) (stops_of_kind (by simp [hd]) _)
    rw [plain_readTail_of_stops (stops_of_kind (by simp [hd]) _)] at he
    refine ⟨[e], rfl, ?_⟩
    have hexpect : plain (s.expect .closeParen (closing :: rest)) = .ok (closing, rest) :=
      plain_expect_eq_ok_iff.mpr ⟨rfl, hd⟩
    have hcomma : accept? .comma (closing :: rest) = none :=
      accept?_eq_none_iff.mpr (by simp [hd])
    rw [plain_readArguments_of_items (head_ne_closeParen he), plain_readItems, he]
    simp only [Except.bind, hcomma, hexpect]
  | @DerivesArguments.more _ _ tokens after comma _ _ _ h hk hr =>
    obtain ⟨e, rfl, he⟩ := readBinary_of_derives h (Nat.le_refl _)
      (closed_of_kind (.inr (.inr hk)) : Closed (comma :: (after ++ closing :: rest)))
      (stops_of_kind (by simp [hk]) _)
    rw [plain_readTail_of_stops (stops_of_kind (by simp [hk]) _)] at he
    obtain ⟨es, hes, hread⟩ := readArguments_of_derives hr hd rest
    refine ⟨e :: es, by rw [Expr.unplacedAll, hes], ?_⟩
    have hshape : tokens ++ comma :: after ++ closing :: rest =
        tokens ++ comma :: (after ++ closing :: rest) := by simp
    rw [hshape, plain_readArguments_of_items (head_ne_closeParen he), plain_readItems, he]
    simp only [Except.bind, accept?_cons_of_kind hk]
    rw [plain_readItems_of_arguments hread (by rintro rfl; simp [Expr.unplacedAll] at hes)]

end

/-- Reading takes all tokens exactly if the grammar derives the tree from them. -/
theorem readExpression_iff_derives {tokens : List Token} {tree : Expr} :
    (∃ e, s.readExpression tokens = .ok e ∧ e.unplaced = tree) ↔
      Derives s.model s.entityType 0 tokens tree := by
  constructor
  · rintro ⟨e, h, rfl⟩
    rw [readExpression_eq_ok_iff] at h
    obtain ⟨taken, ht, hd⟩ := derives_of_readBinary h
    obtain rfl : tokens = taken := by simpa using ht
    exact hd
  · intro h
    have hs (least : Nat) : Stops least [] := by simp [Stops]
    have hc : Closed [] := by simp [Closed]
    obtain ⟨e, rfl, he⟩ := readBinary_of_derives h (Nat.le_refl 0) hc (hs 1)
    rw [List.append_nil, plain_readTail_of_stops (hs 0)] at he
    exact ⟨e, readExpression_eq_ok_iff.mpr he, rfl⟩

end Scope

/-- For every text that is cut into tokens, the parser returns a tree, positions apart, exactly if
the grammar derives it from all the tokens, and the grammar derives at most one tree from them. -/
theorem parseExpression_iff_derives (model : Model) (entityType : EntityType) (input : String)
    (tokens : List Token) (h : tokenize input = .ok tokens) :
    (∀ tree, (∃ e, parseExpression model entityType input = .ok e ∧ e.unplaced = tree) ↔
      Derives model entityType 0 tokens tree) ∧
    ∀ tree tree', Derives model entityType 0 tokens tree →
      Derives model entityType 0 tokens tree' → tree = tree' := by
  have hiff (tree : Expr) : (∃ e, parseExpression model entityType input = .ok e ∧
      e.unplaced = tree) ↔ Derives model entityType 0 tokens tree := by
    simp only [parseExpression_eq_ok_iff h]
    exact Scope.readExpression_iff_derives
  constructor
  · exact hiff
  · intro tree tree' ht ht'
    obtain ⟨e, he, rfl⟩ := (hiff tree).mpr ht
    obtain ⟨e', he', rfl⟩ := (hiff tree').mpr ht'
    rw [he] at he'
    cases he'
    rfl

/-! ### A sample -/

/-- A type of entities with a property that is named like an operator. -/
def sampleType : EntityType where
  name := "Match"
  mapping := none
  key := ["id"]
  properties :=
    [⟨"id", .simple .int32, Facets.none, none⟩, ⟨"home", .simple .int32, Facets.none, none⟩,
      ⟨"away", .simple .int32, Facets.none, some "visitors"⟩,
      ⟨"round", .simple .int16, Facets.none, none⟩,
      ⟨"eq", .simple .boolean, Facets.none, some "level"⟩,
      ⟨"final", .simple .boolean, Facets.none, none⟩]
  navigationProperties := []

/-- The model of the one type. -/
def sampleModel : Model where
  schema := "League"
  entitySets := []
  entityTypes := [sampleType]
  complexTypes := []

/-- The tokens of `eq eq not eq`. -/
def namedTokens : List Token :=
  [⟨.identifier, 0, "eq"⟩, ⟨.identifier, 3, "eq"⟩, ⟨.identifier, 6, "not"⟩, ⟨.identifier, 10, "eq"⟩]

/-- The property `eq` compared with its negation. -/
def namedTree : Expr :=
  let property : Expr := .property ⟨.simple .boolean, 0⟩ ⟨"eq", "level", Facets.none⟩
  .binary ⟨.simple .boolean, 0⟩ .eq property (.unary ⟨.simple .boolean, 0⟩ .not property)

/-- Where a property is named `eq`, the word is an operand, an operator and an operand again. -/
theorem derives_property_named_eq : tokenize "eq eq not eq" = .ok namedTokens ∧
    Derives sampleModel sampleType 0 namedTokens namedTree ∧
    (∃ e, parseExpression sampleModel sampleType "eq eq not eq" = .ok e ∧ e.unplaced = namedTree) ∧
    ∀ tree, Derives sampleModel sampleType 0 namedTokens tree → tree = namedTree := by
  have ht : tokenize "eq eq not eq" = .ok namedTokens := by
    obtain ⟨tokens, ht, htokens⟩ := @exists_ok_of_any _ _ (tokenize "eq eq not eq")
      (fun tokens => tokens == namedTokens) (by decide +kernel)
    rw [ht, eq_of_beq htokens]
  have hlevel : Scope.property? sampleModel (.entity "Match") "eq" =
      some ⟨"eq", .simple .boolean, Facets.none, some "level"⟩ := by decide
  have hname : Names sampleModel (.entity "Match") "eq" ⟨"eq", "level", Facets.none⟩
      (.simple .boolean) := .property hlevel
  have hproperty (t : Token) (hk : t.kind = .identifier) (htext : t.text = "eq") :
      DerivesUnary sampleModel sampleType [t]
        (.property ⟨.simple .boolean, 0⟩ ⟨"eq", "level", Facets.none⟩) :=
    .primary (.path (.first hk (by rw [htext]; decide) (by rw [htext]; exact hname)))
  have hd : Derives sampleModel sampleType 0 namedTokens namedTree :=
    @Derives.binary sampleModel sampleType 0 .eq _ [⟨.identifier, 0, "eq"⟩] _ _ _ _ (Nat.zero_le _)
      rfl rfl (.unary (hproperty _ rfl rfl)) (.unary (.not rfl rfl (hproperty _ rfl rfl) rfl)) rfl
  obtain ⟨hiff, hunique⟩ :=
    parseExpression_iff_derives sampleModel sampleType "eq eq not eq" namedTokens ht
  exact ⟨ht, hd, (hiff namedTree).mpr hd, fun tree h => hunique tree _ h hd⟩

end EntityQuery
