import EntityQuery.Proofs.Expr.Extent
import EntityQuery.Proofs.Token.Respacing
import Mathlib.Data.List.Forall2

/-!
# Sort keys one by one

A list of sort keys is read as its keys are read alone. The words of the directions are no keywords,
so that a property may be named like one, and commas stand between arguments as well as between
keys. Neither matters: an expression takes the same tokens before a direction or a comma as before
the end, and all of its commas stand between its own parentheses.
-/

namespace EntityQuery

/-! ### Cutting at commas -/

/-- The number of parentheses that are open behind a token, given the number before it. -/
def Token.depthAfter (depth : Nat) (t : Token) : Nat :=
  match t.kind with
  | .openParen => depth + 1
  | .closeParen => depth - 1
  | _ => depth

/-- The parts between commas outside of parentheses, the first of which starts with `part` inside of
`depth` parentheses. -/
def cutFrom : (depth : Nat) → (part : List Token) → List Token → List (List Token)
  | _, part, [] => [part]
  | depth, part, t :: tokens =>
    if depth = 0 ∧ t.kind = .comma then part :: cutFrom 0 [] tokens
    else cutFrom (t.depthAfter depth) (part ++ [t]) tokens

/-- The parts between commas outside of parentheses. -/
def cutAtCommas (tokens : List Token) : List (List Token) := cutFrom 0 [] tokens

theorem cutFrom_comma {t : Token} (h : t.kind = .comma) (part tokens : List Token) :
    cutFrom 0 part (t :: tokens) = part :: cutAtCommas tokens := by
  rw [cutFrom, if_pos ⟨rfl, h⟩, cutAtCommas]

theorem cutFrom_of_kind {t : Token} (h : t.kind ≠ .comma) (depth : Nat) (part tokens : List Token) :
    cutFrom depth part (t :: tokens) = cutFrom (t.depthAfter depth) (part ++ [t]) tokens := by
  rw [cutFrom, if_neg fun hcut => h hcut.2]

/-- Where at least `least` parentheses are open, none of the tokens is cut at, and as many
parentheses are open behind them as before. -/
def Uncut (least : Nat) (tokens : List Token) : Prop :=
  ∀ depth part rest, least ≤ depth →
    cutFrom depth part (tokens ++ rest) = cutFrom depth (part ++ tokens) rest

section

variable {least : Nat} {t : Token} {tokens tokens' : List Token}

theorem uncut_nil (least : Nat) : Uncut least [] := by
  intro depth part rest _
  rw [List.nil_append, List.append_nil]

theorem Uncut.append (h : Uncut least tokens) (h' : Uncut least tokens') :
    Uncut least (tokens ++ tokens') := by
  intro depth part rest hle
  rw [List.append_assoc, h depth part _ hle, h' depth _ rest hle, List.append_assoc]

theorem Uncut.mono (h : Uncut 0 tokens) (least : Nat) : Uncut least tokens :=
  fun depth part rest _ => h depth part rest (Nat.zero_le depth)

theorem uncut_singleton (h : t.kind ∉ [.comma, .openParen, .closeParen]) : Uncut 0 [t] := by
  simp only [List.mem_cons, List.not_mem_nil, or_false, not_or] at h
  obtain ⟨hcomma, hopen, hclose⟩ := h
  intro depth part rest _
  have hdepth : t.depthAfter depth = depth := by
    unfold Token.depthAfter
    split
    · next hkind => exact absurd hkind hopen
    · next hkind => exact absurd hkind hclose
    · rfl
  rw [List.singleton_append, cutFrom_of_kind hcomma, hdepth]

theorem uncut_identifier (h : t.kind = .identifier) : Uncut 0 [t] :=
  uncut_singleton (by simp [h])

/-- Inside of parentheses, a comma is not cut at. -/
theorem uncut_comma (h : t.kind = .comma) : Uncut 1 [t] := by
  intro depth part rest hle
  have hdepth : t.depthAfter depth = depth := by simp [Token.depthAfter, h]
  rw [List.singleton_append, cutFrom, if_neg (by omega), hdepth]

theorem uncut_parens {opening closing : Token} (hopen : opening.kind = .openParen)
    (h : Uncut 1 tokens) (hclose : closing.kind = .closeParen) :
    Uncut 0 (opening :: (tokens ++ [closing])) := by
  intro depth part rest _
  have hopened : opening.depthAfter depth = depth + 1 := by simp [Token.depthAfter, hopen]
  have hclosed : closing.depthAfter (depth + 1) = depth := by simp [Token.depthAfter, hclose]
  rw [List.cons_append, cutFrom_of_kind (by simp [hopen]), hopened, List.append_assoc,
    h _ _ _ (Nat.le_add_left 1 depth), List.singleton_append, cutFrom_of_kind (by simp [hclose]),
    hclosed]
  simp

end

section

variable {model : Model} {entityType : EntityType}

theorem uncut_of_derivesPath {tokens : List Token} {e : Expr}
    (h : DerivesPath model entityType tokens e) :
    Uncut 0 tokens := by
  induction h with
  | first hk _ _ => exact uncut_identifier hk
  | @step _ _ separator segment _ _ _ hs hk _ _ ih =>
    have hseparator : Uncut 0 [separator] := by
      rcases hs with hs | hs <;> exact uncut_singleton (by simp [hs])
    exact ih.append (hseparator.append (uncut_identifier hk))

mutual

/-- The commas of an expression stand between parentheses of its own. -/
theorem uncut_of_derives {least : Nat} {tokens : List Token} {e : Expr} :
    Derives model entityType least tokens e → Uncut 0 tokens
  | .unary h => uncut_of_derivesUnary h
  | .binary _ hk _ hl hr _ =>
    (uncut_of_derives hl).append ((uncut_identifier hk).append (uncut_of_derives hr))

theorem uncut_of_derivesUnary {tokens : List Token} {e : Expr} :
    DerivesUnary model entityType tokens e → Uncut 0 tokens
  | .not hk _ h _ => (uncut_identifier hk).append (uncut_of_derivesUnary h)
  | .negate hk h _ => (uncut_singleton (by simp [hk])).append (uncut_of_derivesUnary h)
  | .primary h => uncut_of_derivesPrimary h

theorem uncut_of_derivesPrimary {tokens : List Token} {e : Expr} :
    DerivesPrimary model entityType tokens e → Uncut 0 tokens
  | .literal h => uncut_singleton (by simp [Token.kind, TokenContent.kind, h])
  | .call hk _ ho h hd _ =>
    (uncut_identifier hk).append (uncut_parens ho (uncut_of_derivesArguments h) hd)
  | .path h => uncut_of_derivesPath h
  | .paren ho h hd => uncut_parens ho ((uncut_of_derives h).mono 1) hd

theorem uncut_of_derivesArguments {tokens : List Token} {es : List Expr} :
    DerivesArguments model entityType tokens es → Uncut 1 tokens
  | .none => uncut_nil 1
  | .one h => (uncut_of_derives h).mono 1
  | .more h hk hr =>
    ((uncut_of_derives h).mono 1).append ((uncut_comma hk).append (uncut_of_derivesArguments hr))

end

end

/-! ### The tokens of a key -/

/-- The tokens of a direction, which is ascending where it is left out. -/
inductive IsDirection : List Token → SortOrder → Prop
  | none : IsDirection [] .ascending
  | ascending {t : Token} (h : t.isWord "asc" = true) : IsDirection [t] .ascending
  | descending {t : Token} (h : t.isWord "desc" = true) : IsDirection [t] .descending

theorem Token.kind_of_isWord {t : Token} {word : String} (h : t.isWord word = true) :
    t.kind = .identifier := by
  rw [isWord, Bool.and_eq_true, beq_iff_eq, beq_iff_eq] at h
  exact h.1

theorem Token.text_of_isWord {t : Token} {word : String} (h : t.isWord word = true) :
    t.text = word := by
  rw [isWord, Bool.and_eq_true, beq_iff_eq, beq_iff_eq] at h
  exact h.2

theorem IsDirection.uncut {word : List Token} {order : SortOrder} (h : IsDirection word order) :
    Uncut 0 word := by
  cases h with
  | none => exact uncut_nil 0
  | ascending h => exact uncut_identifier (Token.kind_of_isWord h)
  | descending h => exact uncut_identifier (Token.kind_of_isWord h)

theorem IsDirection.shift {word : List Token} {order : SortOrder} (h : IsDirection word order)
    (size : Nat) :
    IsDirection (word.map (Token.shift size)) order := by
  cases h with
  | none => exact .none
  | ascending h => exact .ascending h
  | descending h => exact .descending h

namespace Scope

variable {s : Scope}

/-- The tokens are those of a whole expression, with those of the direction behind them. -/
def ReadsKey (s : Scope) (tokens : List Token) (item : OrderItem) : Prop :=
  ∃ own word, tokens = own ++ word ∧ s.readExpression own = .ok item.expression ∧
    IsDirection word item.order

theorem ReadsKey.uncut {tokens : List Token} {item : OrderItem} (h : s.ReadsKey tokens item) :
    Uncut 0 tokens := by
  obtain ⟨own, word, rfl, hown, hword⟩ := h
  obtain ⟨taken, htaken, hderives⟩ := derives_of_readBinary (readExpression_eq_ok_iff.mp hown)
  rw [htaken, List.append_nil]
  exact (uncut_of_derives hderives).append hword.uncut

/-- A key is read from its tokens wherever they are moved to. -/
theorem ReadsKey.shift {tokens : List Token} {item : OrderItem} (h : s.ReadsKey tokens item)
    (offset size : Nat) :
    (s.resized size).ReadsKey (tokens.map (Token.shift offset))
      ⟨item.expression.relocate (· + offset), item.order⟩ := by
  obtain ⟨own, word, rfl, hown, hword⟩ := h
  exact ⟨own.map (Token.shift offset), word.map (Token.shift offset), List.map_append,
    readExpression_relocate hown (· + offset) size, hword.shift offset⟩

/-- What is read as a direction is one, and stands first. -/
theorem isDirection_readOrder (tokens : List Token) :
    ∃ word, tokens = word ++ (readOrder tokens).2.val ∧ IsDirection word (readOrder tokens).1 := by
  cases tokens with
  | nil => exact ⟨[], rfl, .none⟩
  | cons t rest =>
    by_cases hdesc : t.isWord "desc" = true
    · exact ⟨[t], by simp [readOrder_cons, hdesc],
        by simpa [readOrder_cons, hdesc] using .descending hdesc⟩
    by_cases hasc : t.isWord "asc" = true
    · exact ⟨[t], by simp [readOrder_cons, hdesc, hasc],
        by simpa [readOrder_cons, hdesc, hasc] using .ascending hasc⟩
    · exact ⟨[], by simp [readOrder_cons, hdesc, hasc],
        by simpa [readOrder_cons, hdesc, hasc] using .none⟩

section

variable {word next : List Token} {order : SortOrder} (hword : IsDirection word order)
  (hnext : ∀ t ∈ next.head?, t.kind = .comma)

include hword hnext

theorem readOrder_append :
    (readOrder (word ++ next)).1 = order ∧ (readOrder (word ++ next)).2.val = next := by
  cases hword with
  | @ascending t h =>
    have hdesc : t.isWord "desc" = false := by
      rw [Token.isWord, Token.text_of_isWord h]
      simp
    simp [readOrder_cons, h, hdesc]
  | descending h => simp [readOrder_cons, h]
  | none =>
    cases next with
    | nil => exact ⟨rfl, rfl⟩
    | cons t next =>
      have hkind : t.kind = .comma := hnext t rfl
      simp [readOrder_cons, Token.isWord, hkind]

/-- Neither a direction nor a comma goes on an expression. -/
theorem fits_direction : Fits (word ++ next) [] := by
  intro t ht hgoes
  have hkind : t.kind = .identifier ∨ t.kind = .comma := by
    cases hword with
    | none => exact .inr (hnext t ht)
    | ascending h => cases ht; exact .inl (Token.kind_of_isWord h)
    | descending h => cases ht; exact .inl (Token.kind_of_isWord h)
  rcases hkind with hkind | hkind <;> simp [Token.isPathSeparator, hkind] at hgoes

theorem stops_direction : Stops 0 (word ++ next) := by
  have hasc : BinaryOperator.ofKeyword? "asc" = none := by decide
  have hdesc : BinaryOperator.ofKeyword? "desc" = none := by decide
  intro t ht op hop
  cases hword with
  | none => simp [Token.binaryOperator?, hnext t ht] at hop
  | ascending h =>
    cases ht
    simp [Token.binaryOperator?, Token.kind_of_isWord h, Token.text_of_isWord h, hasc] at hop
  | descending h =>
    cases ht
    simp [Token.binaryOperator?, Token.kind_of_isWord h, Token.text_of_isWord h, hdesc] at hop

end

/-- A key that is read alone is the first one where a comma or nothing follows. -/
theorem readOrderBy_append {tokens next : List Token} {item : OrderItem}
    (h : s.ReadsKey tokens item) (hnext : ∀ t ∈ next.head?, t.kind = .comma) :
    s.readOrderBy (tokens ++ next) = s.readMore item next := by
  obtain ⟨own, word, rfl, hown, hword⟩ := h
  obtain ⟨taken, htaken, _, hread⟩ := readBinary_elsewhere (readExpression_eq_ok_iff.mp hown)
  have hagain := hread id s.inputSize 0 (word ++ next) (Nat.le_refl 0) (fits_direction hword hnext)
    (stops_direction hword hnext)
  rw [map_relocate_id, Expr.relocate_id, ← List.append_nil taken, ← htaken] at hagain
  obtain ⟨horder, hrest⟩ := readOrder_append hword hnext
  have hplain : plain (s.readBinary 0 (own ++ (word ++ next))) =
      .ok (item.expression, word ++ next) := hagain
  rw [List.append_assoc, readOrderBy_eq, hplain, Except.bind]
  simp only [horder, hrest]

/-- The first key takes tokens that are read as this key alone. -/
theorem exists_key_of_readOrderBy {tokens : List Token} {items : List OrderItem}
    (h : s.readOrderBy tokens = .ok items) :
    ∃ key last item, tokens = key ++ last ∧ last.length < tokens.length ∧ s.ReadsKey key item ∧
      s.readMore item last = .ok items := by
  rw [readOrderBy_eq, bind_eq_ok_iff] at h
  obtain ⟨⟨e, rest⟩, hbinary, hmore⟩ := h
  have hlt : rest.length < tokens.length := bound_of_plain hbinary
  obtain ⟨own, rfl, _⟩ := readBinary_elsewhere hbinary
  obtain ⟨word, hrest, hword⟩ := isDirection_readOrder rest
  have hle := (readOrder rest).2.property
  have hown : plain (s.readBinary 0 (own ++ [])) = .ok (e, []) :=
    readBinary_breaksOff hbinary (Nat.le_refl 0) (.inl rfl) fun _ ht => by cases ht
  rw [List.append_nil] at hown
  refine ⟨own ++ word, _, ⟨e, _⟩, ?_, Nat.lt_of_le_of_lt hle hlt,
    ⟨own, word, rfl, readExpression_eq_ok_iff.mpr hown, hword⟩, hmore⟩
  rw [List.append_assoc, ← hrest]

/-- Keys are read from the parts between the commas outside of parentheses, one from each. -/
theorem forall₂_of_readOrderBy {tokens : List Token} {items : List OrderItem}
    (h : s.readOrderBy tokens = .ok items) :
    List.Forall₂ s.ReadsKey (cutAtCommas tokens) items := by
  obtain ⟨key, last, item, htokens, hlt, hkey, hmore⟩ := exists_key_of_readOrderBy h
  have hcut : cutAtCommas tokens = cutFrom 0 key last := by
    rw [cutAtCommas, htokens, hkey.uncut 0 [] last (Nat.zero_le 0), List.nil_append]
  by_cases hlast : ∀ t ∈ last.head?, t.kind ≠ .comma
  · rw [readMore_of_end hlast, map_eq_ok_iff] at hmore
    obtain ⟨_, hfinish, rfl⟩ := hmore
    obtain rfl : last = [] := by
      cases last with
      | nil => rfl
      | cons t rest => cases hfinish
    rw [hcut]
    exact .cons hkey .nil
  · cases last with
    | nil => simp at hlast
    | cons t later =>
      have hcomma : t.kind = .comma := by simpa using hlast
      rw [readMore_of_comma hcomma, map_eq_ok_iff] at hmore
      obtain ⟨others, hothers, rfl⟩ := hmore
      have hlater : later.length < tokens.length := Nat.lt_of_succ_lt hlt
      rw [hcut, cutFrom_comma hcomma]
      exact .cons hkey (forall₂_of_readOrderBy hothers)
termination_by tokens.length

end Scope

/-! ### Written keys -/

/-- A sort key as it is written: the text of an expression, and a direction that may be left out. -/
structure SortKey where
  text : String
  direction : Option SortOrder

namespace SortKey

/-- How a direction is written behind an expression. -/
def suffixOf : Option SortOrder → String
  | none => ""
  | some .ascending => " asc"
  | some .descending => " desc"

def written (key : SortKey) : String := key.text ++ suffixOf key.direction

def order (key : SortKey) : SortOrder := key.direction.getD .ascending

/-- Keys with commas between them. -/
def listText (keys : List SortKey) : String := ", ".intercalate (keys.map written)

/-- The items of keys that are given with their trees, where the first key is written at an offset:
each tree is moved to where its text starts. -/
def placed : (offset : Nat) → List (SortKey × Expr) → List OrderItem
  | _, [] => []
  | offset, (key, tree) :: keys =>
    ⟨tree.relocate (· + offset), key.order⟩ :: placed (offset + (key.written ++ ", ").utf8ByteSize)
      keys

theorem exists_tokens_suffixOf (direction : Option SortOrder) :
    ∃ word, tokenize (suffixOf direction) = .ok word ∧
      IsDirection word (direction.getD .ascending) := by
  rcases direction with _ | _ | _
  · exact ⟨[], tokensFrom_nil 0, .none⟩
  · obtain ⟨word, hword, htest⟩ := @exists_ok_of_any _ _ (tokenize " asc")
      (fun word => word == [⟨.identifier, 1, "asc"⟩]) (by decide +kernel)
    obtain rfl := beq_iff_eq.mp htest
    exact ⟨_, hword, .ascending rfl⟩
  · obtain ⟨word, hword, htest⟩ := @exists_ok_of_any _ _ (tokenize " desc")
      (fun word => word == [⟨.identifier, 1, "desc"⟩]) (by decide +kernel)
    obtain rfl := beq_iff_eq.mp htest
    exact ⟨_, hword, .descending rfl⟩

/-- A direction is a token of its own behind the tokens of the expression. -/
theorem exists_tokens_written {key : SortKey} {own : List Token} (h : tokenize key.text = .ok own) :
    ∃ word, tokenize key.written = .ok (own ++ word) ∧ IsDirection word key.order := by
  obtain ⟨word, hword, hdirection⟩ := exists_tokens_suffixOf key.direction
  have hspace : Text.isGap ' ' = true := by decide
  have hgap : ∀ c ∈ (suffixOf key.direction).toList.head?, Text.isGap c = true := by
    rcases key.direction with _ | _ | _ <;> simp [suffixOf, hspace]
  exact ⟨_, tokenize_append h hword hgap, hdirection.shift _⟩

section

variable {model : Model} {entityType : EntityType}

/-- A key with an expression that is read alone has tokens that are read as this key in any other
place. -/
theorem exists_readsKey {key : SortKey} {tree : Expr}
    (h : parseExpression model entityType key.text = .ok tree) :
    ∃ tokens, tokenize key.written = .ok tokens ∧ ∀ offset size,
      (Scope.mk model entityType size).ReadsKey (tokens.map (Token.shift offset))
        ⟨tree.relocate (· + offset), key.order⟩ := by
  cases hown : tokenize key.text with
  | error e => simp [parseExpression, readText_eq, hown] at h
  | ok own =>
    rw [parseExpression_eq_ok_iff hown] at h
    obtain ⟨word, hwritten, hword⟩ := exists_tokens_written hown
    have hkey : Scope.ReadsKey _ (own ++ word) ⟨tree, key.order⟩ := ⟨own, word, rfl, h, hword⟩
    exact ⟨own ++ word, hwritten, fun offset size => hkey.shift offset size⟩

theorem tokenize_comma_append {text : String} {tokens : List Token}
    (h : tokenize text = .ok tokens) :
    tokenize (", " ++ text) = .ok (⟨.comma, 0, ","⟩ :: tokens.map (Token.shift 2)) := by
  have hcomma : tokenize "," = .ok [⟨.comma, 0, ","⟩] :=
    @tokensFrom_of_first 0 ',' [] .comma 0 [] (by decide) (by decide) (tokensFrom_nil _)
  have hspace : ∀ c ∈ " ".toList, Text.isBlank c = true := List.all_eq_true.mp (by decide)
  have hcut := tokenize_append_blanks hcomma h (by decide) hspace
  rwa [show "," ++ " " = ", " by decide, show ", ".utf8ByteSize = 2 by decide] at hcut

/-- The tokens of a list of keys are read as the keys in their places. The induction is on the keys;
the offset grows with the text of each. -/
theorem exists_tokens_listText {keys : List (SortKey × Expr)} (hne : keys ≠ [])
    (h : ∀ key ∈ keys, parseExpression model entityType key.1.text = .ok key.2) :
    ∃ tokens, tokenize (listText (keys.map Prod.fst)) = .ok tokens ∧ ∀ offset size,
      (Scope.mk model entityType size).readOrderBy (tokens.map (Token.shift offset)) =
        .ok (placed offset keys) := by
  induction keys with
  | nil => exact absurd rfl hne
  | cons first keys ih =>
    rcases first with ⟨key, tree⟩
    obtain ⟨own, hown, hkey⟩ := exists_readsKey (h (key, tree) List.mem_cons_self)
    cases keys with
    | nil =>
      refine ⟨own, by simpa [listText] using hown, fun offset size => ?_⟩
      rw [← List.append_nil (own.map _), Scope.readOrderBy_append (hkey offset size) (by simp)]
      rfl
    | cons second keys =>
      obtain ⟨later, hlater, hread⟩ :=
        ih (by simp) fun key hmem => h key (List.mem_cons_of_mem _ hmem)
      have htext : listText (((key, tree) :: second :: keys).map Prod.fst) =
          key.written ++ (", " ++ listText ((second :: keys).map Prod.fst)) := by
        simp only [listText, List.map_cons, String.intercalate_cons_cons, String.append_assoc]
      refine ⟨_, htext ▸ tokenize_append hown (tokenize_comma_append hlater) (by simp [Text.isGap]),
        fun offset size => ?_⟩
      have hplace : 2 + key.written.utf8ByteSize + offset =
          offset + (key.written ++ ", ").utf8ByteSize := by
        rw [String.utf8ByteSize_append, show ", ".utf8ByteSize = 2 from rfl]
        omega
      rw [List.map_append, Token.map_shift_shift, List.map_cons, Token.map_shift_shift,
        ← Nat.add_assoc, hplace, Scope.readOrderBy_append (hkey offset size)
          (by simp [Token.shift, Token.kind, TokenContent.kind]),
        Scope.readMore_of_comma rfl, hread]
      rfl

end

end SortKey

theorem parseOrderBy_eq_ok_iff {model : Model} {entityType : EntityType} {input : String}
    {tokens : List Token} (h : tokenize input = .ok tokens) {items : List OrderItem} :
    parseOrderBy model entityType input = .ok items ↔
      (Scope.mk model entityType (utf8Size input.toList)).readOrderBy tokens = .ok items := by
  rw [parseOrderBy, readText_eq]
  simp only [h]
  exact mapError_eq_ok_iff

/-- Sort keys are read one by one: keys whose expressions are read alone are read from a list of
them, each as the tree that its expression has alone, moved to its place, in the direction that is
written; and where a text is read as sort keys, the parts of it between commas outside of
parentheses are, one by one, the tokens of the keys. -/
theorem parseOrderBy_keywise (model : Model) (entityType : EntityType) :
    (∀ keys : List (SortKey × Expr), keys ≠ [] →
      (∀ key ∈ keys, parseExpression model entityType key.1.text = .ok key.2) →
      parseOrderBy model entityType (SortKey.listText (keys.map Prod.fst)) =
        .ok (SortKey.placed 0 keys)) ∧
    ∀ (input : String) (items : List OrderItem), parseOrderBy model entityType input = .ok items →
      ∃ tokens, tokenize input = .ok tokens ∧
        List.Forall₂ (Scope.ReadsKey ⟨model, entityType, utf8Size input.toList⟩)
        (cutAtCommas tokens) items := by
  constructor
  · intro keys hne hkeys
    obtain ⟨tokens, htokens, hread⟩ := SortKey.exists_tokens_listText hne hkeys
    have hread0 := hread 0 (utf8Size (SortKey.listText (keys.map Prod.fst)).toList)
    rw [show Token.shift 0 = id from rfl, List.map_id] at hread0
    exact (parseOrderBy_eq_ok_iff htokens).mpr hread0
  · intro input items h
    cases htokens : tokenize input with
    | error e => simp [parseOrderBy, readText_eq, htokens] at h
    | ok tokens =>
      exact ⟨tokens, rfl, Scope.forall₂_of_readOrderBy ((parseOrderBy_eq_ok_iff htokens).mp h)⟩

/-- A type with properties that are named like directions. -/
def directedType : EntityType where
  name := "Directed"
  mapping := none
  key := ["asc"]
  properties :=
    [⟨"asc", .simple .int32, Facets.none, none⟩, ⟨"desc", .simple .string, Facets.none, none⟩]
  navigationProperties := []

/-- The model of this type. -/
def directedModel : Model where
  schema := "Sorting"
  entitySets := []
  entityTypes := [directedType]
  complexTypes := []

/-- The first word of a key is the property, the second one the direction, and only two of the
commas are cut at. -/
theorem parseOrderBy_keywise_directedType : ∃ first second third : Expr,
    parseExpression directedModel directedType "asc" = .ok first ∧
    parseExpression directedModel directedType "substring('a,b', asc)" = .ok second ∧
    parseExpression directedModel directedType "desc" = .ok third ∧
    parseOrderBy directedModel directedType "asc asc, substring('a,b', asc), desc desc" =
      .ok [⟨first.relocate (· + 0), .ascending⟩, ⟨second.relocate (· + 9), .ascending⟩,
        ⟨third.relocate (· + 32), .descending⟩] ∧
    ∃ tokens, tokenize "asc asc, substring('a,b', asc), desc desc" = .ok tokens ∧
      (cutAtCommas tokens).map List.length = [2, 6, 2] ∧
      List.Forall₂ (Scope.ReadsKey ⟨directedModel, directedType, 41⟩) (cutAtCommas tokens)
        [⟨first.relocate (· + 0), .ascending⟩, ⟨second.relocate (· + 9), .ascending⟩,
          ⟨third.relocate (· + 32), .descending⟩] := by
  obtain ⟨first, hfirst, _⟩ :=
    @exists_ok_of_any _ _ (parseExpression directedModel directedType "asc")
    (fun _ => true) (by decide +kernel)
  obtain ⟨second, hsecond, _⟩ := @exists_ok_of_any _ _
    (parseExpression directedModel directedType "substring('a,b', asc)") (fun _ => true)
      (by decide +kernel)
  obtain ⟨third, hthird, _⟩ :=
    @exists_ok_of_any _ _ (parseExpression directedModel directedType "desc")
    (fun _ => true) (by decide +kernel)
  have hread := (parseOrderBy_keywise directedModel directedType).1
    [(⟨"asc", some .ascending⟩, first), (⟨"substring('a,b', asc)", none⟩, second),
      (⟨"desc", some .descending⟩, third)] (List.cons_ne_nil _ _)
        (by simp [hfirst, hsecond, hthird])
  have htext : SortKey.listText [⟨"asc", some .ascending⟩, ⟨"substring('a,b', asc)", none⟩,
      ⟨"desc", some .descending⟩] = "asc asc, substring('a,b', asc), desc desc" := by decide +kernel
  have hsecondPlace : ((SortKey.mk "asc" (some .ascending)).written ++ ", ").utf8ByteSize = 9 := by
    decide +kernel
  have hthirdPlace : ((SortKey.mk "substring('a,b', asc)" none).written ++ ", ").utf8ByteSize =
      23 := by
    decide +kernel
  simp only [List.map_cons, List.map_nil, htext, SortKey.placed, hsecondPlace, hthirdPlace] at hread
  obtain ⟨tokens, htokens, hkeys⟩ := (parseOrderBy_keywise directedModel directedType).2 _ _ hread
  have hsize : utf8Size "asc asc, substring('a,b', asc), desc desc".toList = 41 := by decide +kernel
  rw [hsize] at hkeys
  obtain ⟨tokens', htokens', hlengths⟩ := @exists_ok_of_any _ _
    (tokenize "asc asc, substring('a,b', asc), desc desc")
    (fun tokens => (cutAtCommas tokens).map List.length == [2, 6, 2]) (by decide +kernel)
  obtain rfl : tokens = tokens' := Except.ok.inj (htokens.symm.trans htokens')
  exact ⟨first, second, third, hfirst, hsecond, hthird, hread, tokens, htokens,
    beq_iff_eq.mp hlengths, hkeys⟩

end EntityQuery
