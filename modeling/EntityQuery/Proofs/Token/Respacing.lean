import EntityQuery.Proofs.Token.Runs

/-!
# Other blanks between tokens

Where tokens are told apart by what stands next to them, blanks could make a difference: a sign and
a digit, a word and a quoted text, a numeral and a letter. They do not once the text is cut. Tokens
that are written with blanks between them are cut in the same way again, and texts with blanks
between them are cut one by one.
-/

namespace EntityQuery

/-- A token without its position: its kind, with the literal of a literal, and its text. -/
def Token.lexeme (t : Token) : TokenContent × String := (t.content, t.text)

theorem Token.map_lexeme_shift (size : Nat) (tokens : List Token) :
    (tokens.map (shift size)).map lexeme = tokens.map lexeme := by
  rw [List.map_map]
  rfl

theorem tokensFrom_blanks {blanks : List Char} (h : ∀ c ∈ blanks, Text.isBlank c = true)
    (position : Nat) (cs : List Char) :
    tokensFrom position (blanks ++ cs) = tokensFrom (position + utf8Size blanks) cs := by
  induction blanks generalizing position with
  | nil => rfl
  | cons c blanks ih =>
    have hc : Text.isBlank c = true := h c List.mem_cons_self
    rw [List.cons_append, tokensFrom, if_pos hc, ih (fun d hd => h d (List.mem_cons_of_mem c hd)),
      utf8Size_cons, Nat.add_assoc]

/-- Two texts with blanks between them have the tokens of both. -/
theorem tokenize_append_blanks {a blanks b : String} {as bs : List Token} (ha : tokenize a = .ok as)
    (hb : tokenize b = .ok bs) (hne : blanks ≠ "")
    (hblanks : ∀ c ∈ blanks.toList, Text.isBlank c = true) :
    tokenize (a ++ blanks ++ b) = .ok (as ++ bs.map (Token.shift (a ++ blanks).utf8ByteSize)) := by
  have hlater : tokenize (blanks ++ b) = .ok (bs.map (Token.shift blanks.utf8ByteSize)) := by
    rw [tokenize, String.toList_append, tokensFrom_blanks hblanks, utf8Size_toList]
    exact tokensFrom_add _ hb
  have hgap : ∀ c ∈ (blanks ++ b).toList.head?, Text.isGap c = true := by
    obtain ⟨c, cs, hcs⟩ := List.exists_cons_of_ne_nil fun h => hne (String.toList_eq_nil_iff.mp h)
    rw [String.toList_append, hcs]
    intro d hd
    cases hd
    exact Text.isGap_of_isBlank (hblanks c (by simp [hcs]))
  rw [String.append_assoc, tokenize_append ha hlater hgap, Token.map_shift_shift,
    String.utf8ByteSize_append, Nat.add_comm]

/-- Tokens that are cut from their own texts are cut from those texts with spaces between them. -/
theorem tokenize_joined {tokens : List Token}
    (h : ∀ t ∈ tokens, tokenize t.text = .ok [⟨t.content, 0, t.text⟩]) :
    ∃ tokens', tokenize (" ".intercalate (tokens.map Token.text)) = .ok tokens' ∧
      tokens'.map Token.lexeme = tokens.map Token.lexeme := by
  induction tokens with
  | nil => exact ⟨[], tokensFrom_nil 0, rfl⟩
  | cons t later ih =>
    have ht := h t List.mem_cons_self
    obtain ⟨later', hlater, hsame⟩ := ih fun u hu => h u (List.mem_cons_of_mem t hu)
    cases later with
    | nil => exact ⟨[⟨t.content, 0, t.text⟩], by simpa using ht, rfl⟩
    | cons u later =>
      have hspace : ∀ c ∈ " ".toList, Text.isBlank c = true := List.all_eq_true.mp (by decide)
      have hcut := tokenize_append_blanks ht hlater (by decide) hspace
      rw [List.map_cons, List.map_cons, String.intercalate_cons_cons]
      refine ⟨_, hcut, ?_⟩
      rw [List.map_append, Token.map_lexeme_shift, hsame]
      rfl

/-- Cutting does not depend on how tokens are spaced: the texts of all tokens with single spaces
between them are cut into the same kinds, texts and literals, and two texts with any blanks between
them into the tokens of the first and those of the second, moved by what stands before them. -/
theorem tokenize_respaced :
    (∀ (input : String) (tokens : List Token), tokenize input = .ok tokens →
      ∃ tokens', tokenize (" ".intercalate (tokens.map Token.text)) = .ok tokens' ∧
        tokens'.map Token.lexeme = tokens.map Token.lexeme) ∧
    ∀ (a blanks b : String) (as bs : List Token), tokenize a = .ok as → tokenize b = .ok bs →
      blanks ≠ "" →
      (∀ c ∈ blanks.toList, Text.isBlank c = true) →
      tokenize (a ++ blanks ++ b) =
        .ok (as ++ bs.map (Token.shift (a ++ blanks).utf8ByteSize)) := by
  constructor
  · intro input tokens h
    exact tokenize_joined (run_of_tokensFrom h).tokenize_text
  · intro a blanks b as bs ha hb hne hblanks
    exact tokenize_append_blanks ha hb hne hblanks

/-- The tokens of a text without blanks: a word that would announce a quoted text, a point behind a
numeral, a word that runs into a string, and two signs. -/
def crowdedTokens : List Token :=
  [⟨.identifier, 0, "datetime"⟩, ⟨.slash, 8, "/"⟩, ⟨.literal (.integer (-1)), 9, "-1"⟩,
    ⟨.dot, 11, "."⟩, ⟨.identifier, 12, "x"⟩, ⟨.literal (.string "ß'"), 13, "'ß'''"⟩,
    ⟨.minus, 19, "-"⟩,
    ⟨.literal (.integer (-2)), 20, "-2"⟩]

/-- With a blank behind it, the word announces nothing. -/
theorem tokenize_respaced_crowdedTokens :
    tokenize "datetime/-1.x'ß'''--2" = .ok crowdedTokens ∧
    (∃ tokens', tokenize "datetime / -1 . x 'ß''' - -2" = .ok tokens' ∧
      tokens'.map Token.lexeme = crowdedTokens.map Token.lexeme) ∧
    tokenize "datetime　\t'ß'" =
      .ok [⟨.identifier, 0, "datetime"⟩, ⟨.literal (.string "ß"), 12, "'ß'"⟩] := by
  obtain ⟨tokens, hcrowded, htokens⟩ := @exists_ok_of_any _ _ (tokenize "datetime/-1.x'ß'''--2")
    (fun tokens => tokens == crowdedTokens) (by decide +kernel)
  rw [beq_iff_eq.mp htokens] at hcrowded
  have hword : tokenize "datetime" = .ok [⟨.identifier, 0, "datetime"⟩] :=
    @tokensFrom_of_first 0 'd' "atetime".toList .identifier 7 [] (by decide) (by decide)
      (tokensFrom_nil _)
  have hstring : tokenize "'ß'" = .ok [⟨.literal (.string "ß"), 0, "'ß'"⟩] :=
    @tokensFrom_of_first 0 '\'' ['ß', '\''] _ 2 [] (by decide) rfl (tokensFrom_nil _)
  refine ⟨hcrowded, tokenize_respaced.1 _ _ hcrowded, ?_⟩
  exact tokenize_respaced.2 "datetime" "　\t" "'ß'" _ _ hword hstring (by decide)
    (List.all_eq_true.mp (by decide))

end EntityQuery
