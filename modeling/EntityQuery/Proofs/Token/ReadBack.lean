import EntityQuery.Proofs.Literal.Integers
import EntityQuery.Token.Lexer

/-!
# Literals that are read back

Strings, bytes, truth values and integers are written in JPQL as they are in expressions, so cutting
their text into tokens gives the literal again. A string ends at its closing quote whatever follows,
unless another quote does.
-/

namespace EntityQuery

/-! ### Pieces and tokens -/

/-- The token moved by a number of bytes. -/
def Token.shift (size : Nat) (t : Token) : Token := { t with position := t.position + size }

theorem tokensFrom_nil (position : Nat) : tokensFrom position [] = .ok [] := by
  rw [tokensFrom]

/-- A piece that has a content is the first token, and the rest is cut on its own. -/
theorem tokensFrom_of_first {position : Nat} {c : Char} {cs : List Char} {content : TokenContent}
    {extra : Nat} {tokens : List Token} (hblank : Text.isBlank c = false)
    (hpiece : Piece.first c cs = ⟨some content, extra⟩)
    (hrest : tokensFrom (position + utf8Size (c :: cs.take extra)) (cs.drop extra) = .ok tokens) :
    tokensFrom position (c :: cs) =
      .ok (⟨content, position, String.ofList (c :: cs.take extra)⟩ :: tokens) := by
  rw [tokensFrom, if_neg (by simp [hblank])]
  simp only [hpiece, hrest]

/-- Tokens do not depend on where their text starts, their positions apart. -/
theorem tokensFrom_add {position : Nat} {cs : List Char} {tokens : List Token} (size : Nat)
    (h : tokensFrom position cs = .ok tokens) :
    tokensFrom (position + size) cs = .ok (tokens.map (Token.shift size)) := by
  fun_induction tokensFrom position cs generalizing tokens with
  | case1 =>
    cases h
    rw [tokensFrom]
    rfl
  | case2 position c cs hblank ih =>
    rw [tokensFrom, if_pos hblank, Nat.add_right_comm]
    exact ih h
  | case3 => cases h
  | case4 => cases h
  | case5 position c cs hblank piece text content hcontent later hlater =>
    rename_i ih
    have hpiece : Piece.first c cs = ⟨some content, piece.extra⟩ := by rw [← hcontent]
    have hshift := ih hlater
    rw [Nat.add_right_comm] at hshift
    cases h
    exact tokensFrom_of_first (Bool.eq_false_iff.mpr hblank) hpiece hshift

namespace Piece

/-! ### Strings -/

/-- A quoted string ends at its closing quote, unless another quote follows. -/
theorem first_quoted (content : List Char) {rest : List Char} (h : rest.head? ≠ some '\'') :
    first '\'' (Text.doubleQuotes content ++ '\'' :: rest) =
      ⟨some (.literal (.string (String.ofList content))),
        (Text.doubleQuotes content).length + 1⟩ := by
  have hfirst (cs : List Char) : first '\'' cs = quotedText cs := rfl
  rw [hfirst, quotedText, Text.unquote_doubleQuotes content h]

/-! ### Bytes -/

/-- The digits of bytes stand in quotes behind an `X`. -/
theorem first_binary (bytes : List UInt8) :
    first 'X' ('\'' :: ((Text.upperHexText bytes).toList ++ ['\''])) =
      ⟨some (.literal ⟨.binary, .binary bytes⟩), (Text.upperHexText bytes).toList.length + 2⟩ := by
  have hquote := Text.quote_notMem_upperHexText bytes
  have hunquote : Text.unquote ((Text.upperHexText bytes).toList ++ ['\'']) =
      some ((Text.upperHexText bytes).toList, (Text.upperHexText bytes).toList.length + 1) := by
    have h := @Text.unquote_doubleQuotes (Text.upperHexText bytes).toList [] (by simp)
    rwa [Text.doubleQuotes_of_no_quote hquote] at h
  have hfirst (cs : List Char) : first 'X' cs = word 'X' cs := rfl
  have htag : LiteralTag.ofWord? ['X'] = some .binary := rfl
  have htail (cs : List Char) : ('\'' :: cs).takeWhile Text.isWordPart = [] := rfl
  rw [hfirst, word, htail]
  simp [htag, hunquote, LiteralTag.literal?, Text.hexBytes?_upperHexText, Nat.add_comm 1]

/-! ### Integers -/

theorem first_of_isDigit {c : Char} (hc : c.isDigit = true) (cs : List Char) :
    first c cs = numeral c cs := by
  have hne (d : Char) (hd : d.isDigit = false) : c ≠ d := by
    rintro rfl
    rw [hc] at hd
    cases hd
  rw [first, if_neg (hne _ rfl), if_neg (hne _ rfl), if_neg (hne _ rfl), if_neg (hne _ rfl),
    if_neg (hne _ rfl), if_neg (hne _ rfl), if_neg (hne _ rfl), if_pos hc]

private theorem first_minus {cs : List Char} (h : Text.isDigits cs = true) :
    first '-' cs = numeral '-' cs := by
  obtain ⟨hne, hall⟩ := Text.isDigits_iff.mp h
  obtain ⟨d, ds, rfl⟩ := List.exists_cons_of_ne_nil hne
  exact if_pos (hall d List.mem_cons_self)

/-- The text of an integer is one piece. -/
theorem first_integer {c : Char} {cs : List Char} {n : Int} (h : Text.Denotes (c :: cs) n) :
    Text.isBlank c = false ∧
      first c cs = ⟨some (.literal (.ofInteger (c :: cs) n)), cs.length⟩ := by
  have hnumeral : numeral c cs = ⟨some (.literal (.ofInteger (c :: cs) n)), cs.length⟩ := by
    obtain ⟨m, hscan, hchars, hliteral⟩ := h.exists_scan
    simp [numeral, hscan, hliteral, hchars]
  rw [← hnumeral]
  cases h with
  | digits h =>
    have hc : c.isDigit = true := (Text.isDigits_iff.mp h).2 c List.mem_cons_self
    exact ⟨Text.isBlank_of_isDigit hc, first_of_isDigit hc cs⟩
  | minus h => exact ⟨by decide, first_minus h⟩

end Piece

/-! ### Whole literals -/

/-- The literals that JPQL and expressions write alike: strings, bytes, truth values and integers of
64 bits. -/
inductive Literal.WrittenAlike : Literal → Prop
  | string (content : String) : WrittenAlike (.string content)
  | binary (bytes : List UInt8) : WrittenAlike ⟨.binary, .binary bytes⟩
  | boolean (value : Bool) : WrittenAlike (.boolean value)
  | integer (n : Int64) : WrittenAlike (.integer n.toInt)

/-- The text of such a literal is one piece. -/
theorem Literal.WrittenAlike.exists_first {l : Literal} (h : l.WrittenAlike) :
    ∃ c cs, l.text.toList = c :: cs ∧ Text.isBlank c = false ∧
      Piece.first c cs = ⟨some (.literal l), cs.length⟩ := by
  cases h with
  | string content =>
    have hfirst := @Piece.first_quoted content.toList [] (by simp)
    rw [String.ofList_toList] at hfirst
    refine ⟨'\'', Text.doubleQuotes content.toList ++ ['\''], ?_, by decide, ?_⟩
    · exact String.toList_ofList
    · rw [hfirst, List.length_append, List.length_singleton]
  | binary bytes =>
    refine ⟨'X', '\'' :: ((Text.upperHexText bytes).toList ++ ['\'']), ?_, by decide, ?_⟩
    · simp [Literal.text, LiteralValue.text]
    · rw [Piece.first_binary, List.length_cons, List.length_append, List.length_singleton]
  | boolean value =>
    cases value with
    | true => exact ⟨'t', "rue".toList, rfl, by decide, by decide⟩
    | false => exact ⟨'f', "alse".toList, rfl, by decide, by decide⟩
  | integer n =>
    have hdenotes := Text.denotes_integerText n.toInt
    obtain ⟨c, cs, hcs⟩ := List.exists_cons_of_ne_nil hdenotes.ne_nil
    rw [hcs] at hdenotes
    obtain ⟨hblank, hfirst⟩ := Piece.first_integer hdenotes
    have hfits : Numeral.minInt64 ≤ n.toInt ∧ n.toInt ≤ Numeral.maxInt64 :=
      ⟨n.le_toInt, Int.le_of_lt_add_one n.toInt_lt⟩
    rw [Literal.ofInteger, if_pos hfits] at hfirst
    exact ⟨c, cs, hcs, hblank, hfirst⟩

/-- A string is the first token of a text that goes on with anything but a quote. -/
theorem tokenize_string_append (content : String) {rest : String} {tokens : List Token}
    (hrest : rest.toList.head? ≠ some '\'') (htokens : tokenize rest = .ok tokens) :
    tokenize ((Literal.string content).text ++ rest) =
      .ok (⟨.literal (.string content), 0, (Literal.string content).text⟩ ::
        tokens.map (Token.shift (utf8Size (Literal.string content).text.toList))) := by
  generalize hinner : Text.doubleQuotes content.toList ++ ['\''] = inner
  have htext : (Literal.string content).text = String.ofList ('\'' :: inner) := by
    rw [← hinner]
    rfl
  have hfirst : Piece.first '\'' (inner ++ rest.toList) =
      ⟨some (.literal (.string content)), inner.length⟩ := by
    have h := Piece.first_quoted content.toList hrest
    rw [String.ofList_toList] at h
    rw [← hinner, List.append_assoc, List.singleton_append, h, List.length_append,
      List.length_singleton]
  have hshift := tokensFrom_add (utf8Size ('\'' :: inner)) htokens
  have hcut := @tokensFrom_of_first 0 '\'' (inner ++ rest.toList) _ _ _ (by decide) hfirst
    (by rw [List.take_left, List.drop_left]; exact hshift)
  rw [List.take_left] at hcut
  rw [tokenize, htext, String.toList_append, String.toList_ofList]
  exact hcut

/-- The text of a literal that is written alike is cut into the literal alone, at the start and with
all of the text. A string stays the first token where another text follows that does not start with
a quote, and that text is cut as on its own. -/
theorem tokenize_writtenAlike :
    (∀ l : Literal, l.WrittenAlike → tokenize l.text = .ok [⟨.literal l, 0, l.text⟩]) ∧
    ∀ (content rest : String) (tokens : List Token), rest.toList.head? ≠ some '\'' →
      tokenize rest = .ok tokens →
      tokenize ((Literal.string content).text ++ rest) =
        .ok (⟨.literal (.string content), 0, (Literal.string content).text⟩ ::
          tokens.map (Token.shift (utf8Size (Literal.string content).text.toList))) := by
  constructor
  · intro l hl
    obtain ⟨c, cs, htext, hblank, hfirst⟩ := hl.exists_first
    have hcut := @tokensFrom_of_first 0 c cs _ _ [] hblank hfirst
      (by rw [List.drop_length, tokensFrom_nil])
    rw [List.take_length, ← htext, String.ofList_toList] at hcut
    rw [tokenize, hcut]
  · intro content rest tokens hrest htokens
    exact tokenize_string_append content hrest htokens

/-- The least integer of 64 bits, the least and the greatest byte, and a string of quotes before a
parenthesis. -/
theorem tokenize_writtenAlike_sample :
    tokenize "-9223372036854775808" =
      .ok [⟨.literal (.integer (-9223372036854775808)), 0, "-9223372036854775808"⟩] ∧
    tokenize "X'00FF'" = .ok [⟨.literal ⟨.binary, .binary [0, 255]⟩, 0, "X'00FF'"⟩] ∧
    tokenize "'''''')" =
      .ok [⟨.literal (.string "''"), 0, "''''''"⟩, ⟨.closeParen, 6, ")"⟩] := by
  refine ⟨?_, ?_, ?_⟩
  · have hleast : Int64.minValue.toInt = -9223372036854775808 := by decide
    have h := tokenize_writtenAlike.1 _ (.integer Int64.minValue)
    rw [hleast] at h
    exact h
  · exact tokenize_writtenAlike.1 _ (.binary [0, 255])
  · have hparen : tokenize ")" = .ok [⟨.closeParen, 0, ")"⟩] :=
      @tokensFrom_of_first 0 ')' [] .closeParen 0 [] (by decide) rfl (tokensFrom_nil _)
    exact tokenize_writtenAlike.2 "''" ")" _ (by decide) hparen

end EntityQuery
