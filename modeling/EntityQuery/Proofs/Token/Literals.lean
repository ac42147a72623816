import EntityQuery.Proofs.Text.Mask
import EntityQuery.Token.Lexer

/-!
# Literals of tokens

Every literal that is cut from a text is well formed: the text that a decimal keeps is a numeral.
-/

namespace EntityQuery

/-- A numeral with or without a minus sign. -/
def Text.isSignedNumeral : List Char → Bool
  | '-' :: cs => isNumeral cs
  | cs => isNumeral cs

/-- The text that a decimal keeps is a numeral; other values are well formed by their types. -/
def LiteralValue.isWellFormed : LiteralValue → Bool
  | .decimal text => Text.isSignedNumeral text.toList
  | _ => true

/-- A numeral counts as signed without a sign, too. -/
theorem Text.isSignedNumeral_of_isNumeral {cs : List Char} (h : isNumeral cs = true) :
    isSignedNumeral cs = true := by
  unfold isSignedNumeral
  split
  · next ds => exact absurd h (by simp [isNumeral])
  · exact h

theorem Text.isSignedNumeral_integerText (n : Int) :
    isSignedNumeral (integerText n).toList = true := by
  cases n with
  | ofNat n => exact isSignedNumeral_of_isNumeral (isNumeral_repr n)
  | negSucc n =>
    have htext : (integerText (.negSucc n)).toList = '-' :: (n + 1).repr.toList := by
      simp [integerText]
    rw [htext]
    exact isNumeral_repr (n + 1)

theorem Binary64.isSignedNumeral_text (x : Binary64) :
    Text.isSignedNumeral x.text.toList = true := by
  obtain ⟨numeral, hn, hx | hx⟩ := x.text_eq
  · rw [hx]
    exact Text.isSignedNumeral_of_isNumeral hn
  · have htext : ("-" ++ numeral).toList = '-' :: numeral.toList := by simp
    rw [hx, htext]
    exact hn

/-- What stands before and behind the values that are written in quotes. -/
def LiteralValue.marks : List (String × String) :=
  [("", ""), ("X", ""), ("\x7bts ", "\x7d"), ("\x7bt ", "\x7d")]

/-- How values are written: as a word, as a numeral, or in quotes between marks. -/
inductive LiteralValue.IsWritten : String → Prop
  | word {text : String} (h : text ∈ ["NULL", "true", "false"]) : IsWritten text
  | numeral {text : String} (h : Text.isSignedNumeral text.toList = true) : IsWritten text
  | quoted {mark ending : String} (content : String) (h : (mark, ending) ∈ marks) :
    IsWritten (mark ++ Text.quoted content ++ ending)

theorem LiteralValue.isWritten_text {v : LiteralValue} (h : v.isWellFormed = true) :
    IsWritten v.text := by
  have hquoted {mark content ending : String} (hm : (mark, ending) ∈ marks)
      (hc : ∀ c ∈ content.toList, c ≠ '\'') :
      IsWritten (mark ++ "'" ++ content ++ ("'" ++ ending)) := by
    have hwritten := IsWritten.quoted content hm
    rw [Text.quoted_of_isQuoteFree (Text.isQuoteFree_iff.mpr hc)] at hwritten
    simpa only [String.append_assoc] using hwritten
  have hclock {text : String} (h : ∀ c ∈ text.toList, isClockChar c = true) :
      ∀ c ∈ text.toList, c ≠ '\'' := by
    rintro c hc rfl
    exact absurd (h _ hc) (by decide)
  cases v with
  | null => exact .word (by decide)
  | boolean b => cases b <;> exact .word (by decide)
  | integer n => exact .numeral (Text.isSignedNumeral_integerText n)
  | decimal text => exact .numeral h
  | float x => exact .numeral x.isSignedNumeral_text
  | string content => simpa [text] using @IsWritten.quoted "" "" content (by decide)
  | binary bytes => exact @hquoted "X" _ "" (by decide) (Text.quote_notMem_upperHexText bytes)
  | dateTime t =>
    exact @hquoted "\x7bts " _ "\x7d" (by decide)
      (hclock fun _ => DateTime.isClockChar_of_mem_milliText)
  | dateTimeOffset t =>
    exact @hquoted "\x7bts " _ "\x7d" (by decide)
      (hclock fun _ => DateTime.isClockChar_of_mem_milliText)
  | time t =>
    exact @hquoted "\x7bt " _ "\x7d" (by decide) (hclock fun _ => TimeOfDay.isClockChar_of_mem_text)
  | guid g => exact @hquoted "" _ "" (by decide) g.quote_notMem_text

namespace Numeral

private theorem takeSign_eq (cs : List Char) : (takeSign cs).1 = [] ∨ (takeSign cs).1 = ['-'] := by
  unfold takeSign
  split
  · exact .inr rfl
  · exact .inl rfl

private theorem isDigit_of_mem_takeWhile {cs : List Char} {c : Char}
    (h : c ∈ cs.takeWhile Char.isDigit) : c.isDigit = true :=
  List.all_eq_true.mp (List.all_takeWhile (l := cs)) c h

private theorem isDigit_of_mem_takeFraction {cs : List Char} {c : Char}
    (h : c ∈ (takeFraction cs).1) : c.isDigit = true := by
  unfold takeFraction at h
  split at h
  · simp only at h
    split at h
    · cases h
    · exact isDigit_of_mem_takeWhile h
  · cases h

private theorem takeExponent_mark {cs : List Char} (h : (takeExponent cs).1.2 = []) :
    (takeExponent cs).1.1 = [] := by
  revert h
  unfold takeExponent
  extract_lets mark rest ds
  by_cases hempty : (mark.isEmpty || ds.isEmpty) = true
  · rw [if_pos hempty]
    exact fun _ => rfl
  · rw [if_neg hempty]
    rw [Bool.or_eq_true, not_or, List.isEmpty_iff, List.isEmpty_iff] at hempty
    exact fun h => absurd h hempty.2

/-- A numeral without exponent is written as a sign, digits, and a point with digits. -/
theorem isSignedNumeral_body {cs : List Char} (hw : (scan cs).1.whole ≠ [])
    (he : (scan cs).1.exponent = []) : Text.isSignedNumeral (scan cs).1.body = true := by
  have hmark : (scan cs).1.exponentMark = [] := takeExponent_mark he
  have hwhole : ∀ c ∈ (scan cs).1.whole, c.isDigit = true := fun _ => isDigit_of_mem_takeWhile
  have hfraction : ∀ c ∈ (scan cs).1.fraction, c.isDigit = true :=
    fun _ => isDigit_of_mem_takeFraction
  have hsign : (scan cs).1.sign = [] ∨ (scan cs).1.sign = ['-'] := takeSign_eq cs
  generalize (scan cs).1 = n at *
  have hnumeral : Text.isNumeral (n.whole ++ if n.fraction.isEmpty then [] else '.' :: n.fraction) =
      true := by
    split
    · rw [List.append_nil]
      exact Text.isNumeral_of_digits hw hwhole
    · exact Text.isNumeral_of_fraction hw hwhole hfraction
  unfold body
  rw [hmark, he, List.append_nil, List.append_nil, List.append_assoc]
  rcases hsign with hs | hs
  · rw [hs]
    exact Text.isSignedNumeral_of_isNumeral hnumeral
  · rw [hs]
    exact hnumeral

/-- The literals of numerals are well formed. -/
theorem isWellFormed_of_literal? {cs : List Char} {l : Literal}
    (h : (scan cs).1.literal? = some l) : l.value.isWellFormed = true := by
  have hdecimal (hw : ¬(scan cs).1.whole.isEmpty = true)
      (he : (scan cs).1.exponent.isEmpty = true) :
      (scan cs).1.decimal.value.isWellFormed = true := by
    rw [List.isEmpty_iff] at hw he
    have htext := isSignedNumeral_body hw he
    show Text.isSignedNumeral (String.ofList (scan cs).1.body).toList = true
    rw [String.toList_ofList]
    exact htext
  generalize (scan cs).1 = n at *
  unfold literal? at h
  split at h
  · cases h
  · next hw =>
    split at h
    · split at h
      · obtain ⟨v, _, rfl⟩ := Option.map_eq_some_iff.mp h
        rfl
      · cases h
    · split at h
      · next he =>
        cases h
        exact hdecimal hw he
      · cases h
    · obtain ⟨x, _, rfl⟩ := Option.map_eq_some_iff.mp h
      rfl
    · obtain ⟨x, _, hx⟩ := Option.bind_eq_some_iff.mp h
      split at hx
      · cases hx
        rfl
      · cases hx
    · split at h
      · obtain ⟨x, _, rfl⟩ := Option.map_eq_some_iff.mp h
        rfl
      · next he =>
        have he : n.exponent.isEmpty = true := by simpa using he
        split at h
        · cases h
          exact hdecimal hw he
        · split at h
          · cases h
            rfl
          · cases h
            exact hdecimal hw he

end Numeral

theorem LiteralTag.isWellFormed_of_literal? {tag : LiteralTag} {body : List Char} {l : Literal}
    (h : tag.literal? body = some l) : l.value.isWellFormed = true := by
  cases tag with
  | _ =>
    simp only [literal?, Option.map_eq_some_iff] at h
    obtain ⟨v, _, rfl⟩ := h
    rfl

namespace Piece

/-- The content of a piece is no literal, or a well-formed one. -/
private def Sound (p : Piece) : Prop :=
  ∀ l, p.content = some (.literal l) → l.value.isWellFormed = true

private theorem sound_numeral (c : Char) (cs : List Char) : (numeral c cs).Sound := by
  intro l h
  unfold numeral at h
  simp only at h
  split at h
  · simp only [Option.map_eq_some_iff, TokenContent.literal.injEq, exists_eq_right] at h
    exact Numeral.isWellFormed_of_literal? h
  · cases h

private theorem sound_word (c : Char) (cs : List Char) : (word c cs).Sound := by
  intro l h
  unfold word at h
  simp only at h
  split at h
  · split at h
    · simp only [Option.map_eq_some_iff, TokenContent.literal.injEq, exists_eq_right] at h
      exact LiteralTag.isWellFormed_of_literal? h
    · cases h
  · unfold wordContent at h
    simp only [Option.some.injEq] at h
    split at h
    · cases h
      rfl
    · split at h
      · cases h
        rfl
      · split at h
        · cases h
          rfl
        · cases h

private theorem sound_quotedText (cs : List Char) : (quotedText cs).Sound := by
  intro l h
  unfold quotedText at h
  split at h
  · cases h
    rfl
  · cases h

private theorem sound_first (c : Char) (cs : List Char) : (first c cs).Sound := by
  have hnone {content : Option TokenContent} {extra : Nat}
      (h : ∀ l, content ≠ some (.literal l)) : (Piece.mk content extra).Sound :=
    fun l hl => absurd hl (h l)
  unfold first
  repeat' split
  · exact hnone (by simp)
  · exact hnone (by simp)
  · exact hnone (by simp)
  · exact hnone (by simp)
  · exact hnone (by simp)
  · exact sound_quotedText cs
  · exact sound_numeral c cs
  · exact hnone (by simp)
  · exact sound_numeral c cs
  · exact sound_word c cs
  · exact hnone (by simp)

end Piece

/-- The literals among the tokens of a text are well formed. -/
theorem isWellFormed_of_tokenize {input : String} {tokens : List Token}
    (h : tokenize input = .ok tokens) {t : Token} (ht : t ∈ tokens) {l : Literal}
    (hl : t.content = .literal l) : l.value.isWellFormed = true := by
  unfold tokenize at h
  generalize input.toList = cs at h
  generalize 0 = position at h
  fun_induction tokensFrom position cs generalizing tokens with
  | case1 =>
    cases h
    cases ht
  | case2 position c cs _ ih => exact ih ht h
  | case3 => cases h
  | case4 => cases h
  | case5 position c cs _ piece text content hcontent tokens' hrest =>
    rename_i ih
    cases h
    rcases List.mem_cons.mp ht with rfl | ht
    · obtain rfl : content = .literal l := hl
      exact Piece.sound_first c cs l hcontent
    · exact ih ht hrest

end EntityQuery
