import EntityQuery.Proofs.Expr.Steps
import EntityQuery.Token.Lexer

/-!
# Where tokens stand

The tokens of an input stand in it one after the other, each with the text it was cut from, and
nothing but blanks is left outside them. Positions count the bytes of UTF-8, while texts are cut
character by character: `Layout` keeps both in step, and every fact about positions is read off from
it.
-/

namespace EntityQuery

/-! ### Bytes of texts -/

theorem utf8Size_cons (c : Char) (cs : List Char) : utf8Size (c :: cs) = c.utf8Size + utf8Size cs :=
  rfl

theorem utf8Size_append (cs ds : List Char) : utf8Size (cs ++ ds) = utf8Size cs + utf8Size ds := by
  induction cs with
  | nil => exact (Nat.zero_add _).symm
  | cons c cs ih => rw [List.cons_append, utf8Size_cons, utf8Size_cons, ih, Nat.add_assoc]

theorem utf8Size_pos {cs : List Char} (h : cs ≠ []) : 0 < utf8Size cs := by
  cases cs with
  | nil => exact absurd rfl h
  | cons c cs => exact Nat.add_pos_left c.utf8Size_pos _

/-- The size of a list of characters is the size of its string. -/
theorem utf8ByteSize_ofList (cs : List Char) : (String.ofList cs).utf8ByteSize = utf8Size cs := by
  induction cs with
  | nil => rfl
  | cons c cs ih =>
    rw [String.ofList_cons, String.utf8ByteSize_append, String.utf8ByteSize_singleton, ih,
      utf8Size_cons]

theorem takeBytes?_append (cs ds : List Char) : takeBytes? (utf8Size cs) (cs ++ ds) = some cs := by
  induction cs with
  | nil => simp [utf8Size, takeBytes?]
  | cons c cs ih =>
    obtain ⟨n, hn⟩ :=
      Nat.exists_eq_add_one_of_ne_zero (Nat.ne_of_gt (utf8Size_pos (List.cons_ne_nil c cs)))
    have hsize : c.utf8Size ≤ n + 1 := by rw [← hn, utf8Size_cons]; omega
    have hrest : n + 1 - c.utf8Size = utf8Size cs := by rw [← hn, utf8Size_cons]; omega
    rw [hn, List.cons_append, takeBytes?, if_pos hsize, hrest, ih]
    rfl

/-- The error of a piece names the piece as it is: a piece has a byte, is part of the text and ends
with a character. -/
theorem LexicalError.within_append (position : Nat) {cs : List Char} (h : cs ≠ [])
    (ds : List Char) :
    within position (cs ++ ds) (utf8Size cs) = ⟨position, String.ofList cs⟩ := by
  have hpos := utf8Size_pos h
  have hsize : min (max (utf8Size cs) 1) (utf8Size (cs ++ ds)) = utf8Size cs := by
    rw [utf8Size_append]
    omega
  rw [within, hsize, takeBytes?_append]
  rfl

theorem LexicalError.within_take (position : Nat) (c : Char) (cs : List Char) (n : Nat) :
    within position (c :: cs) (utf8Size (c :: cs.take n)) =
      ⟨position, String.ofList (c :: cs.take n)⟩ := by
  have htext : c :: cs = (c :: cs.take n) ++ cs.drop n := by
    rw [List.cons_append, List.take_append_drop]
  rw [htext]
  exact within_append position (List.cons_ne_nil c _) _

/-! ### Places of tokens -/

namespace Token

/-- The byte offset right after a token. -/
def stop (t : Token) : Nat := t.position + t.text.utf8ByteSize

/-- A byte offset within the text of a token. -/
def Spans (t : Token) (offset : Nat) : Prop := t.position ≤ offset ∧ offset < t.stop

/-- The text of a token is the slice of the input at its position. -/
def StandsIn (t : Token) (input : String) : Prop :=
  ∃ before after : String, input = before ++ t.text ++ after ∧ before.utf8ByteSize = t.position

/-- A literal is carried by tokens of the kind `literal` and by no others. -/
theorem isSome_literal? (t : Token) : t.literal?.isSome = true ↔ t.kind = .literal := by
  obtain ⟨content, position, text⟩ := t
  cases content <;> simp [literal?, kind, TokenContent.kind]

theorem stop_ofList (content : TokenContent) (position : Nat) (text : List Char) :
    (Token.mk content position (String.ofList text)).stop = position + utf8Size text := by
  rw [stop, utf8ByteSize_ofList]

end Token

/-! ### Pieces that are words -/

namespace Piece

/-- A piece with the content of a word is a word that stands for itself. -/
def IsOwnWord (p : Piece) (c : Char) (cs : List Char) : Prop :=
  p.content = some .identifier → wordContent (c :: cs.take p.extra) = .identifier

private theorem isOwnWord_of_ne {p : Piece} (h : p.content ≠ some .identifier) (c : Char)
    (cs : List Char) : p.IsOwnWord c cs :=
  fun hp => absurd hp h

private theorem isOwnWord_numeral (c : Char) (cs : List Char) : (numeral c cs).IsOwnWord c cs := by
  apply isOwnWord_of_ne
  unfold numeral
  simp only
  split
  · simp
  · simp

private theorem isOwnWord_quotedText (c : Char) (cs : List Char) :
    (quotedText cs).IsOwnWord c cs := by
  apply isOwnWord_of_ne
  unfold quotedText
  split
  · simp
  · simp

private theorem isOwnWord_word (c : Char) (cs : List Char) : (word c cs).IsOwnWord c cs := by
  unfold word
  simp only
  split
  · split
    · exact isOwnWord_of_ne (by simp) c cs
    · exact isOwnWord_of_ne (by simp) c cs
  · intro h
    have htake : cs.take (cs.takeWhile Text.isWordPart).length = cs.takeWhile Text.isWordPart :=
      (List.prefix_iff_eq_take.mp (List.takeWhile_prefix _)).symm
    rw [htake]
    exact Option.some.inj h

/-- Only words are identifiers. -/
theorem isOwnWord_first (c : Char) (cs : List Char) : (first c cs).IsOwnWord c cs := by
  unfold first
  repeat' split
  · exact isOwnWord_of_ne (by simp) c cs
  · exact isOwnWord_of_ne (by simp) c cs
  · exact isOwnWord_of_ne (by simp) c cs
  · exact isOwnWord_of_ne (by simp) c cs
  · exact isOwnWord_of_ne (by simp) c cs
  · exact isOwnWord_quotedText c cs
  · exact isOwnWord_numeral c cs
  · exact isOwnWord_of_ne (by simp) c cs
  · exact isOwnWord_numeral c cs
  · exact isOwnWord_word c cs
  · exact isOwnWord_of_ne (by simp) c cs

/-- The words of the three literals are no identifiers. -/
theorem notMem_of_wordContent {word : List Char} (h : wordContent word = .identifier) :
    String.ofList word ∉ ["null", "true", "false"] := by
  intro hmem
  simp only [List.mem_cons, List.not_mem_nil, or_false] at hmem
  unfold wordContent at h
  rcases hmem with hword | hword | hword
  all_goals
    have hlist := congrArg String.toList hword
    rw [String.toList_ofList] at hlist
    subst hlist
    exact absurd h (by decide)

end Piece

/-! ### Layouts -/

/-- A text from a byte offset on, as blanks and tokens one after the other. -/
inductive Layout : Nat → List Char → List Token → Prop
  | nil (position : Nat) : Layout position [] []
  | blank {position : Nat} {c : Char} {cs : List Char} {tokens : List Token}
      (hc : Text.isBlank c = true) (rest : Layout (position + c.utf8Size) cs tokens) :
      Layout position (c :: cs) tokens
  | token {position : Nat} {content : TokenContent} {text cs : List Char} {tokens : List Token}
      (hne : text ≠ []) (hword : content = .identifier → Piece.wordContent text = .identifier)
      (rest : Layout (position + utf8Size text) cs tokens) :
      Layout position (text ++ cs) (⟨content, position, String.ofList text⟩ :: tokens)

/-- Tokens that are cut from a text lay it out. -/
theorem layout_of_tokensFrom {position : Nat} {cs : List Char} {tokens : List Token}
    (h : tokensFrom position cs = .ok tokens) : Layout position cs tokens := by
  fun_induction tokensFrom position cs generalizing tokens with
  | case1 position =>
    cases h
    exact .nil position
  | case2 position c cs hblank ih => exact .blank hblank (ih h)
  | case3 => cases h
  | case4 => cases h
  | case5 position c cs hblank piece text content hcontent later hlater =>
    rename_i ih
    cases h
    have hword : content = .identifier → Piece.wordContent text = .identifier := by
      rintro rfl
      exact Piece.isOwnWord_first c cs hcontent
    have hlayout := Layout.token (List.cons_ne_nil c (cs.take piece.extra)) hword (ih hlater)
    rwa [List.cons_append, List.take_append_drop] at hlayout

namespace Layout

variable {position : Nat} {cs : List Char} {tokens : List Token}

theorem le_position (h : Layout position cs tokens) : ∀ t ∈ tokens, position ≤ t.position := by
  induction h with
  | nil position => exact fun _ ht => absurd ht List.not_mem_nil
  | blank _ _ ih => exact fun t ht => Nat.le_trans (Nat.le_add_right _ _) (ih t ht)
  | token _ _ _ ih =>
    intro t ht
    rcases List.mem_cons.mp ht with rfl | ht
    · exact Nat.le_refl _
    · exact Nat.le_trans (Nat.le_add_right _ _) (ih t ht)

/-- A token stops before the next one starts. -/
theorem pairwise_stop (h : Layout position cs tokens) :
    tokens.Pairwise fun a b => a.stop ≤ b.position := by
  induction h with
  | nil position => exact .nil
  | blank _ _ ih => exact ih
  | token _ _ rest ih =>
    refine .cons ?_ ih
    intro t ht
    rw [Token.stop_ofList]
    exact rest.le_position t ht

theorem text_ne (h : Layout position cs tokens) : ∀ t ∈ tokens, t.text ≠ "" := by
  induction h with
  | nil position => exact fun _ ht => absurd ht List.not_mem_nil
  | blank _ _ ih => exact ih
  | token hne _ _ ih =>
    intro t ht
    rcases List.mem_cons.mp ht with rfl | ht
    · exact fun htext => hne (String.ofList_eq_empty_iff.mp htext)
    · exact ih t ht

theorem word (h : Layout position cs tokens) :
    ∀ t ∈ tokens, t.kind = .identifier → t.text ∉ ["null", "true", "false"] := by
  induction h with
  | nil position => exact fun _ ht => absurd ht List.not_mem_nil
  | blank _ _ ih => exact ih
  | @token _ content text _ _ _ hword _ ih =>
    intro t ht hkind
    rcases List.mem_cons.mp ht with rfl | ht
    · have hcontent : content = .identifier := by
        cases content with
        | identifier => rfl
        | _ => cases hkind
      exact Piece.notMem_of_wordContent (hword hcontent)
    · exact ih t ht hkind

/-- Each token has its text from where it stands. -/
theorem exists_slice (h : Layout position cs tokens) : ∀ t ∈ tokens, ∃ before after,
    cs = before ++ t.text.toList ++ after ∧ position + utf8Size before = t.position := by
  induction h with
  | nil position => exact fun _ ht => absurd ht List.not_mem_nil
  | @blank _ c _ _ _ _ ih =>
    intro t ht
    obtain ⟨before, after, hcs, hposition⟩ := ih t ht
    refine ⟨c :: before, after, ?_, ?_⟩
    · rw [hcs]
      rfl
    · rw [utf8Size_cons]
      omega
  | @token _ _ text cs _ _ _ _ ih =>
    intro t ht
    rcases List.mem_cons.mp ht with rfl | ht
    · exact ⟨[], cs, by rw [String.toList_ofList]; rfl, rfl⟩
    · obtain ⟨before, after, hcs, hposition⟩ := ih t ht
      refine ⟨text ++ before, after, ?_, ?_⟩
      · rw [hcs, List.append_assoc, List.append_assoc, List.append_assoc]
      · rw [utf8Size_append]
        omega

/-- A character is blank or within a token. -/
theorem isBlank_or_spans (h : Layout position cs tokens) {before after : List Char} {c : Char}
    (hcs : cs = before ++ c :: after) :
    Text.isBlank c = true ∨ ∃ t ∈ tokens, t.Spans (position + utf8Size before) := by
  induction h generalizing before with
  | nil position => simp at hcs
  | @blank position d _ _ hd _ ih =>
    cases before with
    | nil =>
      cases hcs
      exact .inl hd
    | cons d' before =>
      cases hcs
      rw [utf8Size_cons, ← Nat.add_assoc]
      exact ih rfl
  | @token position content text cs tokens _ _ _ ih =>
    rcases List.append_eq_append_iff.mp hcs with ⟨middle, rfl, htail⟩ | ⟨middle, rfl, htail⟩
    · -- the character stands behind the text of the token
      rw [utf8Size_append, ← Nat.add_assoc]
      rcases ih htail with hblank | ⟨t, ht, hspans⟩
      · exact .inl hblank
      · exact .inr ⟨t, List.mem_cons_of_mem _ ht, hspans⟩
    · cases middle with
      | nil =>
        -- it is the first one behind the text
        rw [List.append_nil]
        rcases @ih [] htail.symm with hblank | ⟨t, ht, hspans⟩
        · exact .inl hblank
        · rw [List.append_nil] at hspans
          exact .inr ⟨t, List.mem_cons_of_mem _ ht, hspans⟩
      | cons d middle =>
        refine .inr ⟨_, List.mem_cons_self, ?_, ?_⟩
        · exact Nat.le_add_right _ _
        · rw [Token.stop_ofList, utf8Size_append]
          have hpos := utf8Size_pos (List.cons_ne_nil d middle)
          omega

end Layout

/-! ### Tokens of an input -/

/-- Tokens that account for all of an input. -/
structure Covers (input : String) (tokens : List Token) : Prop where
  increasing : tokens.Pairwise fun a b => a.position < b.position
  apart : tokens.Pairwise fun a b => a.stop ≤ b.position
  slice : ∀ t ∈ tokens, t.text ≠ "" ∧ t.StandsIn input
  blanks : ∀ (before after : String) (c : Char), input = before ++ String.singleton c ++ after →
    (∀ t ∈ tokens, ¬t.Spans before.utf8ByteSize) → Text.isBlank c = true
  literal : ∀ t ∈ tokens, t.literal?.isSome = true ↔ t.kind = .literal
  word : ∀ t ∈ tokens, t.kind = .identifier → t.text ∉ ["null", "true", "false"]

/-- Cutting an input into tokens loses nothing: the tokens stand apart from left to right, each with
its own slice of the input, and all that is outside their slices is blank. -/
theorem tokenize_covers (input : String) (tokens : List Token) (h : tokenize input = .ok tokens) :
    Covers input tokens := by
  have hlayout : Layout 0 input.toList tokens := layout_of_tokensFrom h
  refine ⟨?_, hlayout.pairwise_stop, ?_, ?_, fun t _ => t.isSome_literal?, hlayout.word⟩
  · refine List.Pairwise.imp_of_mem ?_ hlayout.pairwise_stop
    intro a b ha _ hab
    have hpos : 0 < a.text.utf8ByteSize :=
      Nat.pos_of_ne_zero fun hzero =>
        hlayout.text_ne a ha (String.utf8ByteSize_eq_zero_iff.mp hzero)
    exact Nat.lt_of_lt_of_le (Nat.lt_add_of_pos_right hpos) hab
  · intro t ht
    obtain ⟨before, after, hcs, hposition⟩ := hlayout.exists_slice t ht
    refine ⟨hlayout.text_ne t ht, String.ofList before, String.ofList after, ?_, ?_⟩
    · rw [← String.toList_inj, hcs]
      simp
    · rw [utf8ByteSize_ofList, ← hposition, Nat.zero_add]
  · intro before after c hinput houtside
    have hcs : input.toList = before.toList ++ c :: after.toList := by
      rw [hinput]
      simp
    rcases hlayout.isBlank_or_spans hcs with hblank | ⟨t, ht, hspans⟩
    · exact hblank
    · rw [Nat.zero_add, ← utf8ByteSize_ofList, String.ofList_toList] at hspans
      exact absurd hspans (houtside t ht)

/-- The tokens of a word with letters of two bytes, a blank of three bytes, and a word that runs
into a string with a quote in it. -/
def mixedTokens : List Token :=
  [⟨.identifier, 0, "Größe"⟩, ⟨.identifier, 10, "eq"⟩, ⟨.literal (.string "ß'"), 12, "'ß'''"⟩]

theorem tokenize_covers_mixedTokens : tokenize "Größe\u3000eq'ß'''" = .ok mixedTokens ∧
    Covers "Größe\u3000eq'ß'''" mixedTokens := by
  obtain ⟨tokens, h, htokens⟩ := @exists_ok_of_any _ _ (tokenize "Größe\u3000eq'ß'''")
    (fun tokens => tokens == mixedTokens) (by decide +kernel)
  rw [beq_iff_eq.mp htokens] at h
  exact ⟨h, tokenize_covers _ _ h⟩

end EntityQuery
