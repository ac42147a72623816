import EntityQuery.Proofs.Literal.Scanning
import EntityQuery.Proofs.Token.Layout
import EntityQuery.Proofs.Token.ReadBack

/-!
# Cutting step by step

Tokens are cut from a text one after the other, and each is the same in any text that is cut short
behind it. So a text may be broken off after any of its tokens, or go on with a blank or a comma and
something else, and the tokens before that place stay. An error is found where all before it was cut
into tokens.
-/

namespace EntityQuery

open Text (CutShort)

/-! ### Pieces -/

namespace Piece

/-- A piece with a content ends within the text, and is cut off any text that is cut short behind
it. -/
private def Settles (cut : List Char → Piece) (cs : List Char) : Prop :=
  ∀ content extra, cut cs = ⟨some content, extra⟩ →
    ∃ text after, cs = text ++ after ∧ text.length = extra ∧
    ∀ rest, CutShort rest after → cut (text ++ rest) = ⟨some content, extra⟩

private theorem settles_const (content : TokenContent) (cs : List Char) :
    Settles (fun _ => ⟨some content, 0⟩) cs := by
  intro content' extra h
  cases h
  exact ⟨[], cs, rfl, rfl, fun _ _ => rfl⟩

private theorem chars_ne_nil {n : Numeral} {l : Literal} (h : n.literal? = some l) :
    n.chars ≠ [] := by
  intro hnil
  have hwhole : n.whole = [] := by
    simp only [Numeral.chars, Numeral.body, List.append_eq_nil_iff] at hnil
    exact hnil.1.1.1.1.2
  rw [Numeral.literal?, hwhole] at h
  cases h

private theorem settles_numeral (c : Char) (cs : List Char) : Settles (numeral c) cs := by
  intro content extra h
  unfold numeral at h
  generalize hscan : Numeral.scan (c :: cs) = scanned at h
  obtain ⟨n, rest⟩ := scanned
  simp only at h
  split at h
  · next hempty =>
    obtain ⟨hcontent, rfl⟩ := Piece.mk.inj h
    obtain ⟨l, hl, rfl⟩ := Option.map_eq_some_iff.mp hcontent
    have hrest := Text.head_of_takeWhile_eq_nil (List.isEmpty_iff.mp hempty)
    obtain ⟨hcs, hcut⟩ := Numeral.scan_cutShort hscan hrest
    obtain ⟨d, text, hchars⟩ := List.exists_cons_of_ne_nil (chars_ne_nil hl)
    rw [hchars] at hcs hcut
    cases hcs
    refine ⟨text, rest, rfl, by rw [hchars]; rfl, fun rest' h' => ?_⟩
    have hnone : rest'.takeWhile Text.isWordPart = [] :=
      Text.takeWhile_eq_nil (h'.head_eq_false (fun _ => Text.isWordPart_of_isGap) hrest)
    have hscan' := hcut rest' h'
    rw [List.cons_append] at hscan'
    simp [numeral, hscan', hnone, hl]
  · cases h

private theorem settles_quotedText (cs : List Char) : Settles quotedText cs := by
  intro content extra h
  unfold quotedText at h
  split at h
  · next body n hbody =>
    cases h
    obtain ⟨text, after, rfl, hlength, hafter, hread⟩ := Text.unquote_eq_some hbody
    refine ⟨text, after, rfl, hlength, fun rest hcut => ?_⟩
    rw [quotedText, hread rest (hcut.head?_ne (by decide) hafter)]
  · cases h

/-- A word that announces no quoted text, or that none follows. -/
theorem word_of_not_tagged {c : Char} {tail rest : List Char}
    (htail : (tail ++ rest).takeWhile Text.isWordPart = tail)
    (h : LiteralTag.ofWord? (c :: tail) = none ∨ rest.head? ≠ some '\'') :
    word c (tail ++ rest) = ⟨some (wordContent (c :: tail)), tail.length⟩ := by
  unfold word
  simp only [htail, List.drop_left]
  split
  · next htag =>
    rcases h with hnone | hquote
    · rw [htag] at hnone
      cases hnone
    · exact absurd rfl hquote
  · rfl

/-- A word ends before a character that neither continues it nor starts a quoted text. -/
theorem first_word {c : Char} {tail rest : List Char} (hc : Text.isWordStart c = true)
    (htail : ∀ d ∈ tail, Text.isWordPart d = true)
    (hrest : ∀ d ∈ rest.head?, Text.isWordPart d = false ∧ d ≠ '\'') :
    first c (tail ++ rest) = ⟨some (wordContent (c :: tail)), tail.length⟩ := by
  have hmarks : ∀ d ∈ "(),/.'-".toList, (!Text.isWordStart d) = true :=
    List.all_eq_true.mp (by decide)
  have hne : ∀ d ∈ "(),/.'-".toList, c ≠ d := by
    rintro d hd rfl
    simpa [hc] using hmarks c hd
  have hdigit : c.isDigit = false := by
    rw [← Bool.not_eq_true]
    intro hdigit
    rw [Text.isWordStart_of_isDigit hdigit] at hc
    cases hc
  have htake : (tail ++ rest).takeWhile Text.isWordPart = tail := by
    rw [List.takeWhile_append_of_pos htail]
    cases rest with
    | nil => exact List.append_nil tail
    | cons d rest => rw [List.takeWhile_cons_of_neg (by simp [hrest d rfl]), List.append_nil]
  have hword := word_of_not_tagged (c := c) htake (.inr fun hquote => (hrest _ hquote).2 rfl)
  unfold first
  rw [if_neg (hne '(' (by decide)), if_neg (hne ')' (by decide)), if_neg (hne ',' (by decide)),
    if_neg (hne '/' (by decide)), if_neg (hne '.' (by decide)), if_neg (hne '\'' (by decide)),
    if_neg (hne '-' (by decide)), if_neg (by simp [hdigit]), if_pos hc, hword]

private theorem word_of_tagged {c : Char} {tail rest body : List Char} {n : Nat} {tag : LiteralTag}
    (htail : (tail ++ '\'' :: rest).takeWhile Text.isWordPart = tail)
    (htag : LiteralTag.ofWord? (c :: tail) = some tag)
    (hbody : Text.unquote rest = some (body, n)) :
    word c (tail ++ '\'' :: rest) = ⟨(tag.literal? body).map .literal, tail.length + 1 + n⟩ := by
  simp only [word, htail, List.drop_left, htag, hbody]

private theorem settles_word (c : Char) (cs : List Char) : Settles (word c) cs := by
  intro content extra h
  generalize htail : cs.takeWhile Text.isWordPart = tail
  generalize hafter : cs.dropWhile Text.isWordPart = after
  have hcs : tail ++ after = cs := by
    rw [← htail, ← hafter]
    exact List.takeWhile_append_dropWhile
  have hstay {rest : List Char} (hcut : CutShort rest after) :
      (tail ++ rest).takeWhile Text.isWordPart = tail := by
    rw [← hafter] at hcut
    rw [← htail]
    exact (Text.takeWhile_cutShort (fun _ => Text.isWordPart_of_isGap) hcut).1
  have hself : (tail ++ after).takeWhile Text.isWordPart = tail := by rw [hcs, htail]
  rw [← hcs] at h
  by_cases hplain : LiteralTag.ofWord? (c :: tail) = none ∨ after.head? ≠ some '\''
  · rw [word_of_not_tagged hself hplain] at h
    cases h
    refine ⟨tail, after, hcs.symm, rfl, fun rest hcut => word_of_not_tagged (hstay hcut) ?_⟩
    exact hplain.imp id (hcut.head?_ne (by decide))
  · rw [not_or, Classical.not_not] at hplain
    obtain ⟨tag, htag⟩ := Option.ne_none_iff_exists'.mp hplain.1
    obtain ⟨quoted, rfl⟩ := List.head?_eq_some_iff.mp hplain.2
    cases hbody : Text.unquote quoted with
    | none =>
      simp only [word, hself, List.drop_left, htag, hbody] at h
      cases h
    | some read =>
      obtain ⟨body, n⟩ := read
      rw [word_of_tagged hself htag hbody] at h
      obtain ⟨text, later, rfl, hlength, hlater, hread⟩ := Text.unquote_eq_some hbody
      refine ⟨tail ++ '\'' :: text, later, ?_, ?_, fun rest hcut => ?_⟩
      · rw [← hcs, List.append_assoc, List.cons_append]
      · rw [← (Piece.mk.inj h).2, List.length_append, List.length_cons]
        omega
      · have hquoted := hread rest (hcut.head?_ne (by decide) hlater)
        have hshort := hcut.append ('\'' :: text)
        rw [List.cons_append, List.cons_append] at hshort
        rw [List.append_assoc, List.cons_append, word_of_tagged (hstay hshort) htag hquoted, h]

/-- A sign is part of a numeral if a digit follows, and a token of its own if none does. -/
private theorem settles_minus (cs : List Char) :
    Settles (fun cs => if cs.head?.any Char.isDigit then numeral '-' cs else ⟨some .minus, 0⟩)
      cs := by
  intro content extra h
  by_cases hdigit : cs.head?.any Char.isDigit = true
  · simp only [hdigit, ↓reduceIte] at h
    obtain ⟨text, after, rfl, hlength, hcut⟩ := settles_numeral '-' cs content extra h
    refine ⟨text, after, rfl, hlength, fun rest hshort => ?_⟩
    cases text with
    | nil =>
      -- a sign alone is no numeral
      have hsign : numeral '-' [] = ⟨none, 0⟩ := by decide
      have hempty := hcut [] (.nil after)
      rw [List.nil_append, hsign] at hempty
      cases hempty
    | cons d text =>
      have hd : ((d :: text ++ rest).head?.any Char.isDigit) = true := hdigit
      simp only [hd, ↓reduceIte]
      exact hcut rest hshort
  · simp only [hdigit, Bool.false_eq_true, ↓reduceIte] at h
    cases h
    refine ⟨[], cs, rfl, rfl, fun rest hshort => ?_⟩
    have hhead : ∀ c ∈ cs.head?, c.isDigit = false := by
      intro c hc
      rw [Option.mem_def.mp hc] at hdigit
      simpa using hdigit
    have hrest := hshort.head_eq_false (fun _ => Text.isDigit_of_isGap) hhead
    have hnone : rest.head?.any Char.isDigit = false := by
      cases rest with
      | nil => rfl
      | cons d rest => exact hrest d rfl
    simp only [List.nil_append, hnone, Bool.false_eq_true, ↓reduceIte]

private theorem settles_first (c : Char) (cs : List Char) : Settles (first c) cs := by
  have hnone : Settles (fun _ => ⟨none, 0⟩) cs := fun content extra h => by cases h
  by_cases hopen : c = '('
  · subst hopen
    exact settles_const .openParen cs
  by_cases hclose : c = ')'
  · subst hclose
    exact settles_const .closeParen cs
  by_cases hcomma : c = ','
  · subst hcomma
    exact settles_const .comma cs
  by_cases hslash : c = '/'
  · subst hslash
    exact settles_const .slash cs
  by_cases hdot : c = '.'
  · subst hdot
    exact settles_const .dot cs
  by_cases hquote : c = '\''
  · subst hquote
    exact settles_quotedText cs
  by_cases hminus : c = '-'
  · subst hminus
    exact settles_minus cs
  unfold first
  simp only [hopen, hclose, hcomma, hslash, hdot, hquote, hminus, ↓reduceIte]
  by_cases hdigit : c.isDigit = true
  · simp only [hdigit, ↓reduceIte]
    exact settles_numeral c cs
  by_cases hstart : Text.isWordStart c = true
  · simp only [hdigit, hstart, ↓reduceIte, Bool.false_eq_true]
    exact settles_word c cs
  · simp only [hdigit, hstart, ↓reduceIte, Bool.false_eq_true]
    exact hnone

/-- A piece with a content ends within the text. -/
theorem exists_first {c : Char} {cs : List Char} {content : TokenContent} {extra : Nat}
    (h : first c cs = ⟨some content, extra⟩) :
    ∃ text after, cs = text ++ after ∧ text.length = extra := by
  obtain ⟨text, after, hcs, hlength, _⟩ := settles_first c cs content extra h
  exact ⟨text, after, hcs, hlength⟩

/-- A piece with a content is cut off any text that is cut short behind it. -/
theorem first_append {c : Char} {text cs rest : List Char} {content : TokenContent}
    (h : first c (text ++ cs) = ⟨some content, text.length⟩) (hcut : CutShort rest cs) :
    first c (text ++ rest) = ⟨some content, text.length⟩ := by
  obtain ⟨text', after, hcs, hlength, hfirst⟩ := settles_first c _ _ _ h
  obtain ⟨rfl, rfl⟩ := List.append_inj hcs hlength.symm
  exact hfirst rest hcut

end Piece

/-! ### Runs -/

/-- Tokens that are cut from a text at a byte offset, until another offset is reached and a text is
left. -/
inductive Run : Nat → List Char → List Token → Nat → List Char → Prop
  | done (position : Nat) (cs : List Char) : Run position cs [] position cs
  | blank {position stop : Nat} {c : Char} {cs rest : List Char} {tokens : List Token}
      (hc : Text.isBlank c = true) (later : Run (position + c.utf8Size) cs tokens stop rest) :
      Run position (c :: cs) tokens stop rest
  | token {position stop : Nat} {c : Char} {text cs rest : List Char} {content : TokenContent}
      {tokens : List Token} (hc : Text.isBlank c = false)
      (hpiece : Piece.first c (text ++ cs) = ⟨some content, text.length⟩)
      (later : Run (position + utf8Size (c :: text)) cs tokens stop rest) :
      Run position (c :: (text ++ cs))
      (⟨content, position, String.ofList (c :: text)⟩ :: tokens) stop rest

/-- A text that is cut into tokens is run through. -/
theorem run_of_tokensFrom {position : Nat} {cs : List Char} {tokens : List Token}
    (h : tokensFrom position cs = .ok tokens) :
    Run position cs tokens (position + utf8Size cs) [] := by
  fun_induction tokensFrom position cs generalizing tokens with
  | case1 position =>
    cases h
    exact .done position []
  | case2 position c cs hblank ih =>
    rw [utf8Size_cons, ← Nat.add_assoc]
    exact .blank hblank (ih h)
  | case3 => cases h
  | case4 => cases h
  | case5 position c cs hblank piece text content hcontent later hlater =>
    rename_i ih
    cases h
    have hpiece : Piece.first c cs = ⟨some content, piece.extra⟩ := by rw [← hcontent]
    obtain ⟨text', after, rfl, hlength⟩ := Piece.exists_first hpiece
    have hrun := ih hlater
    rw [← hlength] at hpiece
    simp only [text, ← hlength, List.take_left, List.drop_left] at hrun ⊢
    rw [← List.cons_append, utf8Size_append, ← Nat.add_assoc]
    exact .token (Bool.eq_false_iff.mpr hblank) hpiece hrun

/-- An error is found behind a run, where a text that is not empty is left. -/
theorem run_of_error {position : Nat} {cs : List Char} {e : LexicalError}
    (h : tokensFrom position cs = .error e) :
    ∃ tokens text rest, Run position cs tokens e.position (text ++ rest) ∧ text ≠ [] ∧
      e.text = String.ofList text := by
  fun_induction tokensFrom position cs with
  | case1 => cases h
  | case2 position c cs hblank ih =>
    obtain ⟨tokens, text, rest, hrun, hne, htext⟩ := ih h
    exact ⟨tokens, text, rest, .blank hblank hrun, hne, htext⟩
  | case3 position c cs hblank piece text =>
    have herror : e = ⟨position, String.ofList text⟩ :=
      (Except.error.inj h).symm.trans (LexicalError.within_take position c cs piece.extra)
    subst herror
    refine ⟨[], text, cs.drop piece.extra, ?_, List.cons_ne_nil c _, rfl⟩
    rw [List.cons_append, List.take_append_drop]
    exact .done position (c :: cs)
  | case4 position c cs hblank piece text content hcontent e hlater =>
    rename_i ih
    cases h
    obtain ⟨tokens, text', rest, hrun, hne, htext⟩ := ih hlater
    have hpiece : Piece.first c cs = ⟨some content, piece.extra⟩ := by rw [← hcontent]
    obtain ⟨own, after, rfl, hlength⟩ := Piece.exists_first hpiece
    rw [← hlength] at hpiece
    simp only [text, ← hlength, List.take_left, List.drop_left] at hrun
    exact ⟨_, text', rest, .token (Bool.eq_false_iff.mpr hblank) hpiece hrun, hne, htext⟩
  | case5 => cases h

namespace Run

variable {position stop : Nat} {cs rest : List Char} {tokens : List Token}

/-- The tokens of a run are cut from any text that is cut short behind it, and those of the rest
follow. -/
theorem tokensFrom_append (run : Run position cs tokens stop rest) :
    ∃ before, cs = before ++ rest ∧ stop = position + utf8Size before ∧
      ∀ rest' later, CutShort rest' rest → tokensFrom stop rest' = .ok later →
        tokensFrom position (before ++ rest') = .ok (tokens ++ later) := by
  induction run with
  | done position cs => exact ⟨[], rfl, rfl, fun _ _ _ hlater => hlater⟩
  | @blank _ _ c _ _ _ hc _ ih =>
    obtain ⟨before, rfl, rfl, hcut⟩ := ih
    refine ⟨c :: before, rfl, ?_, fun rest' later hshort hlater => ?_⟩
    · rw [utf8Size_cons, Nat.add_assoc]
    · rw [List.cons_append, tokensFrom, if_pos hc]
      exact hcut rest' later hshort hlater
  | @token _ _ c text _ _ _ _ hc hpiece _ ih =>
    obtain ⟨before, rfl, rfl, hcut⟩ := ih
    refine ⟨c :: (text ++ before), ?_, ?_, fun rest' later hshort hlater => ?_⟩
    · rw [List.cons_append, List.append_assoc]
    · rw [← List.cons_append, utf8Size_append, Nat.add_assoc]
    · have hfirst := Piece.first_append hpiece (hshort.append before)
      have hlater := hcut rest' later hshort hlater
      rw [List.cons_append, List.append_assoc, List.cons_append]
      have hcut := tokensFrom_of_first hc hfirst (by rwa [List.take_left, List.drop_left])
      rwa [List.take_left] at hcut

/-- What is run through is cut into the tokens of the run. -/
theorem tokensFrom_before (run : Run position cs tokens stop rest) :
    ∃ before, cs = before ++ rest ∧ stop = position + utf8Size before ∧
      tokensFrom position before = .ok tokens := by
  obtain ⟨before, hcs, hstop, hcut⟩ := run.tokensFrom_append
  have hbefore := hcut [] [] (.nil rest) (tokensFrom_nil stop)
  rw [List.append_nil, List.append_nil] at hbefore
  exact ⟨before, hcs, hstop, hbefore⟩

/-- A run may start at any offset. -/
theorem exists_at (run : Run position cs tokens stop rest) (position' : Nat) :
    ∃ tokens' stop', Run position' cs tokens' stop' rest := by
  induction run generalizing position' with
  | done position cs => exact ⟨[], position', .done position' cs⟩
  | @blank _ _ c _ _ _ hc _ ih =>
    obtain ⟨tokens', stop', later⟩ := ih (position' + c.utf8Size)
    exact ⟨tokens', stop', .blank hc later⟩
  | @token _ _ c text _ _ _ _ hc hpiece _ ih =>
    obtain ⟨tokens', stop', later⟩ := ih (position' + utf8Size (c :: text))
    exact ⟨_, stop', .token hc hpiece later⟩

/-- A run may be interrupted after any of its tokens. -/
theorem split {earlier later : List Token} (run : Run position cs tokens stop rest)
    (h : tokens = earlier ++ later) :
    ∃ middle between, Run position cs earlier middle between ∧
      Run middle between later stop rest := by
  induction run generalizing earlier with
  | done position cs =>
    obtain ⟨rfl, rfl⟩ := List.append_eq_nil_iff.mp h.symm
    exact ⟨position, cs, .done position cs, .done position cs⟩
  | @blank position _ c cs _ _ hc run ih =>
    cases earlier with
    | nil =>
      cases h
      exact ⟨position, c :: cs, .done _ _, .blank hc run⟩
    | cons t earlier =>
      obtain ⟨middle, between, hearlier, hlater⟩ := ih h
      exact ⟨middle, between, .blank hc hearlier, hlater⟩
  | @token position _ c text cs _ _ _ hc hpiece run ih =>
    cases earlier with
    | nil =>
      cases h
      exact ⟨position, c :: (text ++ cs), .done _ _, .token hc hpiece run⟩
    | cons t earlier =>
      cases h
      obtain ⟨middle, between, hearlier, hlater⟩ := ih rfl
      exact ⟨middle, between, .token hc hpiece hearlier, hlater⟩

/-- The blanks before the first token of a run may be passed first. -/
theorem skip {t : Token} (run : Run position cs (t :: tokens) stop rest) :
    ∃ between, Run position cs [] t.position between ∧
      Run t.position between (t :: tokens) stop rest := by
  generalize hall : t :: tokens = all at run
  induction run with
  | done position cs => cases hall
  | blank hc _ ih =>
    obtain ⟨between, hskip, hrun⟩ := ih hall
    exact ⟨between, .blank hc hskip, hrun⟩
  | token hc hpiece run =>
    cases hall
    exact ⟨_, .done _ _, .token hc hpiece run⟩

/-- Each token of a run is cut from its own text alone. -/
theorem tokenize_text (run : Run position cs tokens stop rest) :
    ∀ t ∈ tokens, tokenize t.text = .ok [⟨t.content, 0, t.text⟩] := by
  induction run with
  | done position cs => exact fun _ ht => absurd ht List.not_mem_nil
  | blank _ _ ih => exact ih
  | @token _ _ c text _ _ content _ hc hpiece _ ih =>
    intro t ht
    rcases List.mem_cons.mp ht with rfl | ht
    · have hfirst := Piece.first_append hpiece (.nil _)
      rw [List.append_nil] at hfirst
      have hcut := @tokensFrom_of_first 0 c text content text.length [] hc hfirst
        (by rw [List.drop_length, tokensFrom_nil])
      rw [List.take_length] at hcut
      rwa [tokenize, String.toList_ofList]
    · exact ih t ht

end Run

/-! ### Parts of a text -/

theorem Token.map_shift_shift (size size' : Nat) (tokens : List Token) :
    (tokens.map (shift size)).map (shift size') = tokens.map (shift (size + size')) := by
  rw [List.map_map]
  refine List.map_congr_left fun t _ => ?_
  simp [shift, Nat.add_assoc]

theorem utf8Size_toList (text : String) : utf8Size text.toList = text.utf8ByteSize := by
  rw [← utf8ByteSize_ofList, String.ofList_toList]

/-- A text that goes on with a blank or a comma has its own tokens before those of what follows. -/
theorem tokenize_append {a b : String} {as bs : List Token} (ha : tokenize a = .ok as)
    (hb : tokenize b = .ok bs) (hgap : ∀ c ∈ b.toList.head?, Text.isGap c = true) :
    tokenize (a ++ b) = .ok (as ++ bs.map (Token.shift a.utf8ByteSize)) := by
  have hrun : Run 0 a.toList as (0 + utf8Size a.toList) [] := run_of_tokensFrom ha
  obtain ⟨before, hbefore, _, hcut⟩ := hrun.tokensFrom_append
  rw [List.append_nil] at hbefore
  have hlater := tokensFrom_add (utf8Size a.toList) hb
  rw [tokenize, String.toList_append, ← utf8Size_toList, hbefore]
  rw [hbefore] at hcut hlater
  exact hcut _ _ (.here hgap) hlater

/-- A text that is cut into tokens at some offset is cut into the same tokens alone, their positions
apart. -/
theorem tokenize_of_tokensFrom {position : Nat} {cs : List Char} {tokens : List Token}
    (h : tokensFrom position cs = .ok tokens) :
    ∃ alone, tokenize (String.ofList cs) = .ok alone ∧
      alone.map (Token.shift position) = tokens := by
  obtain ⟨alone, _, run⟩ := (run_of_tokensFrom h).exists_at 0
  obtain ⟨before, hcs, _, hcut⟩ := run.tokensFrom_before
  rw [List.append_nil] at hcs
  subst hcs
  have hshift := tokensFrom_add position hcut
  rw [Nat.zero_add, h] at hshift
  refine ⟨alone, ?_, (Except.ok.inj hshift).symm⟩
  rwa [tokenize, String.toList_ofList]

/-- Tokens that stand side by side are those of a part of the text, which starts where the first of
them does. -/
theorem tokenize_slice {input : String} {tokens own : List Token} (h : tokenize input = .ok tokens)
    (hown : own <:+: tokens) (hne : own ≠ []) :
    ∃ (before text after : String) (alone : List Token), input = before ++ text ++ after ∧
      own.head?.map Token.position = some before.utf8ByteSize ∧ tokenize text = .ok alone ∧
      alone.map (Token.shift before.utf8ByteSize) = own := by
  obtain ⟨earlier, later, htokens⟩ := hown
  obtain ⟨t, own, rfl⟩ := List.exists_cons_of_ne_nil hne
  obtain ⟨_, after, hfront, _⟩ := (run_of_tokensFrom h).split htokens.symm
  obtain ⟨_, _, hearlier, hrun⟩ := hfront.split rfl
  obtain ⟨_, hskip, hrun⟩ := hrun.skip
  obtain ⟨before, hbefore, hmiddle, _⟩ := hearlier.tokensFrom_before
  obtain ⟨blanks, hblanks, hposition, _⟩ := hskip.tokensFrom_before
  obtain ⟨text, htext, _, hcut⟩ := hrun.tokensFrom_before
  obtain ⟨alone, halone, hshift⟩ := tokenize_of_tokensFrom hcut
  have hsize : (String.ofList (before ++ blanks)).utf8ByteSize = t.position := by
    rw [utf8ByteSize_ofList, utf8Size_append, hposition, hmiddle, Nat.zero_add]
  refine ⟨String.ofList (before ++ blanks), String.ofList text, String.ofList after, alone, ?_, ?_,
    halone, ?_⟩
  · rw [← String.toList_inj, hbefore, hblanks, htext]
    simp
  · rw [hsize]
    rfl
  · rw [hsize]
    exact hshift

/-! ### Errors -/

/-- An error names the first text that is no token: it stands in the input at the position of the
error, is not empty, and all that stands before it is cut into tokens. -/
theorem tokenize_error_names_text (input : String) (e : LexicalError)
    (h : tokenize input = .error e) :
    e.position < input.utf8ByteSize ∧ e.text ≠ "" ∧ ∃ before after : String,
      input = before ++ e.text ++ after ∧ before.utf8ByteSize = e.position ∧
        ∃ tokens, tokenize before = .ok tokens := by
  obtain ⟨tokens, text, rest, hrun, hne, htext⟩ := run_of_error h
  obtain ⟨before, hinput, hposition, hbefore⟩ := hrun.tokensFrom_before
  have hslice : input = String.ofList before ++ e.text ++ String.ofList rest := by
    rw [← String.toList_inj, hinput, htext]
    simp
  have hsize : (String.ofList before).utf8ByteSize = e.position := by
    rw [utf8ByteSize_ofList, hposition, Nat.zero_add]
  have htext' : e.text ≠ "" := by
    rw [htext]
    exact fun hempty => hne (String.ofList_eq_empty_iff.mp hempty)
  refine ⟨?_, htext', String.ofList before, String.ofList rest, hslice, hsize, tokens, ?_⟩
  · have hpos : 0 < e.text.utf8ByteSize :=
      Nat.pos_of_ne_zero fun hzero => htext' (String.utf8ByteSize_eq_zero_iff.mp hzero)
    rw [hslice, String.utf8ByteSize_append, String.utf8ByteSize_append, hsize]
    omega
  · rwa [tokenize, String.toList_ofList]

/-- A sign of three bytes that is no token, right behind a point that no digit follows. -/
theorem tokenize_error_names_text_sign : tokenize "Größe 1.№" = .error ⟨10, "№"⟩ ∧
    10 < "Größe 1.№".utf8ByteSize ∧ "№" ≠ "" ∧ ∃ before after : String,
      "Größe 1.№" = before ++ "№" ++ after ∧ before.utf8ByteSize = 10 ∧
        ∃ tokens, tokenize before = .ok tokens := by
  have h : tokenize "Größe 1.№" = .error ⟨10, "№"⟩ := eq_error_of_caught (by decide +kernel)
  exact ⟨h, tokenize_error_names_text _ _ h⟩

end EntityQuery
