import EntityQuery.Jpql.Basic
import EntityQuery.Proofs.Text.Characters

/-!
# Words of JPQL

The text of a JPQL expression, cut into words: paths with all their dots, literals, keywords,
operator signs and punctuation. A run of letters, digits and points is one word; texts in single
quotes and escapes in braces are taken whole.
-/

namespace EntityQuery

/-- A name without blanks and punctuation: a letter or `_` first, then also numeric characters. -/
def Text.isPlainName (name : String) : Bool :=
  name.toList.head?.any Text.isWordStart && name.toList.all Text.isWordPart

namespace Jpql

/-- A word of a JPQL expression. The sign `-` is the operator `sub`, wherever it stands. -/
inductive Word where
  | path (text : String)
  | literal (text : String)
  | null
  | is
  | not
  | mod
  | openParen
  | closeParen
  | comma
  | operator (op : BinaryOperator)
  deriving DecidableEq, Repr

namespace Word

/-- A character of a path, a numeral or a keyword. -/
def isRunPart (c : Char) : Bool := Text.isWordPart c || c == '.'

/-- The word that a run is: a keyword, a path if it starts like a name and has a point, or a
literal. -/
def ofRun (run : List Char) : Word :=
  if run = "AND".toList then .operator .and
  else if run = "OR".toList then .operator .or
  else if run = "NOT".toList then .not
  else if run = "IS".toList then .is
  else if run = "NULL".toList then .null
  else if run = "MOD".toList then .mod
  else if run.head?.any Text.isWordStart && run.contains '.' then .path (String.ofList run)
  else .literal (String.ofList run)

/-- The literal of a character and the `n` characters after it. -/
def literalOf (c : Char) (cs : List Char) (n : Nat) : Word × Nat :=
  (.literal (String.ofList (c :: cs.take n)), n)

/-- The number of characters up to and with a closing brace. -/
def escapeLength? (cs : List Char) : Option Nat :=
  let n := (cs.takeWhile (· != '\x7d')).length
  if n < cs.length then some (n + 1) else none

/-- The operator or mark that a character starts. -/
def sign? (c : Char) (cs : List Char) : Option (Word × Nat) :=
  if c = '(' then some (.openParen, 0)
  else if c = ')' then some (.closeParen, 0)
  else if c = ',' then some (.comma, 0)
  else if c = '+' then some (.operator .add, 0)
  else if c = '-' then some (.operator .sub, 0)
  else if c = '*' then some (.operator .mul, 0)
  else if c = '/' then some (.operator .div, 0)
  else if c = '=' then some (.operator .eq, 0)
  else if c = '<' then
    if cs.head? = some '>' then some (.operator .ne, 1)
    else if cs.head? = some '=' then some (.operator .le, 1)
    else some (.operator .lt, 0)
  else if c = '>' then
    if cs.head? = some '=' then some (.operator .ge, 1) else some (.operator .gt, 0)
  else none

/-- The word at a character that is not blank, and the number of characters after it that belong to
the word. -/
def first? (c : Char) (cs : List Char) : Option (Word × Nat) :=
  if isRunPart c then
    if c = 'X' ∧ cs.head? = some '\'' then
      (Text.unquote cs.tail).map fun x => literalOf c cs (x.2 + 1)
    else some (ofRun (c :: cs.takeWhile isRunPart), (cs.takeWhile isRunPart).length)
  else if c = '\'' then (Text.unquote cs).map fun x => literalOf c cs x.2
  else if c = '\x7b' then (escapeLength? cs).map fun n => literalOf c cs n
  else sign? c cs

end Word

/-- The words of a text; none where the text at some place starts no word. -/
def words (cs : List Char) : Option (List Word) :=
  match cs with
  | [] => some []
  | c :: cs =>
    if c = ' ' then words cs
    else
      match Word.first? c cs with
      | none => none
      | some (w, n) => (words (cs.drop n)).map (w :: ·)
termination_by cs.length
decreasing_by
  · simp
  · simp only [List.length_drop, List.length_cons]
    omega

theorem words_nil : words [] = some [] := by
  rw [words]

theorem words_blank (cs : List Char) : words (' ' :: cs) = words cs := by
  rw [words]
  rfl

/-- A word at the start of a text is its first word. -/
theorem words_of_first? {c : Char} {cs rest : List Char} {w : Word} (hc : c ≠ ' ')
    (h : Word.first? c (cs ++ rest) = some (w, cs.length)) :
    words (c :: (cs ++ rest)) = (words rest).map (w :: ·) := by
  rw [words, if_neg hc, h]
  simp

/-- What may follow a word without becoming part of it. -/
def Breaks (cs : List Char) : Prop := ∀ c ∈ cs.head?, c = ' ' ∨ c = ')' ∨ c = ','

theorem breaks_nil : Breaks [] := by simp [Breaks]

theorem breaks_blank (cs : List Char) : Breaks (' ' :: cs) := by simp [Breaks]

theorem breaks_closeParen (cs : List Char) : Breaks (')' :: cs) := by simp [Breaks]

theorem breaks_comma (cs : List Char) : Breaks (',' :: cs) := by simp [Breaks]

/-- The characters spell the words, whatever follows that may follow a word. -/
def Spells (cs : List Char) (ws : List Word) : Prop :=
  ∀ rest, Breaks rest → words (cs ++ rest) = (words rest).map (ws ++ ·)

/-- A text that spells words is cut into them. -/
theorem Spells.words_eq {cs : List Char} {ws : List Word} (h : Spells cs ws) :
    words cs = some ws := by
  have h := h [] breaks_nil
  rw [List.append_nil, words_nil] at h
  simpa using h

/-! ### Runs -/

private theorem takeWhile_append_of_breaks {cs rest : List Char}
    (hcs : ∀ c ∈ cs, Word.isRunPart c = true) (hr : ∀ c ∈ rest.head?, Word.isRunPart c = false) :
    (cs ++ rest).takeWhile Word.isRunPart = cs := by
  rw [List.takeWhile_append_of_pos hcs]
  cases rest with
  | nil => simp
  | cons c rest => rw [List.takeWhile_cons_of_neg (by simp [hr c rfl]), List.append_nil]

private theorem isRunPart_of_break {c : Char} (h : c = ' ' ∨ c = ')' ∨ c = ',') :
    Word.isRunPart c = false := by
  rcases h with rfl | rfl | rfl <;> decide

/-- A run that no quote follows is one word. -/
theorem words_run {c : Char} {cs rest : List Char} (hc : Word.isRunPart c = true)
    (hcs : ∀ d ∈ cs, Word.isRunPart d = true)
    (hr : ∀ d ∈ rest.head?, Word.isRunPart d = false ∧ d ≠ '\'') :
    words (c :: (cs ++ rest)) = (words rest).map (Word.ofRun (c :: cs) :: ·) := by
  have hblank : c ≠ ' ' := by rintro rfl; exact absurd hc (by decide)
  apply words_of_first? hblank
  have hquote : (cs ++ rest).head? ≠ some '\'' := by
    cases cs with
    | nil => exact fun h => (hr _ h).2 rfl
    | cons d cs =>
      intro h
      obtain rfl : d = '\'' := by simpa using h
      exact absurd (hcs _ List.mem_cons_self) (by decide)
  rw [Word.first?, if_pos hc, if_neg (fun h => hquote h.2),
    takeWhile_append_of_breaks hcs fun d hd => (hr d hd).1]

theorem spells_run {run : List Char} (hne : run ≠ [])
    (h : ∀ c ∈ run, Word.isRunPart c = true) : Spells run [Word.ofRun run] := by
  intro rest hr
  cases run with
  | nil => exact absurd rfl hne
  | cons c cs =>
    simp only [List.mem_cons, forall_eq_or_imp] at h
    refine words_run h.1 h.2 fun d hd => ⟨isRunPart_of_break (hr d hd), ?_⟩
    rcases hr d hd with rfl | rfl | rfl <;> decide

private theorem ofRun_of_no_keyword {run : List Char}
    (h : run ∉ ["AND".toList, "OR".toList, "NOT".toList, "IS".toList, "NULL".toList,
      "MOD".toList]) :
    Word.ofRun run =
      if run.head?.any Text.isWordStart && run.contains '.' then .path (String.ofList run)
      else .literal (String.ofList run) := by
  simp only [List.mem_cons, List.not_mem_nil, or_false, not_or] at h
  obtain ⟨h1, h2, h3, h4, h5, h6⟩ := h
  rw [Word.ofRun, if_neg h1, if_neg h2, if_neg h3, if_neg h4, if_neg h5, if_neg h6]

/-- A numeral is one literal. -/
theorem spells_numeral {cs : List Char} (h : Text.isNumeral cs = true) :
    Spells cs [.literal (String.ofList cs)] := by
  cases cs with
  | nil => simp [Text.isNumeral] at h
  | cons c cs =>
    simp only [Text.isNumeral, List.head?_cons, Option.any_some, Bool.and_eq_true,
      List.all_eq_true, Bool.or_eq_true, beq_iff_eq] at h
    obtain ⟨hc, hall⟩ := h
    have hrun : ∀ d ∈ c :: cs, Word.isRunPart d = true := by
      intro d hd
      rcases hall d hd with hd | rfl
      · simp [Word.isRunPart, Text.isWordPart_of_isDigit hd]
      · rfl
    have hkeyword : c :: cs ∉ ["AND".toList, "OR".toList, "NOT".toList, "IS".toList,
        "NULL".toList, "MOD".toList] := by
      intro hmem
      simp at hmem
      rcases hmem with ⟨rfl, _⟩ | ⟨rfl, _⟩ | ⟨rfl, _⟩ | ⟨rfl, _⟩ | ⟨rfl, _⟩ | ⟨rfl, _⟩ <;>
        exact absurd hc (by decide)
    have hword := ofRun_of_no_keyword hkeyword
    rw [List.head?_cons, Option.any_some, Text.isWordStart_of_isDigit hc] at hword
    have hspells := spells_run (List.cons_ne_nil c cs) hrun
    rw [hword] at hspells
    exact hspells

/-- A run that starts like a name and has a point is one path. -/
theorem spells_path {run : List Char} (hstart : run.head?.any Text.isWordStart = true)
    (hdot : '.' ∈ run) (h : ∀ c ∈ run, Word.isRunPart c = true) :
    Spells run [.path (String.ofList run)] := by
  have hkeyword : run ∉ ["AND".toList, "OR".toList, "NOT".toList, "IS".toList, "NULL".toList,
      "MOD".toList] := by
    intro hmem
    have hno : ∀ k ∈ ["AND".toList, "OR".toList, "NOT".toList, "IS".toList, "NULL".toList,
        "MOD".toList], '.' ∉ k := by decide
    exact hno run hmem hdot
  have hword := ofRun_of_no_keyword hkeyword
  rw [hstart, List.contains_iff_mem.mpr hdot] at hword
  have hne : run ≠ [] := List.ne_nil_of_mem hdot
  have hspells := spells_run hne h
  rw [hword] at hspells
  exact hspells

/-! ### Quoted texts and escapes -/

private theorem literalOf_append (c : Char) (cs rest : List Char) :
    Word.literalOf c (cs ++ rest) cs.length = (.literal (String.ofList (c :: cs)), cs.length) := by
  rw [Word.literalOf, List.take_left]

private theorem unquote_of_breaks (cs : List Char) {rest : List Char} (h : Breaks rest) :
    Text.unquote ((Text.doubleQuotes cs ++ ['\'']) ++ rest) =
      some (cs, (Text.doubleQuotes cs ++ ['\'']).length) := by
  have hquote : rest.head? ≠ some '\'' := by
    intro hq
    have := h _ hq
    simp at this
  rw [List.append_assoc, List.singleton_append, Text.unquote_doubleQuotes cs hquote,
    List.length_append]
  rfl

/-- A text in quotes is one literal. -/
theorem spells_quoted (cs : List Char) :
    Spells ('\'' :: (Text.doubleQuotes cs ++ ['\'']))
      [.literal (String.ofList ('\'' :: (Text.doubleQuotes cs ++ ['\''])))] := by
  intro rest hr
  apply words_of_first? (by decide)
  rw [Word.first?, if_neg (by decide), if_pos rfl, unquote_of_breaks cs hr, Option.map_some,
    literalOf_append]

/-- A text in quotes with an `X` before it is one literal. -/
theorem spells_binary {cs : List Char} (h : ∀ c ∈ cs, c ≠ '\'') :
    Spells ('X' :: '\'' :: (cs ++ ['\'']))
      [.literal (String.ofList ('X' :: '\'' :: (cs ++ ['\''])))] := by
  intro rest hr
  apply words_of_first? (by decide)
  have hread := unquote_of_breaks cs hr
  rw [Text.doubleQuotes_of_no_quote h] at hread
  rw [Word.first?, if_pos (by decide), if_pos ⟨rfl, rfl⟩, List.cons_append, List.tail_cons, hread,
    Option.map_some, ← List.cons_append, ← List.length_cons, literalOf_append]

/-- A text in braces is one literal. -/
theorem spells_escape {cs : List Char} (h : ∀ c ∈ cs, c ≠ '\x7d') :
    Spells ('\x7b' :: (cs ++ ['\x7d']))
      [.literal (String.ofList ('\x7b' :: (cs ++ ['\x7d'])))] := by
  intro rest _
  apply words_of_first? (by decide)
  have htake : (cs ++ ['\x7d'] ++ rest).takeWhile (· != '\x7d') = cs := by
    rw [List.append_assoc, List.takeWhile_append_of_pos fun c hc => by simp [h c hc],
      List.singleton_append, List.takeWhile_cons_of_neg (by decide), List.append_nil]
  have hlen : Word.escapeLength? (cs ++ ['\x7d'] ++ rest) = some (cs ++ ['\x7d']).length := by
    simp only [Word.escapeLength?, htake, List.length_append, List.length_singleton]
    rw [if_pos (by omega)]
  rw [Word.first?, if_neg (by decide), if_neg (by decide), if_pos rfl, hlen, Option.map_some,
    literalOf_append]

/-! ### Composition -/

/-- A blank between two texts puts their words one after the other. -/
theorem Spells.append_blank {as bs : List Char} {ws vs : List Word} (ha : Spells as ws)
    (hb : Spells bs vs) : Spells (as ++ ' ' :: bs) (ws ++ vs) := by
  intro rest hr
  rw [List.append_assoc, List.cons_append, ha _ (breaks_blank _), words_blank, hb rest hr,
    Option.map_map]
  congr 1
  funext us
  exact (List.append_assoc ws vs us).symm

private theorem words_openParen (cs : List Char) :
    words ('(' :: cs) = (words cs).map (.openParen :: ·) :=
  @words_of_first? '(' [] cs .openParen (by decide) rfl

private theorem words_closeParen (cs : List Char) :
    words (')' :: cs) = (words cs).map (.closeParen :: ·) :=
  @words_of_first? ')' [] cs .closeParen (by decide) rfl

private theorem words_comma (cs : List Char) :
    words (',' :: cs) = (words cs).map (.comma :: ·) :=
  @words_of_first? ',' [] cs .comma (by decide) rfl

/-- A comma and a blank between two texts. -/
theorem Spells.append_comma {as bs : List Char} {ws vs : List Word} (ha : Spells as ws)
    (hb : Spells bs vs) : Spells (as ++ ',' :: ' ' :: bs) (ws ++ .comma :: vs) := by
  intro rest hr
  rw [List.append_assoc, List.cons_append, List.cons_append, ha _ (breaks_comma _), words_comma,
    words_blank, hb rest hr]
  simp [Option.map_map, Function.comp_def]

/-- Parentheses around a text. -/
theorem Spells.paren {cs : List Char} {ws : List Word} (h : Spells cs ws) :
    Spells ('(' :: (cs ++ [')'])) (.openParen :: (ws ++ [.closeParen])) := by
  intro rest _
  rw [List.cons_append, words_openParen, List.append_assoc, List.singleton_append,
    h _ (breaks_closeParen _), words_closeParen]
  simp [Option.map_map, Function.comp_def]

/-- Two texts as arguments in parentheses. -/
theorem Spells.pair {as bs : List Char} {ws vs : List Word} (ha : Spells as ws)
    (hb : Spells bs vs) :
    Spells ('(' :: (as ++ ',' :: ' ' :: (bs ++ [')'])))
      (.openParen :: (ws ++ .comma :: (vs ++ [.closeParen]))) := by
  simpa using (ha.append_comma hb).paren

/-- A minus sign before a text. -/
theorem Spells.minus {cs : List Char} {ws : List Word} (h : Spells cs ws) :
    Spells ('-' :: cs) (.operator .sub :: ws) := by
  intro rest hr
  have hminus : words ('-' :: (cs ++ rest)) = (words (cs ++ rest)).map (.operator .sub :: ·) :=
    @words_of_first? '-' [] (cs ++ rest) (.operator .sub) (by decide) rfl
  rw [List.cons_append, hminus, h rest hr, Option.map_map]
  rfl

/-- A run directly before a parenthesis. -/
theorem Spells.run_paren {c : Char} {run cs : List Char} {ws : List Word}
    (hrun : ∀ d ∈ c :: run, Word.isRunPart d = true) (h : Spells ('(' :: cs) ws) :
    Spells (c :: (run ++ '(' :: cs)) (Word.ofRun (c :: run) :: ws) := by
  intro rest hr
  simp only [List.mem_cons, forall_eq_or_imp] at hrun
  have hparen : ∀ d ∈ ('(' :: (cs ++ rest)).head?, Word.isRunPart d = false ∧ d ≠ '\'' := by
    rintro d ⟨⟩
    decide
  rw [List.cons_append, List.append_assoc, List.cons_append, words_run hrun.1 hrun.2 hparen,
    ← List.cons_append, h rest hr, Option.map_map]
  rfl

private theorem spells_sign {c : Char} {cs : List Char} {op : BinaryOperator} (hc : c ≠ ' ')
    (h : ∀ rest, Breaks rest → Word.first? c (cs ++ rest) = some (.operator op, cs.length)) :
    Spells (c :: cs) [.operator op] :=
  fun rest hr => words_of_first? hc (h rest hr)

private theorem head?_ne_of_breaks {rest : List Char} {d : Char} (hr : Breaks rest)
    (hd : d = '=' ∨ d = '>') : rest.head? ≠ some d := by
  intro hh
  have := hr d hh
  rcases hd with rfl | rfl <;> simp at this

/-- The text of an operator between two operands. -/
theorem spells_surface {op : BinaryOperator} (h : op ≠ .mod) :
    Spells op.surface.toList [.operator op] := by
  cases op with
  | or => exact spells_run (by decide) (List.all_eq_true.mp (by decide))
  | and => exact spells_run (by decide) (List.all_eq_true.mp (by decide))
  | eq => exact spells_sign (by decide) fun _ _ => rfl
  | ne => exact spells_sign (by decide) fun _ _ => rfl
  | le => exact spells_sign (by decide) fun _ _ => rfl
  | ge => exact spells_sign (by decide) fun _ _ => rfl
  | add => exact spells_sign (by decide) fun _ _ => rfl
  | sub => exact spells_sign (by decide) fun _ _ => rfl
  | mul => exact spells_sign (by decide) fun _ _ => rfl
  | div => exact spells_sign (by decide) fun _ _ => rfl
  | lt =>
    -- What breaks a word does not make the sign a longer one.
    refine @spells_sign '<' [] .lt (by decide) fun rest hr => ?_
    have hgt : rest.head? ≠ some '>' := head?_ne_of_breaks hr (.inr rfl)
    have heq : rest.head? ≠ some '=' := head?_ne_of_breaks hr (.inl rfl)
    show Word.sign? '<' rest = _
    simp [Word.sign?, hgt, heq]
  | gt =>
    refine @spells_sign '>' [] .gt (by decide) fun rest hr => ?_
    have heq : rest.head? ≠ some '=' := head?_ne_of_breaks hr (.inl rfl)
    show Word.sign? '>' rest = _
    simp [Word.sign?, heq]
  | mod => exact absurd rfl h

end Jpql

end EntityQuery
