import EntityQuery.Proofs.Jpql.Forms
import EntityQuery.Proofs.Jpql.Words
import Mathlib.Data.List.Chain

/-!
# Texts that are safe to read

The text of an expression closes every literal that it opens, and outside of literals its
parentheses are balanced and no comment starts. Comments are what takes care: minus signs stand
before numerals and before operands, and between operands. Parts of a text therefore never end in a
sign, and what follows a sign does not start with one.
-/

namespace EntityQuery

namespace Text

/-! ### Safe texts -/

/-- Whether every literal in single quotes is closed, where a doubled quote in a literal stands for
one. `inside` says whether the text starts within a literal. -/
def closesFrom : (inside : Bool) → List Char → Bool
  | inside, [] => !inside
  | false, '\'' :: cs => closesFrom true cs
  | false, _ :: cs => closesFrom false cs
  | true, '\'' :: '\'' :: cs => closesFrom true cs
  | true, '\'' :: cs => closesFrom false cs
  | true, _ :: cs => closesFrom true cs

/-- The number of parentheses that are open behind a mask, or none if one is closed that was not
opened. -/
def depthFrom : (depth : Nat) → List (Option Char) → Option Nat
  | depth, [] => some depth
  | depth, c :: cs =>
    if c = some '(' then depthFrom (depth + 1) cs
    else if c = some ')' then if depth = 0 then none else depthFrom (depth - 1) cs
    else depthFrom depth cs

/-- A text whose literals are closed and that, outside of them, has balanced parentheses and starts
no comment. -/
structure LexicallySafe (text : String) : Prop where
  quotes : closesFrom false text.toList = true
  parens : depthFrom 0 (mask text) = some 0
  dashes : ¬[some '-', some '-'] <:+: mask text
  slashStar : ¬[some '/', some '*'] <:+: mask text

/-! ### Masks of parts -/

/-- Two places that start no comment. -/
def Apart (x y : Option Char) : Prop :=
  ¬(x = some '-' ∧ y = some '-') ∧ ¬(x = some '/' ∧ y = some '*')

theorem apart_of_ne {x : Option Char} (hdash : x ≠ some '-') (hslash : x ≠ some '/')
    (y : Option Char) : Apart x y :=
  ⟨fun h => hdash h.1, fun h => hslash h.1⟩

/-- The mask of a part that may stand anywhere: as many parentheses are open behind it as before,
and no comment starts in it, nor at its end. -/
structure Solid (m : List (Option Char)) : Prop where
  level : ∀ depth rest, depthFrom depth (m ++ rest) = depthFrom depth rest
  apart : m.IsChain Apart
  last : ∀ x ∈ m.getLast?, ∀ y, Apart x y

namespace Solid

variable {m m' : List (Option Char)}

theorem nil : Solid [] where
  level _ _ := rfl
  apart := .nil
  last x hx := by cases hx

theorem append (h : Solid m) (h' : Solid m') : Solid (m ++ m') where
  level depth rest := by rw [List.append_assoc, h.level, h'.level]
  apart := List.isChain_append.mpr ⟨h.apart, h'.apart, fun x hx y _ => h.last x hx y⟩
  last x hx := by
    rw [List.getLast?_append, Option.mem_def, Option.or_eq_some_iff] at hx
    rcases hx with hx | ⟨_, hx⟩
    · exact h'.last x hx
    · exact h.last x hx

/-- A character before a part, which may be a sign if none follows. -/
theorem cons {c : Char} (hopen : c ≠ '(') (hclose : c ≠ ')') (hne : m ≠ [])
    (hhead : ∀ y ∈ m.head?, Apart (some c) y) (h : Solid m) : Solid (some c :: m) where
  level depth rest := by
    rw [List.cons_append, depthFrom, if_neg (by simpa using hopen), if_neg (by simpa using hclose),
      h.level]
  apart := List.isChain_cons.mpr ⟨hhead, h.apart⟩
  last x hx := by
    rw [List.getLast?_cons_of_ne_nil hne] at hx
    exact h.last x hx

theorem parens (h : Solid m) : Solid (some '(' :: (m ++ [some ')'])) where
  level depth rest := by
    rw [List.cons_append, depthFrom, if_pos rfl, List.append_assoc, h.level]
    rfl
  apart := by
    have hclose : (m ++ [some ')']).IsChain Apart :=
      List.isChain_append.mpr ⟨h.apart, .singleton _, fun x hx y _ => h.last x hx y⟩
    exact List.isChain_cons.mpr ⟨fun y _ => apart_of_ne (by decide) (by decide) y, hclose⟩
  last x hx := by
    rw [List.getLast?_cons_of_ne_nil (by simp), List.getLast?_concat] at hx
    cases hx
    exact apart_of_ne (by decide) (by decide)

/-- A place that is no parenthesis and starts no comment. -/
theorem singleton {x : Option Char} (h : x ∉ [some '(', some ')', some '-', some '/']) :
    Solid [x] := by
  simp only [List.mem_cons, List.not_mem_nil, or_false, not_or] at h
  obtain ⟨hopen, hclose, hdash, hslash⟩ := h
  refine ⟨fun depth rest => ?_, .singleton x, fun y hy => ?_⟩
  · rw [List.singleton_append, depthFrom, if_neg hopen, if_neg hclose]
  · cases hy
    exact apart_of_ne hdash hslash

end Solid

/-- A text of which no character is a quote, a parenthesis, or the first one of a comment. -/
def isInert (text : String) : Bool := text.toList.all fun c => !"'()-/".toList.contains c

theorem isInert_append (a b : String) : isInert (a ++ b) = (isInert a && isInert b) := by
  simp [isInert]

theorem isQuoteFree_of_isInert {text : String} (h : isInert text = true) :
    isQuoteFree text = true := by
  rw [isQuoteFree_iff]
  rintro c hc rfl
  exact absurd (List.all_eq_true.mp h _ hc) (by decide)

theorem solid_of_isInert {text : String} (h : isInert text = true) :
    Solid (text.toList.map some) := by
  unfold isInert at h
  generalize text.toList = cs at h
  induction cs with
  | nil => exact .nil
  | cons c cs ih =>
    rw [List.all_cons, Bool.and_eq_true] at h
    have hc : some c ∉ [some '(', some ')', some '-', some '/'] := by
      intro hmem
      simp_all
    exact (Solid.singleton hc).append (ih h.2)

/-- A sign between spaces starts no comment. -/
theorem solid_surface (op : BinaryOperator) :
    Solid ((" " ++ op.surface ++ " ").toList.map some) := by
  have hspace : Solid [some ' '] := .singleton (by decide)
  have hsign {c : Char} (hopen : c ≠ '(') (hclose : c ≠ ')') : Solid [some ' ', some c, some ' '] :=
    hspace.append (hspace.cons hopen hclose (by simp) (by simp [Apart]))
  cases op with
  | sub => exact @hsign '-' (by decide) (by decide)
  | div => exact @hsign '/' (by decide) (by decide)
  | _ => exact solid_of_isInert (by decide)

/-! ### Reading parts -/

/-- A text is read as a mask wherever no quote follows: all of its literals are closed. -/
def Reads (text : String) (m : List (Option Char)) : Prop :=
  ∀ rest, rest.head? ≠ some '\'' →
    maskFrom false (text.toList ++ rest) = m ++ maskFrom false rest ∧
      closesFrom false (text.toList ++ rest) = closesFrom false rest

theorem closesFrom_of_no_quote {cs : List Char} (h : ∀ c ∈ cs, c ≠ '\'') (rest : List Char) :
    closesFrom false (cs ++ rest) = closesFrom false rest := by
  induction cs with
  | nil => rfl
  | cons c cs ih =>
    simp only [List.mem_cons, forall_eq_or_imp] at h
    have hc : c ≠ '\'' := h.1
    simp [closesFrom, ih h.2]

/-- A literal is closed at its closing quote, whatever it holds. -/
theorem closesFrom_doubleQuotes (content : List Char) {cs : List Char} (h : cs.head? ≠ some '\'') :
    closesFrom true (doubleQuotes content ++ '\'' :: cs) = closesFrom false cs := by
  induction content with
  | nil =>
    cases cs with
    | nil => rfl
    | cons c cs =>
      have hc : c ≠ '\'' := by simpa using h
      simp [doubleQuotes, closesFrom, hc]
  | cons c content ih =>
    by_cases hc : c = '\''
    · subst hc
      simpa [doubleQuotes, closesFrom] using ih
    · simpa [doubleQuotes, closesFrom, hc] using ih

namespace Reads

variable {a b t : String} {m m' : List (Option Char)}

theorem mask_eq (h : Reads a m) : mask a = m := by
  simpa [mask, maskFrom] using (h [] (by simp)).1

theorem of_isQuoteFree (ht : isQuoteFree t = true) : Reads t (t.toList.map some) :=
  fun rest _ => ⟨maskFrom_of_no_quote (isQuoteFree_iff.mp ht) rest,
    closesFrom_of_no_quote (isQuoteFree_iff.mp ht) rest⟩

theorem quoted (content : String) : Reads (Text.quoted content) [none] := by
  intro rest hrest
  simp only [Text.quoted, String.toList_ofList, List.cons_append, List.append_assoc,
    List.nil_append, maskFrom, closesFrom]
  exact ⟨congrArg (none :: ·) (maskFrom_doubleQuotes _ hrest), closesFrom_doubleQuotes _ hrest⟩

/-- Two parts, the second of which does not start with a quote. -/
theorem append (h : Reads a m) (h' : Reads b m') (hb : b.toList.head? ≠ some '\'') :
    Reads (a ++ b) (m ++ m') := by
  intro rest hrest
  have hhead : (b.toList ++ rest).head? ≠ some '\'' := by
    cases hcs : b.toList with
    | nil => exact hrest
    | cons c cs => rwa [hcs] at hb
  obtain ⟨hmask, hcloses⟩ := h _ hhead
  obtain ⟨hmask', hcloses'⟩ := h' rest hrest
  rw [String.toList_append, List.append_assoc, List.append_assoc, hmask, hcloses, hmask', hcloses']
  exact ⟨rfl, rfl⟩

/-- A text without quotes before a part, which may start with a quote. -/
theorem prepend (ht : isQuoteFree t = true) (h : Reads a m) :
    Reads (t ++ a) (t.toList.map some ++ m) := by
  intro rest hrest
  have hquote := isQuoteFree_iff.mp ht
  obtain ⟨hmask, hcloses⟩ := h rest hrest
  rw [String.toList_append, List.append_assoc, List.append_assoc, maskFrom_of_no_quote hquote,
    closesFrom_of_no_quote hquote, hmask, hcloses]
  exact ⟨rfl, rfl⟩

end Reads

/-- A part of a text: it closes its literals and may stand anywhere outside of others. -/
def IsPart (text : String) : Prop := ∃ m, Reads text m ∧ Solid m

/-- A part that is the whole text is safe. -/
theorem IsPart.lexicallySafe {text : String} (h : IsPart text) : LexicallySafe text := by
  obtain ⟨m, hreads, hsolid⟩ := h
  have hcloses := (hreads [] (by simp)).2
  have hpair {x y : Option Char} (hxy : ¬Apart x y) : ¬[x, y] <:+: m := by
    rintro ⟨before, after, hm⟩
    have hchain := hsolid.apart
    rw [← hm] at hchain
    have hinner := (List.isChain_append.mp (List.isChain_append.mp hchain).1).2.1
    exact hxy (List.isChain_pair.mp hinner)
  refine ⟨by simpa [closesFrom] using hcloses, ?_, ?_, ?_⟩
  · simpa [hreads.mask_eq, depthFrom] using hsolid.level 0 []
  · rw [hreads.mask_eq]
    exact hpair fun h => h.1 ⟨rfl, rfl⟩
  · rw [hreads.mask_eq]
    exact hpair fun h => h.2 ⟨rfl, rfl⟩

theorem isPart_of_isInert {text : String} (h : isInert text = true) : IsPart text :=
  ⟨_, .of_isQuoteFree (isQuoteFree_of_isInert h), solid_of_isInert h⟩

theorem isPart_quoted (content : String) : IsPart (quoted content) :=
  ⟨_, .quoted content, .singleton (by decide)⟩

namespace IsPart

variable {a b t : String}

theorem prepend (ht : isInert t = true) (h : IsPart a) : IsPart (t ++ a) := by
  obtain ⟨m, hreads, hsolid⟩ := h
  exact ⟨_, hreads.prepend (isQuoteFree_of_isInert ht), (solid_of_isInert ht).append hsolid⟩

theorem followedBy (h : IsPart a) (ht : isInert t = true) : IsPart (a ++ t) := by
  obtain ⟨m, hreads, hsolid⟩ := h
  have hquote := isQuoteFree_iff.mp (isQuoteFree_of_isInert ht)
  exact ⟨_, hreads.append (.of_isQuoteFree (isQuoteFree_of_isInert ht)) fun hhead =>
    hquote _ (List.mem_of_mem_head? hhead) rfl, hsolid.append (solid_of_isInert ht)⟩

theorem parens (h : IsPart a) : IsPart ("(" ++ a ++ ")") := by
  obtain ⟨m, hreads, hsolid⟩ := h
  have hclose : Reads ")" [some ')'] := .of_isQuoteFree (by decide)
  have hopen := (hreads.append hclose (by decide)).prepend (show isQuoteFree "(" = true by decide)
  rw [← String.append_assoc] at hopen
  exact ⟨_, hopen, hsolid.parens⟩

/-- A part in the parentheses of a call. -/
theorem call (ht : isInert t = true) (h : IsPart a) : IsPart (t ++ "(" ++ a ++ ")") := by
  have hcall := h.parens.prepend ht
  rwa [← String.append_assoc, ← String.append_assoc] at hcall

/-- A sign before a part that does not start with one. -/
theorem minus (h : IsPart a) (hne : a ≠ "") (hhead : a.toList.head? ≠ some '-') :
    IsPart ("-" ++ a) := by
  obtain ⟨m, hreads, hsolid⟩ := h
  have hfirst : ∃ x rest, m = x :: rest ∧ x ≠ some '-' := by
    rw [← hreads.mask_eq, mask]
    cases hcs : a.toList with
    | nil => exact absurd (String.toList_eq_nil_iff.mp hcs) hne
    | cons c cs =>
      have hc : c ≠ '-' := by simpa [hcs] using hhead
      by_cases hquote : c = '\''
      · subst hquote
        exact ⟨none, maskFrom true cs, rfl, by decide⟩
      · exact ⟨some c, maskFrom false cs, by simp [maskFrom], by simpa using hc⟩
  obtain ⟨x, rest, rfl, hx⟩ := hfirst
  have hapart : ∀ y ∈ (x :: rest).head?, Apart (some '-') y := by
    intro y hy
    cases hy
    exact ⟨fun h => hx h.2, fun h => absurd h.1 (by decide)⟩
  exact ⟨_, hreads.prepend (show isQuoteFree "-" = true by decide),
    hsolid.cons (by decide) (by decide) (List.cons_ne_nil x rest) hapart⟩

/-- Two parts with a text between them. -/
theorem around (h : IsPart a) (hquote : isQuoteFree t = true) (ht : Solid (t.toList.map some))
    (hne : t ≠ "") (h' : IsPart b) : IsPart (a ++ t ++ b) := by
  obtain ⟨m, hreads, hsolid⟩ := h
  obtain ⟨m', hreads', hsolid'⟩ := h'
  have hhead : (t ++ b).toList.head? ≠ some '\'' := by
    cases hcs : t.toList with
    | nil => exact absurd (String.toList_eq_nil_iff.mp hcs) hne
    | cons c cs =>
      have hc : c ≠ '\'' := isQuoteFree_iff.mp hquote c (by simp [hcs])
      simpa [hcs] using hc
  rw [String.append_assoc]
  exact ⟨_, hreads.append (hreads'.prepend hquote) hhead, hsolid.append (ht.append hsolid')⟩

/-- Parts in a list, with a text between one and the next. -/
theorem intercalate {texts : List String} (ht : isInert t = true) (hne : t ≠ "")
    (h : ∀ text ∈ texts, IsPart text) : IsPart (t.intercalate texts) := by
  induction texts with
  | nil =>
    rw [String.intercalate_nil]
    exact isPart_of_isInert (by decide)
  | cons text rest ih =>
    simp only [List.mem_cons, forall_eq_or_imp] at h
    cases rest with
    | nil => simpa using h.1
    | cons next rest =>
      rw [String.intercalate_cons_cons]
      exact h.1.around (isQuoteFree_of_isInert ht) (solid_of_isInert ht) hne (ih h.2)

end IsPart

/-! ### Numerals, names and literals -/

theorem isInert_of_all {text : String} {test : Char → Bool}
    (hmarks : "'()-/".toList.all (fun c => !test c) = true) (h : ∀ c ∈ text.toList, test c = true) :
    isInert text = true := by
  refine List.all_eq_true.mpr fun c hc => ?_
  rw [Bool.not_eq_true', ← Bool.not_eq_true, List.contains_iff_mem]
  intro hmem
  simpa [h c hc] using List.all_eq_true.mp hmarks c hmem

theorem isInert_of_isPlainName {name : String} (h : isPlainName name = true) :
    isInert name = true := by
  simp only [isPlainName, Bool.and_eq_true, List.all_eq_true] at h
  exact isInert_of_all (by decide) h.2

theorem isInert_of_isNumeral {text : String} (h : isNumeral text.toList = true) :
    isInert text = true := by
  simp only [isNumeral, Bool.and_eq_true, List.all_eq_true] at h
  exact isInert_of_all (by decide) h.2

/-- A sign before a numeral is followed by a digit. -/
theorem isPart_of_isSignedNumeral {text : String} (h : isSignedNumeral text.toList = true) :
    IsPart text := by
  unfold isSignedNumeral at h
  split at h
  · next cs hcs =>
    have htext : text = "-" ++ String.ofList cs := by
      apply String.toList_injective
      simp [hcs]
    have hnumeral : isNumeral (String.ofList cs).toList = true := by rwa [String.toList_ofList]
    have hdigit : cs.head?.any Char.isDigit = true := (Bool.and_eq_true_iff.mp h).1
    rw [htext]
    refine (isPart_of_isInert (isInert_of_isNumeral hnumeral)).minus ?_ ?_
    · rintro hempty
      simp [String.ofList_eq_empty_iff.mp hempty] at hdigit
    · intro hhead
      rw [String.toList_ofList] at hhead
      simp [hhead] at hdigit
  · exact isPart_of_isInert (isInert_of_isNumeral h)

theorem isPart_of_isWritten {text : String} (h : LiteralValue.IsWritten text) : IsPart text := by
  have hwords : ["NULL", "true", "false"].all isInert = true := by decide
  have hmarks : LiteralValue.marks.all (fun m => isInert m.1 && isInert m.2) = true := by decide
  cases h with
  | word hmem => exact isPart_of_isInert (List.all_eq_true.mp hwords text hmem)
  | numeral hnumeral => exact isPart_of_isSignedNumeral hnumeral
  | quoted content hmem =>
    have hm := List.all_eq_true.mp hmarks _ hmem
    rw [Bool.and_eq_true] at hm
    exact ((isPart_quoted content).prepend hm.1).followedBy hm.2

theorem ne_empty_of_isWritten {text : String} (h : LiteralValue.IsWritten text) : text ≠ "" := by
  rintro rfl
  generalize hempty : "" = text at h
  cases h with
  | word hmem => exact absurd (hempty ▸ hmem) (by decide)
  | numeral hnumeral => exact absurd (hempty ▸ hnumeral) (by decide)
  | quoted content _ => simp [quoted] at hempty

end Text

/-! ### Forms -/

namespace Jpql

open Text

theorem IsPath.isInert_text {j : Jpql} (h : j.IsPath isPlainName) : isInert j.text = true := by
  induction h with
  | property hq hn =>
    rw [text, isInert_append, isInert_append, isInert_of_isPlainName hq, isInert_of_isPlainName hn]
    decide
  | member _ hn ih =>
    rw [text, isInert_append, isInert_append, ih, isInert_of_isPlainName hn]
    decide

theorem Tidy.text_ne_empty {test : String → Bool} {j : Jpql} (h : j.Tidy test) : j.text ≠ "" := by
  cases h with
  | literal hl => exact ne_empty_of_isWritten (LiteralValue.isWritten_text hl)
  | path h => cases h <;> simp [text]
  | _ => simp [text]

/-- The text of a tidy form is a part of a text. The induction is on the form; only a sign before an
operand asks for more than that the operand is a part itself. -/
theorem Tidy.isPart_text {j : Jpql} (h : j.Tidy isPlainName) : IsPart j.text := by
  induction h with
  | literal hl => exact isPart_of_isWritten (LiteralValue.isWritten_text hl)
  | path h => exact isPart_of_isInert h.isInert_text
  | not _ ih => exact @IsPart.call _ "NOT" (by decide) ih
  | negate hs h ih => exact ih.minus h.text_ne_empty (by simpa [startsWithMinus] using hs)
  | @binary op left right _ _ _ ihl ihr =>
    have hquote : isQuoteFree (" " ++ op.surface ++ " ") = true := by cases op <;> decide
    have htext : (Jpql.binary op left right).text = left.text ++ (" " ++ op.surface ++ " ") ++
        right.text := by
      simp only [text, String.append_assoc]
    rw [htext]
    exact ihl.around hquote (solid_surface op) (by simp) ihr
  | isNull _ ih => exact ih.followedBy (by decide)
  | isNotNull _ ih => exact ih.followedBy (by decide)
  | @call name arguments hn _ ih =>
    have hnames : functionNames.all isInert = true := by decide
    rw [text, texts_eq_map]
    refine .call (List.all_eq_true.mp hnames name hn)
      (.intercalate (by decide) (by decide) fun t ht => ?_)
    obtain ⟨j, hj, rfl⟩ := List.mem_map.mp ht
    exact ih j hj
  | @extract field operand hf _ ih =>
    have hnames : fieldNames.all (fun field => isInert (field ++ " FROM ")) = true := by decide
    have htext : (Jpql.extract field operand).text =
        "EXTRACT" ++ "(" ++ (field ++ " FROM " ++ operand.text) ++ ")" := by
      apply String.toList_injective
      simp [text]
    rw [htext]
    exact .call (by decide) (ih.prepend (List.all_eq_true.mp hnames field hf))
  | paren _ ih => exact ih.parens

end Jpql

/-- The text of an expression that was read is safe: its literals are closed, and outside of them
the parentheses are balanced and no comment starts. -/
theorem translate_lexicallySafe {model : Model} {entityType : EntityType} {input qualifier : String}
    {e : Expr} (h : parseExpression model entityType input = .ok e)
    (htype : e.type.isStructural = false)
    (hqualifier : Text.isPlainName qualifier = true)
    (hnames : ∀ name ∈ e.internalNames, Text.isPlainName name = true) :
    ∃ text, translate qualifier e = .ok text ∧ Text.LexicallySafe text := by
  obtain ⟨j, hj, htidy⟩ := (resolved_of_parseExpression h).exists_form_of_names hnames hqualifier
  exact ⟨j.text, by simp [translate, htype, hj, Except.map], htidy.isPart_text.lexicallySafe⟩

/-- Signs before a sign, a numeral and a parenthesis, and what would open comments and parentheses
in strings. -/
theorem translate_lexicallySafe_signs : ∃ e text,
    parseExpression leagueModel sampleType "-(-home) sub -1 gt 0 and concat('--', '(''/*') ne '-'" =
      .ok e ∧
    e.type.isStructural = false ∧ (∀ name ∈ e.internalNames, Text.isPlainName name = true) ∧
    translate "E1" e = .ok text ∧ text = "-(-E1.goals) - -1 > 0 AND CONCAT('--', '(''/*') <> '-'" ∧
    Text.LexicallySafe text := by
  obtain ⟨e, he, htest⟩ := @exists_ok_of_any _ _
    (parseExpression leagueModel sampleType "-(-home) sub -1 gt 0 and concat('--', '(''/*') ne '-'")
    (fun e => !e.type.isStructural && e.internalNames.all Text.isPlainName &&
      (translate "E1" e).toOption == some "-(-E1.goals) - -1 > 0 AND CONCAT('--', '(''/*') <> '-'")
    (by decide +kernel)
  simp only [Bool.and_eq_true, Bool.not_eq_true', List.all_eq_true, beq_iff_eq] at htest
  obtain ⟨⟨htype, hnames⟩, htext⟩ := htest
  have hqualifier : Text.isPlainName "E1" = true := by decide
  obtain ⟨text, htranslate, hsafe⟩ := translate_lexicallySafe he htype hqualifier hnames
  rw [htranslate] at htext
  exact ⟨e, text, he, htype, hnames, htranslate, Option.some.inj htext, hsafe⟩

end EntityQuery
