import EntityQuery.Proofs.Jpql.Clauses
import EntityQuery.Proofs.Jpql.Forms
import EntityQuery.Proofs.Jpql.Spelling

/-!
# The open words of forms

The text of every form is cut into balanced words. Of the keywords that divide statements and
conditions, only `AND` and `OR` stand open in it, and only where the form has them as operators
outside of parentheses. The form of an expression has an open `OR` only if the expression is a
disjunction.
-/

namespace EntityQuery.Jpql

/-! ### Marks -/

/-- Whether a word is one of the keywords that divide statements and conditions. -/
def Word.isMark (w : Word) : Bool :=
  ["WHERE", "ORDER", "AND", "OR"].any fun keyword => w.isKeyword keyword

/-- A word with something other than a letter in it is no keyword. -/
theorem Word.isMark_of_mem {w : Word} {c : Char} (hc : c ∈ w.text.toList) (ha : c.isAlpha = false) :
    w.isMark = false := by
  have hlower : c.toLower = c := by
    refine dif_neg fun hupper => ?_
    rw [Text.isAlpha_iff.mpr (.inl hupper)] at ha
    cases ha
  have hkeyword {keyword : String} (h : (keyword.toList.map Char.toLower).all Char.isAlpha = true) :
      w.isKeyword keyword = false := by
    rw [isKeyword, Text.equalIgnoringCase, beq_eq_false_iff_ne]
    intro heq
    have hmem : c ∈ keyword.toList.map Char.toLower := by
      rw [← heq, ← hlower]
      exact List.mem_map_of_mem hc
    rw [List.all_eq_true.mp h c hmem] at ha
    cases ha
  simp [isMark, hkeyword]

/-- The only marks that are open among the words are certain operators. -/
def MarksIn (allowed : BinaryOperator → Bool) (ws : List Word) : Prop :=
  ∀ w ∈ openWords ws, w.isMark = true → ∃ op, w = .operator op ∧ allowed op = true

namespace MarksIn

variable {allowed : BinaryOperator → Bool} {ws vs : List Word}

theorem nil : MarksIn allowed [] := fun _ hw => absurd hw List.not_mem_nil

theorem append (hb : Balanced ws) (h : MarksIn allowed ws) (h' : MarksIn allowed vs) :
    MarksIn allowed (ws ++ vs) := by
  intro w hw
  rw [hb.openWords_append, List.mem_append] at hw
  exact hw.elim (h w) (h' w)

theorem cons {w : Word} (ho : w ≠ .openParen) (hc : w ≠ .closeParen)
    (hw : w.isMark = true → ∃ op, w = .operator op ∧ allowed op = true) (h : MarksIn allowed ws) :
    MarksIn allowed (w :: ws) := by
  rw [MarksIn, Balanced.openWords_cons ho hc, List.forall_mem_cons]
  exact ⟨hw, h⟩

/-- A word that is no mark. -/
theorem word {w : Word} (ho : w ≠ .openParen) (hc : w ≠ .closeParen) (hw : w.isMark = false)
    (h : MarksIn allowed ws) : MarksIn allowed (w :: ws) :=
  .cons ho hc (fun hmark => absurd hmark (by simp [hw])) h

/-- No mark within parentheses is open. -/
theorem group (hb : Balanced ws) : MarksIn allowed (.openParen :: (ws ++ [.closeParen])) := by
  intro w hw hmark
  rw [hb.openWords_group, List.mem_singleton] at hw
  subst hw
  exact absurd hmark (by decide)

/-- A keyword that none of the operators is does not stand open. -/
theorem isKeyword (h : MarksIn allowed ws) {keyword : String}
    (hk : keyword ∈ ["WHERE", "ORDER", "AND", "OR"])
    (hop : ∀ op, allowed op = true → (Word.operator op).isKeyword keyword = false) :
    ∀ w ∈ openWords ws, w.isKeyword keyword = false := by
  intro w hw
  cases hkeyword : w.isKeyword keyword with
  | false => rfl
  | true =>
    have hmark : w.isMark = true := List.any_eq_true.mpr ⟨keyword, hk, hkeyword⟩
    obtain ⟨op, rfl, hallowed⟩ := h w hw hmark
    rw [hop op hallowed] at hkeyword
    cases hkeyword

theorem mono {allowed' : BinaryOperator → Bool} (h : MarksIn allowed ws)
    (himp : ∀ op, allowed op = true → allowed' op = true) : MarksIn allowed' ws := by
  intro w hw hmark
  obtain ⟨op, hop, hallowed⟩ := h w hw hmark
  exact ⟨op, hop, himp op hallowed⟩

end MarksIn

/-! ### Literals -/

/-- The words of a literal's text are balanced and have no marks, if neither the text nor what
follows a minus sign in it consists of letters. -/
private theorem marksIn_ofText {text : String} {allowed : BinaryOperator → Bool}
    (h : ∀ cs, text.toList = cs ∨ text.toList = '-' :: cs → ∃ c ∈ cs, c.isAlpha = false) :
    Balanced (Phrase.ofText text).words ∧ MarksIn allowed (Phrase.ofText text).words := by
  unfold Phrase.ofText
  split
  · next cs hcs =>
    obtain ⟨c, hc, ha⟩ := h cs (.inr hcs)
    have hmark : (Word.literal (String.ofList cs)).isMark = false :=
      Word.isMark_of_mem (by simpa [Word.text] using hc) ha
    exact ⟨.cons nofun nofun (.cons nofun nofun .nil),
      .word nofun nofun (by decide) (.word nofun nofun hmark .nil)⟩
  · obtain ⟨c, hc, ha⟩ := h _ (.inl rfl)
    have hmark : (Word.literal text).isMark = false := Word.isMark_of_mem hc ha
    exact ⟨.cons nofun nofun .nil, .word nofun nofun hmark .nil⟩

private theorem marksIn_signedNumeral {text : String} {allowed : BinaryOperator → Bool}
    (h : Text.isSignedNumeral text.toList = true) :
    Balanced (Phrase.ofText text).words ∧ MarksIn allowed (Phrase.ofText text).words := by
  have hdigit {cs : List Char} (h : Text.isNumeral cs = true) : ∃ c ∈ cs, c.isAlpha = false := by
    cases cs with
    | nil => cases h
    | cons c cs =>
      simp only [Text.isNumeral, List.head?_cons, Option.any_some, Bool.and_eq_true] at h
      exact ⟨c, List.mem_cons_self, Text.isAlpha_of_isDigit h.1⟩
  apply marksIn_ofText
  intro cs hcs
  unfold Text.isSignedNumeral at h
  split at h
  · next ds hds =>
    rcases hcs with hcs | hcs
    · rw [hds] at hcs
      exact ⟨'-', by simp [← hcs], by decide⟩
    · rw [hds] at hcs
      cases hcs
      exact hdigit h
  · next hsign =>
    rcases hcs with hcs | hcs
    · exact hcs ▸ hdigit h
    · exact absurd hcs (hsign cs)

private theorem marksIn_of_head {text : String} {allowed : BinaryOperator → Bool} {c : Char}
    (hhead : text.toList.head? ≠ some '-') (hc : c ∈ text.toList) (ha : c.isAlpha = false) :
    Balanced (Phrase.ofText text).words ∧ MarksIn allowed (Phrase.ofText text).words := by
  apply marksIn_ofText
  rintro cs (rfl | hcs)
  · exact ⟨c, hc, ha⟩
  · simp [hcs] at hhead

private theorem marksIn_value {v : LiteralValue} {allowed : BinaryOperator → Bool} (hv : v ≠ .null)
    (h : v.isWellFormed = true) :
    Balanced (Phrase.ofText v.text).words ∧ MarksIn allowed (Phrase.ofText v.text).words := by
  cases v with
  | null => exact absurd rfl hv
  | boolean b =>
    cases b with
    | true => exact ⟨.cons nofun nofun .nil, .word nofun nofun (by decide) .nil⟩
    | false => exact ⟨.cons nofun nofun .nil, .word nofun nofun (by decide) .nil⟩
  | integer n => exact marksIn_signedNumeral (Text.isSignedNumeral_integerText n)
  | decimal text => exact marksIn_signedNumeral h
  | float x => exact marksIn_signedNumeral x.isSignedNumeral_text
  | string _ | binary _ | dateTime _ | dateTimeOffset _ | time _ | guid _ =>
    -- All of these have a quote in their texts.
    exact @marksIn_of_head _ _ '\'' (by simp [LiteralValue.text, Text.quoted])
      (by simp [LiteralValue.text, Text.quoted]) (by decide)

private theorem exists_cuts_literal {l : Literal} (h : l.value.isWellFormed = true)
    (allowed : BinaryOperator → Bool) : ∃ ws, Cuts l.text ws ∧ MarksIn allowed ws := by
  have hspells := spells_literal h
  by_cases hv : l.value = .null
  · obtain ⟨type, value⟩ := l
    obtain rfl : value = .null := hv
    exact ⟨[.null], ⟨hspells, .cons nofun nofun .nil⟩, .word nofun nofun (by decide) .nil⟩
  · rw [Phrase.ofLiteral_of_ne_null hv] at hspells
    obtain ⟨hbalanced, hmarks⟩ := @marksIn_value _ allowed hv h
    exact ⟨_, ⟨hspells, hbalanced⟩, hmarks⟩

/-! ### Forms -/

/-- Whether an operator stands outside of parentheses in the text of a form. -/
def opens (op : BinaryOperator) : Jpql → Bool
  | .negate operand => operand.opens op
  | .binary inner left right => inner == op || left.opens op || right.opens op
  | .isNull operand => operand.opens op
  | .isNotNull operand => operand.opens op
  | _ => false

theorem isPathRun_of_isPath {j : Jpql} (h : j.IsPath Text.isPlainName) :
    IsPathRun j.text.toList := by
  induction h with
  | @property qualifier name hq hn =>
    have htext : (Jpql.property qualifier name).text.toList =
        qualifier.toList ++ '.' :: name.toList := by
      simp [text]
    have hrun := isRunPart_of_plain hq
    simp only [Text.isPlainName, Bool.and_eq_true] at hq
    rw [htext]
    exact isPathRun_append hq.1 hrun hn
  | @member base name _ hn ih =>
    have htext : (Jpql.member base name).text.toList = base.text.toList ++ '.' :: name.toList := by
      simp [text]
    rw [htext]
    exact isPathRun_append ih.1 ih.2.2 hn

/-- Texts one after the other, with commas between them. -/
theorem exists_cuts_intercalate {texts : List String} {allowed : BinaryOperator → Bool}
    (h : ∀ t ∈ texts, ∃ ws, Cuts t ws ∧ MarksIn allowed ws) :
    ∃ ws, Cuts (", ".intercalate texts) ws ∧ MarksIn allowed ws := by
  induction texts with
  | nil => exact ⟨[], .nil, .nil⟩
  | cons t rest ih =>
    rw [List.forall_mem_cons] at h
    obtain ⟨⟨ws, hcuts, hmarks⟩, hrest⟩ := h
    cases rest with
    | nil => exact ⟨ws, by simpa using hcuts, hmarks⟩
    | cons u rest =>
      obtain ⟨vs, hcuts', hmarks'⟩ := ih hrest
      rw [String.intercalate_cons_cons]
      exact ⟨_, hcuts.comma hcuts',
        .append hcuts.balanced hmarks (.word nofun nofun (by decide) hmarks')⟩

/-- Conditions that all must hold are divided by `AND` and by nothing that does not divide one of
them. -/
theorem cuts_conjunction {texts : List String} {allowed : BinaryOperator → Bool}
    (ha : allowed .and = true) (h : ∀ t ∈ texts, Cuts t (wordsOf t) ∧ MarksIn allowed (wordsOf t)) :
    Cuts (" AND ".intercalate texts) ([.operator .and].intercalate (texts.map wordsOf)) ∧
      MarksIn allowed ([.operator .and].intercalate (texts.map wordsOf)) := by
  induction texts with
  | nil => exact ⟨.nil, .nil⟩
  | cons t rest ih =>
    rw [List.forall_mem_cons] at h
    obtain ⟨⟨hcuts, hmarks⟩, hrest⟩ := h
    cases rest with
    | nil => exact ⟨by simpa using hcuts, by simpa using hmarks⟩
    | cons u rest =>
      obtain ⟨hcuts', hmarks'⟩ := ih hrest
      have hand : Cuts "AND" [.operator .and] := .keyword (by decide) (by decide) rfl
      have htext : t ++ " AND " ++ " AND ".intercalate (u :: rest) =
          t ++ " " ++ "AND" ++ " " ++ " AND ".intercalate (u :: rest) := by
        apply String.toList_injective
        simp
      rw [String.intercalate_cons_cons, htext, List.map_cons,
        List.intercalate_cons_of_ne_nil (by simp)]
      refine ⟨(hcuts.blank hand).blank hcuts', ?_⟩
      rw [List.append_assoc]
      exact .append hcuts.balanced hmarks (.cons nofun nofun (fun _ => ⟨.and, rfl, ha⟩) hmarks')

/-- A name of letters that is neither empty nor a mark. -/
private def isFunctionName (name : String) : Bool :=
  !name.toList.isEmpty && name.toList.all Word.isRunPart && !(Word.ofRun name.toList).isMark

private theorem isFunctionName_fieldNames : fieldNames.all isFunctionName = true := by
  decide

private theorem isFunctionName_functionNames : functionNames.all isFunctionName = true := by
  decide

/-- A function, or what looks like one, before something in parentheses. -/
private theorem cuts_function {name a : String} (hn : isFunctionName name = true) {ws : List Word}
    (hcuts : Cuts a ws) :
    Cuts (name ++ "(" ++ a ++ ")")
      (Word.ofRun name.toList :: .openParen :: (ws ++ [.closeParen])) := by
  simp only [isFunctionName, Bool.and_eq_true, Bool.not_eq_true', List.all_eq_true] at hn
  exact .call (by simpa using hn.1.1) hn.1.2 hcuts

private theorem marksIn_function {name : String} (hn : isFunctionName name = true)
    {allowed : BinaryOperator → Bool} {ws : List Word} (hb : Balanced ws) :
    MarksIn allowed (Word.ofRun name.toList :: .openParen :: (ws ++ [.closeParen])) := by
  simp only [isFunctionName, Bool.and_eq_true, Bool.not_eq_true'] at hn
  obtain ⟨ho, hc⟩ := Word.ofRun_ne_paren name.toList
  exact .word ho hc hn.2 (.group hb)

/-- The words of a call: the function, and the words of the arguments in parentheses. -/
theorem exists_cuts_call {name : String} {arguments : List Jpql} (hn : name ∈ functionNames)
    (h : ∀ j ∈ arguments, ∃ ws, Cuts j.text ws ∧ MarksIn (j.opens ·) ws) :
    ∃ ws, Balanced ws ∧ Cuts (Jpql.call name arguments).text
      (Word.ofRun name.toList :: .openParen :: (ws ++ [.closeParen])) := by
  have htexts : ∀ t ∈ texts arguments, ∃ ws, Cuts t ws ∧ MarksIn (fun _ => true) ws := by
    intro t ht
    rw [texts_eq_map] at ht
    obtain ⟨j, hj, rfl⟩ := List.mem_map.mp ht
    obtain ⟨ws, hcuts, hmarks⟩ := h j hj
    exact ⟨ws, hcuts, hmarks.mono fun _ _ => rfl⟩
  obtain ⟨ws, hcuts, _⟩ := exists_cuts_intercalate htexts
  have hname := List.all_eq_true.mp isFunctionName_functionNames name hn
  exact ⟨ws, hcuts.balanced, cuts_function hname hcuts⟩

/-- The words of a field of a date or a time. -/
theorem exists_cuts_extract {field : String} {operand : Jpql} (hf : field ∈ fieldNames)
    {ws : List Word} (h : Cuts operand.text ws) :
    ∃ vs, Balanced vs ∧ Cuts (Jpql.extract field operand).text
      (.literal "EXTRACT" :: .openParen :: (vs ++ [.closeParen])) := by
  have hfield : Cuts field [Word.ofRun field.toList] := by
    have hok := List.all_eq_true.mp isFunctionName_fieldNames field hf
    simp only [isFunctionName, Bool.and_eq_true, Bool.not_eq_true', List.all_eq_true] at hok
    exact .run (by simpa using hok.1.1) hok.1.2
  have hfrom : Cuts "FROM" [.literal "FROM"] := .keyword (by decide) (by decide) rfl
  have hinner := (hfield.blank hfrom).blank h
  have hcuts := @cuts_function "EXTRACT" _ (by decide) _ hinner
  have htext : "EXTRACT" ++ "(" ++ (field ++ " " ++ "FROM" ++ " " ++ operand.text) ++ ")" =
      (Jpql.extract field operand).text := by
    apply String.toList_injective
    simp [text]
  rw [htext] at hcuts
  exact ⟨_, hinner.balanced, hcuts⟩

/-- A null test behind a text. -/
private theorem Cuts.nullTest {a test : String} {ws tail : List Word}
    {allowed : BinaryOperator → Bool} (ha : Cuts a ws) (hm : MarksIn allowed ws)
    (ht : Cuts test tail) (hm' : MarksIn allowed tail) :
    ∃ ws, Cuts (a ++ (" " ++ test)) ws ∧ MarksIn allowed ws := by
  rw [← String.append_assoc]
  exact ⟨_, ha.blank ht, .append ha.balanced hm hm'⟩

/-- The text of a form is cut into balanced words, and only operators outside of parentheses divide
it. -/
theorem Tidy.exists_cuts {j : Jpql} (h : j.Tidy Text.isPlainName) :
    ∃ ws, Cuts j.text ws ∧ MarksIn (j.opens ·) ws := by
  have his : Cuts "IS" [.is] := .keyword (by decide) (by decide) rfl
  have hnot : Cuts "NOT" [.not] := .keyword (by decide) (by decide) rfl
  have hnull : Cuts "NULL" [.null] := .keyword (by decide) (by decide) rfl
  induction h with
  | literal hl => exact exists_cuts_literal hl _
  | @path j h =>
    obtain ⟨hstart, hdot, hrun⟩ := isPathRun_of_isPath h
    have hspells := spells_path hstart hdot hrun
    rw [String.ofList_toList] at hspells
    have hmark : (Word.path j.text).isMark = false := Word.isMark_of_mem hdot (by decide)
    exact ⟨_, ⟨hspells, .cons nofun nofun .nil⟩, .word nofun nofun hmark .nil⟩
  | not _ ih =>
    obtain ⟨ws, hcuts, _⟩ := ih
    have hname : isFunctionName "NOT" = true := by decide
    exact ⟨_, cuts_function hname hcuts, marksIn_function hname hcuts.balanced⟩
  | negate _ _ ih =>
    obtain ⟨ws, hcuts, hmarks⟩ := ih
    exact ⟨_, hcuts.minus, .word nofun nofun (by decide) hmarks⟩
  | @binary op left right hop _ _ ihl ihr =>
    -- Operands stand without parentheses here, so what they open is open.
    obtain ⟨ws, hl, hmarksl⟩ := ihl
    obtain ⟨vs, hr, hmarksr⟩ := ihr
    have hsign : Cuts op.surface [.operator op] := ⟨spells_surface hop, .cons nofun nofun .nil⟩
    refine ⟨_, (hl.blank hsign).blank hr, ?_⟩
    rw [List.append_assoc]
    refine .append hl.balanced (hmarksl.mono fun _ h => by simp [opens, h]) ?_
    exact .cons nofun nofun (fun _ => ⟨op, rfl, by simp [opens]⟩)
      (hmarksr.mono fun _ h => by simp [opens, h])
  | isNull _ ih =>
    obtain ⟨ws, hcuts, hmarks⟩ := ih
    have htest : Cuts "IS NULL" [.is, .null] := his.blank hnull
    exact hcuts.nullTest hmarks htest
      (.word nofun nofun (by decide) (.word nofun nofun (by decide) .nil))
  | isNotNull _ ih =>
    obtain ⟨ws, hcuts, hmarks⟩ := ih
    have htest : Cuts "IS NOT NULL" [.is, .not, .null] := (his.blank hnot).blank hnull
    exact hcuts.nullTest hmarks htest (.word nofun nofun (by decide)
      (.word nofun nofun (by decide) (.word nofun nofun (by decide) .nil)))
  | @call name arguments hn _ ih =>
    obtain ⟨ws, hb, hcuts⟩ := exists_cuts_call hn ih
    have hname := List.all_eq_true.mp isFunctionName_functionNames name hn
    exact ⟨_, hcuts, marksIn_function hname hb⟩
  | extract hf _ ih =>
    obtain ⟨ws, hcuts, _⟩ := ih
    obtain ⟨vs, hb, hvs⟩ := exists_cuts_extract hf hcuts
    exact ⟨_, hvs, @marksIn_function "EXTRACT" (by decide) _ _ hb⟩
  | paren _ ih =>
    obtain ⟨ws, hcuts, _⟩ := ih
    exact ⟨_, hcuts.paren, .group hcuts.balanced⟩

/-! ### Disjunctions -/

theorem strength_of_isDisjunction {e : Expr} (h : e.isDisjunction = true) : e.strength = 1 := by
  unfold Expr.isDisjunction at h
  split at h
  · rfl
  · cases h

/-- An operand has no open `OR` if a disjunction would be put in parentheses. -/
private theorem opens_parenIf {e : Expr} {j : Jpql} {needed : Bool}
    (h : e.isDisjunction = false → j.opens .or = false)
    (hn : e.isDisjunction = true → needed = true) :
    (j.parenIf needed).opens .or = false := by
  cases needed with
  | true => rfl
  | false =>
    apply h
    cases hd : e.isDisjunction with
    | true => cases hn hd
    | false => rfl

private theorem opens_nullTest {op : BinaryOperator} {j : Jpql} (h : j.opens .or = false) :
    (nullTest op j).opens .or = false := by
  unfold nullTest
  split
  · exact h
  · exact h

private theorem needsParen_of_isDisjunction {op : BinaryOperator} (hop : op ≠ .or) {isRight : Bool}
    {e : Expr} (h : e.isDisjunction = true) : e.needsParen op isRight = true := by
  have hlt : e.strength < op.strength := by
    rw [strength_of_isDisjunction h]
    cases op with
    | or => exact absurd rfl hop
    | _ => decide
  rw [Expr.needsParen, if_pos hlt]

private theorem opens_ofMethod? {method : Method} {arguments : List Jpql} {j : Jpql}
    (h : ofMethod? method arguments = some j) (op : BinaryOperator) : j.opens op = false := by
  unfold ofMethod? at h
  split at h
  all_goals
    cases h
  all_goals rfl

/-- The form of an expression has an open `OR` only if the expression is a disjunction. -/
theorem opens_or_of_ofExpr {qualifier : String} : (e : Expr) → {j : Jpql} →
    ofExpr qualifier e = .ok j → e.isDisjunction = false → j.opens .or = false
  | .literal _ _, _, h, _ => by
    cases h
    rfl
  | .property _ _, _, h, _ => by
    cases h
    rfl
  | .member _ path target, _, h, _ => by
    cases target with
    | property _ ref =>
      rw [ofExpr] at h
      obtain ⟨base, _, rfl⟩ := map_eq_ok_iff.mp h
      rfl
    | _ => cases h
  | .unary _ .not operand, _, h, _ => by
    rw [ofExpr] at h
    obtain ⟨inner, _, rfl⟩ := map_eq_ok_iff.mp h
    rfl
  | .unary _ .negate operand, _, h, _ => by
    rw [ofExpr] at h
    obtain ⟨inner, hinner, rfl⟩ := map_eq_ok_iff.mp h
    refine opens_parenIf (opens_or_of_ofExpr operand hinner) fun hd => ?_
    rw [strength_of_isDisjunction hd]
    rfl
  | .binary note op left right, _, h, hd => by
    have hop : op ≠ .or := by
      rintro rfl
      cases hd
    rw [ofExpr, OperatorTable.isNone_get?_standard, Bool.and_false, if_neg Bool.false_ne_true] at h
    split at h
    · obtain ⟨inner, hinner, rfl⟩ := map_eq_ok_iff.mp h
      refine opens_nullTest (opens_parenIf (opens_or_of_ofExpr left hinner) fun hd => ?_)
      rw [strength_of_isDisjunction hd]
      rfl
    · split at h
      · obtain ⟨inner, hinner, rfl⟩ := map_eq_ok_iff.mp h
        refine opens_nullTest (opens_parenIf (opens_or_of_ofExpr right hinner) fun hd => ?_)
        rw [strength_of_isDisjunction hd]
        rfl
      · split at h
        · cases h
        · cases h
        · next l r hl hr =>
          split at h
          · cases h
            rfl
          · cases h
            have hleft := opens_parenIf (opens_or_of_ofExpr left hl)
              (@needsParen_of_isDisjunction op hop false left)
            have hright := opens_parenIf (opens_or_of_ofExpr right hr)
              (@needsParen_of_isDisjunction op hop true right)
            simp [opens, hop, hleft, hright]
  | .call _ method arguments, _, h, _ => by
    rw [ofExpr] at h
    split at h
    · cases h
    · split at h
      · next found =>
        cases h
        exact opens_ofMethod? found _
      · cases h

end EntityQuery.Jpql
