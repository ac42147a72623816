import EntityQuery.Expr.Parser
import EntityQuery.Proofs.Jpql.Regrouping
import EntityQuery.Proofs.Operator.Resolution
import EntityQuery.Proofs.Token.Literals

/-!
# The words of rendered expressions

For every expression without calls, the phrase that its JPQL form spells, with a group wherever the
text has parentheses. The main result: the expression has a JPQL form, and its text is cut into the
words of this phrase.
-/

namespace EntityQuery

/-! ### Literals -/

namespace Jpql.Phrase

/-- The phrase of a literal's text; a minus sign is no part of the literal. -/
def ofText (text : String) : Phrase :=
  match text.toList with
  | '-' :: cs => .negate (.literal (String.ofList cs))
  | _ => .literal text

/-- The phrase of a literal. -/
def ofLiteral (l : Literal) : Phrase := if l.isNull then .null else ofText l.text

theorem ofText_of_head {text : String} (h : text.toList.head? ≠ some '-') :
    ofText text = .literal text := by
  unfold ofText
  split
  · next cs hcs => simp [hcs] at h
  · rfl

end Jpql.Phrase

namespace Jpql

theorem spells_signedNumeral {text : String} (h : Text.isSignedNumeral text.toList = true) :
    Spells text.toList (Phrase.ofText text).words := by
  unfold Phrase.ofText
  split
  · next cs hcs =>
    rw [hcs] at h ⊢
    exact (spells_numeral h).minus
  · next hcs =>
    unfold Text.isSignedNumeral at h
    split at h
    · next cs hcs' => exact absurd hcs' (hcs cs)
    · have hspells := spells_numeral h
      rw [String.ofList_toList] at hspells
      exact hspells

private theorem spells_ofText {text : String} {cs : List Char} (ht : text.toList = cs)
    (hhead : cs.head? ≠ some '-') (h : Spells cs [.literal (String.ofList cs)]) :
    Spells text.toList (Phrase.ofText text).words := by
  subst ht
  rw [Phrase.ofText_of_head hhead]
  rw [String.ofList_toList] at h
  exact h

private theorem spells_keyword {text : String} {w : Word} (hne : text.toList ≠ [])
    (h : text.toList.all Word.isRunPart = true) (hw : Word.ofRun text.toList = w) :
    Spells text.toList [w] := by
  subst hw
  exact spells_run hne (List.all_eq_true.mp h)

/-- A date or a time in quotes, with a mark before it, in braces. -/
private theorem spells_clock {opening clock : String} {mark : List Char}
    (hopen : opening.toList = '\x7b' :: mark) (hmark : '\x7d' ∉ mark)
    (h : ∀ c ∈ clock.toList, isClockChar c = true) :
    Spells (opening ++ clock ++ "'\x7d").toList
      (Phrase.ofText (opening ++ clock ++ "'\x7d")).words := by
  have hbrace : ∀ c ∈ mark ++ clock.toList ++ ['\''], c ≠ '\x7d' := by
    rintro c hc rfl
    simp only [List.mem_append, List.mem_singleton] at hc
    rcases hc with (hc | hc) | hc
    · exact hmark hc
    · exact absurd (h _ hc) (by decide)
    · exact absurd hc (by decide)
  refine spells_ofText ?_ ?_ (spells_escape hbrace)
  · simp [hopen]
  · simp

private theorem spells_value {v : LiteralValue} (hv : v ≠ .null) (h : v.isWellFormed = true) :
    Spells v.text.toList (Phrase.ofText v.text).words := by
  cases v with
  | null => exact absurd rfl hv
  | boolean b =>
    cases b with
    | true =>
      exact @spells_ofText "true" _ rfl (by decide)
        (spells_run (by decide) (List.all_eq_true.mp (by decide)))
    | false =>
      exact @spells_ofText "false" _ rfl (by decide)
        (spells_run (by decide) (List.all_eq_true.mp (by decide)))
  | integer v => exact spells_signedNumeral (Text.isSignedNumeral_integerText v)
  | decimal text => exact spells_signedNumeral h
  | float x => exact spells_signedNumeral x.isSignedNumeral_text
  | string content =>
    exact spells_ofText String.toList_ofList (by simp) (spells_quoted content.toList)
  | binary bytes =>
    refine spells_ofText ?_ ?_ (spells_binary (Text.quote_notMem_upperHexText bytes))
    · simp [LiteralValue.text]
    · simp
  | guid g =>
    have hspells := spells_quoted g.text.toList
    rw [Text.doubleQuotes_of_no_quote g.quote_notMem_text] at hspells
    refine spells_ofText ?_ ?_ hspells
    · simp [LiteralValue.text]
    · simp
  | dateTime t =>
    rw [LiteralValue.text]
    exact spells_clock rfl (by decide) fun _ => DateTime.isClockChar_of_mem_milliText
  | dateTimeOffset t =>
    rw [LiteralValue.text]
    exact spells_clock rfl (by decide) fun _ => DateTime.isClockChar_of_mem_milliText
  | time t =>
    rw [LiteralValue.text]
    exact spells_clock rfl (by decide) fun _ => TimeOfDay.isClockChar_of_mem_text

theorem Phrase.ofLiteral_null (type : SimpleType) : Phrase.ofLiteral ⟨type, .null⟩ = .null := rfl

theorem Phrase.ofLiteral_of_ne_null {l : Literal} (h : l.value ≠ .null) :
    Phrase.ofLiteral l = Phrase.ofText l.text := by
  have hnull : l.isNull = false := by
    unfold Literal.isNull
    split
    · next hv => exact absurd hv h
    · rfl
  rw [Phrase.ofLiteral, hnull]
  rfl

/-- The text of a literal spells its phrase. -/
theorem spells_literal {l : Literal} (h : l.value.isWellFormed = true) :
    Spells l.text.toList (Phrase.ofLiteral l).words := by
  by_cases hv : l.value = .null
  · obtain ⟨type, value⟩ := l
    obtain rfl : value = .null := hv
    exact @spells_keyword "NULL" .null (by decide) (by decide) rfl
  · rw [Phrase.ofLiteral_of_ne_null hv]
    exact spells_value hv h

/-! ### Expressions -/

/-- The phrase in a group, if it needs one. -/
def Phrase.groupIf (needed : Bool) (p : Phrase) : Phrase := if needed then .group p else p

/-- The null test of an operator on an operand. -/
def Phrase.nullTest (op : BinaryOperator) (operand : Phrase) : Phrase :=
  if op = .eq then .isNull operand else .isNotNull operand

/-- A phrase that a minus sign may stand before without a group. -/
def Phrase.isAtom : Phrase → Bool
  | .path _ | .literal _ | .null | .not _ | .modulo _ _ | .group _ => true
  | _ => false

end Jpql

namespace Expr

/-- A path of properties. -/
def isPath : Expr → Bool
  | .property _ _ => true
  | .member _ base (.property _ _) => base.isPath
  | _ => false

/-- The text of a path: the store's names of its segments behind the qualifier. -/
def pathText (qualifier : String) : Expr → String
  | .property _ ref => qualifier ++ "." ++ ref.internalName
  | .member _ base (.property _ ref) => base.pathText qualifier ++ "." ++ ref.internalName
  | _ => ""

/-- No calls, well-formed literals, paths of plain names, and no structured values but those of
paths. -/
def isRenderable : Expr → Bool
  | .literal note l => !note.type.isStructural && l.value.isWellFormed
  | .property _ ref => Text.isPlainName ref.internalName
  | .member _ base (.property _ ref) =>
    base.isPath && base.isRenderable && Text.isPlainName ref.internalName
  | .member _ _ _ => false
  | .unary note _ operand => !note.type.isStructural && operand.isRenderable
  | .binary note _ left right =>
    !note.type.isStructural && left.isRenderable && right.isRenderable
  | .call _ _ _ => false

theorem isPath_of_isStructural {e : Expr} (h : e.isRenderable = true)
    (hs : e.type.isStructural = true) : e.isPath = true := by
  have hnot {note : Annotation} {b : Bool} (hn : note.type.isStructural = true) :
      (!note.type.isStructural && b) ≠ true := by
    simp [hn]
  cases e with
  | literal note l => exact absurd h (hnot hs)
  | property note ref => rfl
  | member note base target =>
    cases target with
    | property note' ref =>
      simp only [isRenderable, Bool.and_eq_true] at h
      exact h.1.1
    | _ => cases h
  | unary note op operand => exact absurd h (hnot hs)
  | binary note op left right =>
    rw [isRenderable, Bool.and_assoc] at h
    exact absurd h (hnot hs)
  | call note method arguments => cases h

open Jpql (Phrase)

/-- The phrase that the JPQL form of an expression without calls spells. -/
def rendered (qualifier : String) : Expr → Phrase
  | .literal _ l => .ofLiteral l
  | .unary _ .not operand => .not (.group (operand.rendered qualifier))
  | .unary _ .negate operand =>
    .negate ((operand.rendered qualifier).groupIf (!(operand.rendered qualifier).isAtom))
  | .binary _ op left right =>
    if op.isEquality && right.isNull then
      .nullTest op ((left.rendered qualifier).groupIf (decide (left.strength ≤ comparisonStrength)))
    else if op.isEquality && left.isNull then
      .nullTest op
        ((right.rendered qualifier).groupIf (decide (right.strength ≤ comparisonStrength)))
    else if op = .mod then .modulo (left.rendered qualifier) (right.rendered qualifier)
    else
      .binary op ((left.rendered qualifier).groupIf (left.needsParen op false))
        ((right.rendered qualifier).groupIf (right.needsParen op true))
  | e => .path (e.pathText qualifier)

end Expr

namespace Jpql

/-! ### Paths -/

/-- The start of a path: plain names divided by points, and at least one point. -/
def IsPathRun (cs : List Char) : Prop :=
  cs.head?.any Text.isWordStart = true ∧ '.' ∈ cs ∧ ∀ c ∈ cs, Word.isRunPart c = true

theorem isRunPart_of_plain {name : String} (h : Text.isPlainName name = true) :
    ∀ c ∈ name.toList, Word.isRunPart c = true := by
  intro c hc
  simp only [Text.isPlainName, Bool.and_eq_true, List.all_eq_true] at h
  simp [Word.isRunPart, h.2 c hc]

theorem isPathRun_append {cs : List Char} {name : String}
    (hhead : cs.head?.any Text.isWordStart = true) (hcs : ∀ c ∈ cs, Word.isRunPart c = true)
    (hname : Text.isPlainName name = true) : IsPathRun (cs ++ '.' :: name.toList) := by
  refine ⟨?_, by simp, ?_⟩
  · cases cs with
    | nil => simp at hhead
    | cons c cs => exact hhead
  · intro c hc
    simp only [List.mem_append, List.mem_cons] at hc
    rcases hc with hc | rfl | hc
    · exact hcs c hc
    · rfl
    · exact isRunPart_of_plain hname c hc

/-- A path of plain names has a JPQL form, whose text is the path's text. -/
theorem ofExpr_of_isPath {qualifier : String} {e : Expr} (h : e.isPath = true) :
    ∃ j, ofExpr qualifier e = .ok j ∧ j.text = e.pathText qualifier := by
  fun_induction Expr.isPath e with
  | case1 note ref => exact ⟨.property qualifier ref.internalName, rfl, rfl⟩
  | case2 note base note' ref ih =>
    obtain ⟨j, hj, ht⟩ := ih h
    refine ⟨.member j ref.internalName, ?_, ?_⟩
    · rw [ofExpr, hj]
      rfl
    · rw [text, ht, Expr.pathText]
  | case3 e => exact absurd h (by simp)

private theorem isPathRun_pathText {qualifier : String} {e : Expr}
    (hq : Text.isPlainName qualifier = true) (hp : e.isPath = true) (h : e.isRenderable = true) :
    IsPathRun (e.pathText qualifier).toList := by
  fun_induction Expr.isPath e with
  | case1 note ref =>
    rw [Expr.isRenderable] at h
    have hrun := isRunPart_of_plain hq
    simp only [Text.isPlainName, Bool.and_eq_true] at hq
    have htext : (Expr.pathText qualifier (.property note ref)).toList =
        qualifier.toList ++ '.' :: ref.internalName.toList := by
      simp [Expr.pathText]
    rw [htext]
    exact isPathRun_append hq.1 hrun h
  | case2 note base note' ref ih =>
    simp only [Expr.isRenderable, Bool.and_eq_true] at h
    obtain ⟨hhead, _, hrun⟩ := ih hp h.1.2
    have htext : (Expr.pathText qualifier (.member note base (.property note' ref))).toList =
        (base.pathText qualifier).toList ++ '.' :: ref.internalName.toList := by
      simp [Expr.pathText]
    rw [htext]
    exact isPathRun_append hhead hrun h.2
  | case3 e => exact absurd hp (by simp)

private theorem spells_pathText {qualifier : String} {e : Expr}
    (hq : Text.isPlainName qualifier = true) (hp : e.isPath = true) (h : e.isRenderable = true) :
    Spells (e.pathText qualifier).toList [.path (e.pathText qualifier)] := by
  obtain ⟨hhead, hdot, hrun⟩ := isPathRun_pathText hq hp h
  have hspells := spells_path hhead hdot hrun
  rw [String.ofList_toList] at hspells
  exact hspells

/-! ### Forms and their words -/

attribute [local simp] text texts

theorem spells_parenIf {needed : Bool} {j : Jpql} {p : Phrase} (h : Spells j.text.toList p.words) :
    Spells (j.parenIf needed).text.toList (p.groupIf needed).words := by
  cases needed with
  | false => exact h
  | true =>
    have htext : (Jpql.paren j).text.toList = '(' :: (j.text.toList ++ [')']) := by
      simp
    show Spells (Jpql.paren j).text.toList _
    rw [htext]
    exact h.paren

private theorem spells_nullTest {op : BinaryOperator} {j : Jpql} {p : Phrase}
    (h : Spells j.text.toList p.words) :
    Spells (nullTest op j).text.toList (p.nullTest op).words := by
  have his : Spells "IS".toList [.is] := spells_keyword (by decide) (by decide) rfl
  have hnull : Spells "NULL".toList [.null] := spells_keyword (by decide) (by decide) rfl
  have hnot : Spells "NOT".toList [.not] := spells_keyword (by decide) (by decide) rfl
  unfold nullTest Phrase.nullTest
  split
  · have htext : (Jpql.isNull j).text.toList =
        j.text.toList ++ ' ' :: ("IS".toList ++ ' ' :: "NULL".toList) := by
      simp
    rw [htext]
    exact h.append_blank (his.append_blank hnull)
  · have htext : (Jpql.isNotNull j).text.toList =
        j.text.toList ++ ' ' :: ("IS".toList ++ ' ' :: ("NOT".toList ++ ' ' :: "NULL".toList)) := by
      simp
    rw [htext]
    exact h.append_blank (his.append_blank (hnot.append_blank hnull))

private theorem spells_not {j : Jpql} {p : Phrase} (h : Spells j.text.toList p.words) :
    Spells (Jpql.not j).text.toList (Phrase.not (.group p)).words := by
  have htext : (Jpql.not j).text.toList =
      'N' :: (['O', 'T'] ++ '(' :: (j.text.toList ++ [')'])) := by
    simp
  rw [htext]
  exact Spells.run_paren (List.all_eq_true.mp (by decide)) h.paren

private theorem spells_negate {j : Jpql} {p : Phrase} (h : Spells j.text.toList p.words) :
    Spells (Jpql.negate j).text.toList (Phrase.negate p).words := by
  have htext : (Jpql.negate j).text.toList = '-' :: j.text.toList := by
    simp
  rw [htext]
  exact h.minus

private theorem spells_modulo {l r : Jpql} {p p' : Phrase} (hl : Spells l.text.toList p.words)
    (hr : Spells r.text.toList p'.words) :
    Spells (Jpql.call "MOD" [l, r]).text.toList (Phrase.modulo p p').words := by
  have htext : (Jpql.call "MOD" [l, r]).text.toList =
      'M' :: (['O', 'D'] ++ '(' :: (l.text.toList ++ ',' :: ' ' :: (r.text.toList ++ [')']))) := by
    simp
  rw [htext]
  exact Spells.run_paren (List.all_eq_true.mp (by decide)) (hl.pair hr)

private theorem spells_binaryForm {op : BinaryOperator} {l r : Jpql} {p p' : Phrase}
    (hop : op ≠ .mod) (hl : Spells l.text.toList p.words) (hr : Spells r.text.toList p'.words) :
    Spells (Jpql.binary op l r).text.toList (Phrase.binary op p p').words := by
  have htext : (Jpql.binary op l r).text.toList =
      l.text.toList ++ ' ' :: (op.surface.toList ++ ' ' :: r.text.toList) := by
    simp
  rw [htext]
  exact hl.append_blank ((spells_surface hop).append_blank hr)

private theorem startsWithMinus_of_isPath {qualifier : String} {e : Expr} {j : Jpql}
    (hq : Text.isPlainName qualifier = true) (hp : e.isPath = true) (h : e.isRenderable = true)
    (hj : ofExpr qualifier e = .ok j) : j.startsWithMinus = false := by
  obtain ⟨j', hj', ht⟩ := @ofExpr_of_isPath qualifier e hp
  rw [hj] at hj'
  cases hj'
  obtain ⟨hhead, _, _⟩ := isPathRun_pathText hq hp h
  rw [startsWithMinus, ht]
  cases hcs : (e.pathText qualifier).toList with
  | nil => rfl
  | cons c cs =>
    rw [hcs] at hhead
    have hminus : Text.isWordStart '-' = false := by decide
    have hne : c ≠ '-' := by
      rintro rfl
      simp [hminus] at hhead
    simp [hne]

private theorem startsWithMinus_literal (l : Literal) :
    (Jpql.literal l).startsWithMinus = !(Phrase.ofLiteral l).isAtom := by
  by_cases hv : l.value = .null
  · obtain ⟨type, value⟩ := l
    obtain rfl : value = .null := hv
    simp [startsWithMinus, text, Literal.text, LiteralValue.text, Phrase.ofLiteral_null,
      Phrase.isAtom]
  · rw [Phrase.ofLiteral_of_ne_null hv]
    unfold startsWithMinus Phrase.ofText
    rw [text]
    split
    · next cs hcs => rw [hcs]; rfl
    · next hcs =>
      have hne : l.text.toList.head? ≠ some '-' := by
        intro hh
        obtain ⟨cs, hcs'⟩ := List.head?_eq_some_iff.mp hh
        exact hcs cs hcs'
      simp [hne, Phrase.isAtom]

theorem isAtom_rendered_binary {op : BinaryOperator} (hop : op ≠ .mod) (qualifier : String)
    (note : Annotation) (left right : Expr) :
    (Expr.rendered qualifier (.binary note op left right)).isAtom = false := by
  have hnull (p : Phrase) : (p.nullTest op).isAtom = false := by
    unfold Phrase.nullTest
    split <;> rfl
  rw [Expr.rendered]
  split
  · exact hnull _
  · split
    · exact hnull _
    · rfl

/-- A sign stands directly before its operand exactly if the operand's phrase is an atom. -/
private theorem needsGroup_eq {qualifier : String} {e : Expr} {j : Jpql}
    (hq : Text.isPlainName qualifier = true) (h : e.isRenderable = true)
    (hj : ofExpr qualifier e = .ok j) :
    (decide (e.strength < atomStrength) || j.startsWithMinus) = !(e.rendered qualifier).isAtom := by
  cases e with
  | literal note l =>
    cases hj
    exact startsWithMinus_literal l
  | property note ref => exact startsWithMinus_of_isPath hq rfl h hj
  | member note base target =>
    cases target with
    | property note' ref =>
      have hp : (Expr.member note base (.property note' ref)).isPath = true := by
        simp only [Expr.isRenderable, Bool.and_eq_true] at h
        exact h.1.1
      exact startsWithMinus_of_isPath hq hp h hj
    | _ => exact absurd h (by simp [Expr.isRenderable])
  | unary note op operand =>
    cases op with
    | negate => rfl
    | not =>
      rw [ofExpr] at hj
      cases hx : ofExpr qualifier operand with
      | error err => simp [hx, Except.map] at hj
      | ok x =>
        rw [hx] at hj
        cases hj
        simp [startsWithMinus, text, Expr.strength, Expr.rendered, Phrase.isAtom]
  | binary note op left right =>
    by_cases hop : op = .mod
    · subst hop
      have hminus : j.startsWithMinus = false := by
        rw [ofExpr, if_neg (by simp [BinaryOperator.isEquality]),
          if_neg (by simp [BinaryOperator.isEquality]), if_neg (by simp)] at hj
        split at hj
        · cases hj
        · cases hj
        · rw [if_pos rfl] at hj
          cases hj
          simp [startsWithMinus, text, BinaryOperator.surface]
      rw [hminus]
      rfl
    · rw [Expr.strength, decide_eq_true (op.strength_lt hop), isAtom_rendered_binary hop]
      rfl
  | call note method arguments => exact absurd h (by simp [Expr.isRenderable])

/-- An expression without calls has a JPQL form, and its text spells the expression's phrase. -/
theorem ofExpr_spells {qualifier : String} (hq : Text.isPlainName qualifier = true) {e : Expr}
    (h : e.isRenderable = true) :
    ∃ j, ofExpr qualifier e = .ok j ∧ Spells j.text.toList (e.rendered qualifier).words := by
  fun_induction Expr.isRenderable e with
  | case1 note l =>
    rw [Bool.and_eq_true] at h
    exact ⟨.literal l, rfl, spells_literal h.2⟩
  | case2 note ref =>
    exact ⟨.property qualifier ref.internalName, rfl,
      @spells_pathText qualifier (.property note ref) hq rfl h⟩
  | case3 note base note' ref ih =>
    have hp : (Expr.member note base (.property note' ref)).isPath = true := by
      simp only [Bool.and_eq_true] at h
      exact h.1.1
    obtain ⟨j, hj, ht⟩ := @ofExpr_of_isPath qualifier _ hp
    refine ⟨j, hj, ?_⟩
    rw [ht]
    exact spells_pathText hq hp h
  | case4 note base target => exact absurd h (by simp)
  | case5 note op operand ih =>
    rw [Bool.and_eq_true] at h
    obtain ⟨j, hj, hs⟩ := ih h.2
    cases op with
    | not =>
      refine ⟨.not j, ?_, spells_not hs⟩
      rw [ofExpr, hj]
      rfl
    | negate =>
      refine ⟨.negate (j.parenIf (!(operand.rendered qualifier).isAtom)), ?_, ?_⟩
      · rw [ofExpr, hj, ← needsGroup_eq hq h.2 hj]
        rfl
      · exact spells_negate (spells_parenIf hs)
  | case6 note op left right ihl ihr =>
    simp only [Bool.and_eq_true] at h
    obtain ⟨l, hl, hsl⟩ := ihl h.1.2
    obtain ⟨r, hr, hsr⟩ := ihr h.2
    rw [ofExpr, Expr.rendered, OperatorTable.isNone_get?_standard, Bool.and_false,
      if_neg Bool.false_ne_true]
    split
    · refine ⟨_, by rw [hl]; rfl, spells_nullTest (spells_parenIf hsl)⟩
    · split
      · refine ⟨_, by rw [hr]; rfl, spells_nullTest (spells_parenIf hsr)⟩
      · rw [hl, hr]
        simp only
        split
        · next hop =>
          subst hop
          exact ⟨_, rfl, spells_modulo hsl hsr⟩
        · next hop =>
          exact ⟨_, rfl, spells_binaryForm hop (spells_parenIf hsl) (spells_parenIf hsr)⟩
  | case7 note method arguments => exact absurd h (by simp)

end Jpql

end EntityQuery
