import EntityQuery.Proofs.Jpql.Forms
import EntityQuery.Proofs.Request.Keys
import EntityQuery.Proofs.Text.Mask

/-!
# The contents of strings

Replacing what the string literals of an expression or of a key hold changes nothing else in their
JPQL texts: neither the form nor any parentheses depend on it, and the quotes in it are doubled. So
the masks of the two texts are the same.
-/

namespace EntityQuery

/-! ### Replacing contents -/

/-- The value with another content, if it is a string. -/
def LiteralValue.mapString (f : String → String) : LiteralValue → LiteralValue
  | .string content => .string (f content)
  | value => value

/-- The literal with another content, if it is a string. -/
def Literal.mapString (f : String → String) (l : Literal) : Literal := ⟨l.type, l.value.mapString f⟩

/-- The key with another content of its value, if that is a string. -/
def ResolvedKey.mapString (f : String → String) (key : ResolvedKey) : ResolvedKey :=
  ⟨key.property, key.value.mapString f⟩

namespace Expr

mutual

/-- The expression with other contents of its string literals. -/
def mapStrings (f : String → String) : Expr → Expr
  | .literal note l => .literal note (l.mapString f)
  | .property note ref => .property note ref
  | .member note path target => .member note (path.mapStrings f) (target.mapStrings f)
  | .unary note op operand => .unary note op (operand.mapStrings f)
  | .binary note op left right => .binary note op (left.mapStrings f) (right.mapStrings f)
  | .call note method arguments => .call note method (mapStringsAll f arguments)

/-- The expressions with other contents of their string literals. -/
def mapStringsAll (f : String → String) : List Expr → List Expr
  | [] => []
  | e :: rest => e.mapStrings f :: mapStringsAll f rest

end

end Expr

namespace Jpql

mutual

/-- The form with other contents of its string literals. -/
def mapStrings (f : String → String) : Jpql → Jpql
  | .literal l => .literal (l.mapString f)
  | .property qualifier name => .property qualifier name
  | .member base name => .member (base.mapStrings f) name
  | .not operand => .not (operand.mapStrings f)
  | .negate operand => .negate (operand.mapStrings f)
  | .binary op left right => .binary op (left.mapStrings f) (right.mapStrings f)
  | .isNull operand => .isNull (operand.mapStrings f)
  | .isNotNull operand => .isNotNull (operand.mapStrings f)
  | .call name arguments => .call name (mapStringsAll f arguments)
  | .extract field operand => .extract field (operand.mapStrings f)
  | .paren inner => .paren (inner.mapStrings f)

/-- The forms with other contents of their string literals. -/
def mapStringsAll (f : String → String) : List Jpql → List Jpql
  | [] => []
  | j :: rest => j.mapStrings f :: mapStringsAll f rest

end

end Jpql

/-! ### What does not depend on contents -/

section

variable (f : String → String)

@[simp]
theorem Literal.isNull_mapString (l : Literal) : (l.mapString f).isNull = l.isNull := by
  obtain ⟨type, value⟩ := l
  cases value <;> rfl

namespace Expr

@[simp]
theorem type_mapStrings (e : Expr) : (e.mapStrings f).type = e.type := by
  cases e <;> rfl

@[simp]
theorem isNull_mapStrings (e : Expr) : (e.mapStrings f).isNull = e.isNull := by
  cases e with
  | literal note l => exact l.isNull_mapString f
  | _ => rfl

@[simp]
theorem strength_mapStrings (e : Expr) : (e.mapStrings f).strength = e.strength := by
  cases e with
  | unary note op operand => cases op <;> rfl
  | _ => rfl

@[simp]
theorem needsParen_mapStrings (op : BinaryOperator) (isRight : Bool) (e : Expr) :
    (e.mapStrings f).needsParen op isRight = e.needsParen op isRight := by
  have hchain : (e.mapStrings f).isChainOf op = e.isChainOf op := by
    cases e <;> rfl
  rw [needsParen, strength_mapStrings, hchain]
  rfl

end Expr

namespace Jpql

theorem mapStrings_parenIf (needed : Bool) (j : Jpql) :
    (j.parenIf needed).mapStrings f = (j.mapStrings f).parenIf needed := by
  cases needed <;> rfl

theorem mapStrings_nullTest (op : BinaryOperator) (j : Jpql) :
    (nullTest op j).mapStrings f = nullTest op (j.mapStrings f) := by
  unfold nullTest
  split <;> rfl

/-- The first character of a text does not depend on contents, as strings start with a quote. -/
private theorem head?_text_mapStrings : (j : Jpql) →
    (j.mapStrings f).text.toList.head? = j.text.toList.head?
  | .literal ⟨type, value⟩ => by
    cases value with
    | string content =>
      simp [mapStrings, text, Literal.mapString, Literal.text, LiteralValue.mapString,
        LiteralValue.text, Text.quoted]
    | _ => rfl
  | .member base name => by
    simp [mapStrings, text, List.head?_append, head?_text_mapStrings base]
  | .binary op left right => by
    simp [mapStrings, text, List.head?_append, head?_text_mapStrings left]
  | .isNull operand => by
    simp [mapStrings, text, List.head?_append, head?_text_mapStrings operand]
  | .isNotNull operand => by
    simp [mapStrings, text, List.head?_append, head?_text_mapStrings operand]
  | .call name arguments => by
    simp [mapStrings, text, List.head?_append]
  | .property _ _ => rfl
  | .not _ | .negate _ | .extract _ _ | .paren _ => by
    simp [mapStrings, text]

theorem startsWithMinus_mapStrings (j : Jpql) :
    (j.mapStrings f).startsWithMinus = j.startsWithMinus := by
  rw [startsWithMinus, head?_text_mapStrings]
  rfl

theorem mapStringsAll_eq_map (js : List Jpql) : mapStringsAll f js = js.map (mapStrings f) := by
  induction js with
  | nil => rfl
  | cons j rest ih => rw [mapStringsAll, ih, List.map_cons]

theorem ofMethod?_mapStrings (method : Method) (arguments : List Jpql) :
    ofMethod? method (mapStringsAll f arguments) = (ofMethod? method arguments).map
      (mapStrings f) := by
  rcases arguments with _ | ⟨a, _ | ⟨b, _ | ⟨c, rest⟩⟩⟩ <;> cases method <;> rfl

mutual

/-- The form of an expression with other contents is the form with other contents. -/
theorem ofExpr_mapStrings (qualifier : String) : (e : Expr) →
    ofExpr qualifier (e.mapStrings f) = (ofExpr qualifier e).map (mapStrings f)
  | .literal _ _ => rfl
  | .property _ _ => rfl
  | .member _ path target => by
    cases target with
    | property note ref =>
      rw [Expr.mapStrings, Expr.mapStrings, ofExpr, ofExpr, ofExpr_mapStrings qualifier path]
      cases ofExpr qualifier path <;> rfl
    | _ => rfl
  | .unary _ .not operand => by
    rw [Expr.mapStrings, ofExpr, ofExpr, ofExpr_mapStrings qualifier operand]
    cases ofExpr qualifier operand <;> rfl
  | .unary _ .negate operand => by
    rw [Expr.mapStrings, ofExpr, ofExpr, ofExpr_mapStrings qualifier operand,
      Expr.strength_mapStrings]
    cases ofExpr qualifier operand with
    | error e => rfl
    | ok j => simp [Except.map, mapStrings, startsWithMinus_mapStrings, mapStrings_parenIf]
  | .binary _ op left right => by
    rw [Expr.mapStrings, ofExpr, ofExpr, ofExpr_mapStrings qualifier left,
      ofExpr_mapStrings qualifier right]
    simp only [Expr.isNull_mapStrings, Expr.strength_mapStrings, Expr.needsParen_mapStrings]
    split
    · cases ofExpr qualifier left with
      | error e => rfl
      | ok l => simp [Except.map, mapStrings_nullTest, mapStrings_parenIf]
    · split
      · cases ofExpr qualifier right with
        | error e => rfl
        | ok r => simp [Except.map, mapStrings_nullTest, mapStrings_parenIf]
      · rw [OperatorTable.isNone_get?_standard, Bool.and_false, if_neg Bool.false_ne_true,
          if_neg Bool.false_ne_true]
        cases ofExpr qualifier left with
        | error e => cases ofExpr qualifier right <;> rfl
        | ok l =>
          cases ofExpr qualifier right with
          | error e => rfl
          | ok r =>
            by_cases hop : op = .mod
            · simp [Except.map, hop, mapStrings, mapStringsAll]
            · simp [Except.map, hop, mapStrings, mapStrings_parenIf]
  | .call _ method arguments => by
    rw [Expr.mapStrings, ofExpr, ofExpr, ofExprs_mapStrings qualifier arguments]
    cases ofExprs qualifier arguments with
    | error e => rfl
    | ok js =>
      simp only [Except.map, ofMethod?_mapStrings]
      cases ofMethod? method js with
      | none => simp [mapStringsAll_eq_map]
      | some j => rfl

private theorem ofExprs_mapStrings (qualifier : String) : (es : List Expr) →
    ofExprs qualifier (Expr.mapStringsAll f es) = (ofExprs qualifier es).map (mapStringsAll f)
  | [] => rfl
  | e :: rest => by
    rw [Expr.mapStringsAll, ofExprs, ofExprs, ofExpr_mapStrings qualifier e,
      ofExprs_mapStrings qualifier rest]
    cases ofExpr qualifier e with
    | error err => cases ofExprs qualifier rest <;> rfl
    | ok j => cases ofExprs qualifier rest <;> rfl

end

end Jpql

end

/-! ### Alike texts -/

open Text (Alike isQuoteFree mask)

/-- A text of digits and points, with or without a sign, has no quote. -/
private theorem isQuoteFree_of_isSignedNumeral {text : String}
    (h : Text.isSignedNumeral text.toList = true) : isQuoteFree text = true := by
  have hnumeral {cs : List Char} (h : Text.isNumeral cs = true) : ∀ c ∈ cs, c ≠ '\'' := by
    simp only [Text.isNumeral, Bool.and_eq_true, List.all_eq_true] at h
    rintro c hc rfl
    exact absurd (h.2 _ hc) (by decide)
  rw [Text.isQuoteFree_iff]
  unfold Text.isSignedNumeral at h
  split at h
  · next cs hcs =>
    rw [hcs]
    simpa using hnumeral h
  · exact hnumeral h

/-- The text of a literal that is no string is alike to itself. -/
private theorem LiteralValue.alike_self {v : LiteralValue} (h : v.isWellFormed = true) :
    Alike v.text v.text := by
  have hwords : ["NULL", "true", "false"].all isQuoteFree = true := by decide
  have hmarks : LiteralValue.marks.all (fun m => isQuoteFree m.1 && isQuoteFree m.2) = true := by
    decide
  have hwritten := isWritten_text h
  generalize v.text = text at hwritten
  cases hwritten with
  | word hmem => exact .of_isQuoteFree (List.all_eq_true.mp hwords text hmem)
  | numeral hnumeral => exact .of_isQuoteFree (isQuoteFree_of_isSignedNumeral hnumeral)
  | quoted content hmem =>
    have hm := List.all_eq_true.mp hmarks _ hmem
    rw [Bool.and_eq_true] at hm
    exact ((Alike.quoted content content).prepend hm.1).followedBy hm.2

theorem LiteralValue.alike_text (f : String → String) {v : LiteralValue}
    (h : v.isWellFormed = true) :
    Alike (v.mapString f).text v.text := by
  cases v with
  | string content => exact .quoted _ _
  | _ => exact alike_self h

namespace Jpql

variable (f : String → String)

private theorem isQuoteFree_surface (op : BinaryOperator) : isQuoteFree op.surface = true := by
  cases op <;> decide

private theorem isQuoteFree_functionNames : functionNames.all isQuoteFree = true := by
  decide

private theorem isQuoteFree_fieldNames : fieldNames.all isQuoteFree = true := by
  decide

theorem IsPath.alike_text {j : Jpql} (h : j.IsPath isQuoteFree) :
    Alike (j.mapStrings f).text j.text := by
  induction h with
  | @property qualifier name hq hn =>
    have hpath : isQuoteFree (qualifier ++ "." ++ name) = true := by
      rw [Text.isQuoteFree_append, Text.isQuoteFree_append, hq, hn]
      decide
    exact .of_isQuoteFree hpath
  | member _ hn ih => exact (ih.followedBy (by decide)).followedBy hn

/-- The text of a form with quotes in its literals only is alike to the text with other contents. -/
theorem Tidy.alike_text {j : Jpql} (h : j.Tidy isQuoteFree) :
    Alike (j.mapStrings f).text j.text := by
  induction h with
  | literal hl => exact LiteralValue.alike_text f hl
  | path h => exact h.alike_text f
  | not _ ih => exact (ih.prepend (by decide)).followedBy (by decide)
  | negate _ _ ih => exact ih.prepend (by decide)
  | binary _ _ _ ihl ihr =>
    exact ((ihl.followedBy (by decide)).followedBy (isQuoteFree_surface _)).around (by decide)
      (by decide)
      ihr
  | isNull _ ih => exact ih.followedBy (by decide)
  | isNotNull _ ih => exact ih.followedBy (by decide)
  | @call name _ hn _ ih =>
    have hname : isQuoteFree (name ++ "(") = true := by
      rw [Text.isQuoteFree_append, List.all_eq_true.mp isQuoteFree_functionNames name hn]
      decide
    have harguments := @Alike.intercalate ", " _ _ _ _ (by decide) (by decide) ih
    rw [text, mapStrings, text, texts_eq_map, texts_eq_map, mapStringsAll_eq_map, List.map_map]
    exact (harguments.prepend hname).followedBy (by decide)
  | @extract field _ hf _ ih =>
    have hfield : isQuoteFree ("EXTRACT(" ++ field ++ " FROM ") = true := by
      rw [Text.isQuoteFree_append, Text.isQuoteFree_append,
        List.all_eq_true.mp isQuoteFree_fieldNames field hf]
      decide
    exact (ih.prepend hfield).followedBy (by decide)
  | paren _ ih => exact (ih.prepend (by decide)).followedBy (by decide)

end Jpql

/-! ### Keys -/

namespace ResolvedKey

variable (f : String → String) (qualifier : String)

theorem test_mapString (key : ResolvedKey) :
    (key.mapString f).test qualifier = (key.test qualifier).mapStrings f := by
  unfold test mapString
  rw [Literal.isNull_mapString]
  split <;> rfl

end ResolvedKey

theorem mask_keyCondition? (f : String → String) {qualifier : String} {keys : List ResolvedKey}
    (hq : isQuoteFree qualifier = true)
    (h : ∀ key ∈ keys, isQuoteFree key.property.internalName = true ∧
      key.value.value.isWellFormed = true) :
    (keyCondition? qualifier (keys.map (ResolvedKey.mapString f))).map mask =
      (keyCondition? qualifier keys).map mask := by
  cases hkeys : keys.isEmpty with
  | true =>
    rw [List.isEmpty_iff] at hkeys
    rw [hkeys]
    rfl
  | false =>
    have halike : Alike
        (" AND ".intercalate (keys.map fun key => ((key.mapString f).test qualifier).text))
        (" AND ".intercalate (keys.map fun key => (key.test qualifier).text)) := by
      apply Alike.intercalate (by decide) (by decide)
      intro key hk
      rw [ResolvedKey.test_mapString]
      exact (ResolvedKey.tidy_test hq (h key hk).1 (h key hk).2).alike_text f
    simp [keyCondition?, conjunction?, hkeys, List.map_map, Function.comp_def, halike.mask_eq]

/-! ### Masks -/

/-- Whatever strings an expression holds, the mask of its text is the same; so it is with the
condition that an entity has a key. -/
theorem mask_mapStrings {model : Model} {qualifier : String}
    (hm : model.allNames isQuoteFree = true) (hq : isQuoteFree qualifier = true)
    (f : String → String) :
    (∀ entityType input e, parseExpression model entityType input = .ok e →
      e.type.isStructural = false →
      ∃ text text', translate qualifier e = .ok text ∧
        translate qualifier (e.mapStrings f) = .ok text' ∧ mask text' = mask text) ∧
    ∀ entityType ∈ model.entityTypes,
      ∀ predicates keys, resolveKeys entityType predicates = .ok keys →
      (keyCondition? qualifier (keys.map (ResolvedKey.mapString f))).map mask =
        (keyCondition? qualifier keys).map mask := by
  constructor
  · intro entityType input e he ht
    obtain ⟨j, hj, htidy⟩ := (resolved_of_parseExpression he).exists_form hm hq
    refine ⟨j.text, (j.mapStrings f).text, ?_, ?_, (htidy.alike_text f).mask_eq⟩
    · simp [translate, ht, hj, Except.map]
    · simp [translate, ht, hj, Except.map, Jpql.ofExpr_mapStrings]
  · intro entityType hentity predicates keys hkeys
    refine mask_keyCondition? f hq fun key hk => ?_
    obtain ⟨hproperty, hvalue⟩ := mem_of_resolveKeys hkeys hk
    exact ⟨Model.allNames_property hm hentity hproperty, hvalue⟩

/-- A condition on the end of a name. -/
def suffixText : String :=
  "(SUBSTRING(E1.name, LENGTH(E1.name) - LENGTH('it''s') + 1) = 'it''s') AND E1.name <> '-'"

/-- The same condition after its strings went on like a condition of their own. -/
def forgedText : String :=
  "(SUBSTRING(E1.name, LENGTH(E1.name) - LENGTH('it''s'' OR 1 = 1 OR ''') + 1) = " ++
    "'it''s'' OR 1 = 1 OR ''') AND E1.name <> '-'' OR 1 = 1 OR '''"

/-- Strings that end in a quote and go on like a condition, in a filter and in a key. -/
theorem mask_mapStrings_sample :
    (∃ e, parseExpression leagueModel teamType "endswith(name, 'it''s') and name ne '-'" = .ok e ∧
      translate "E1" e = .ok suffixText ∧
      translate "E1" (e.mapStrings fun s => s ++ "' OR 1 = 1 OR '") = .ok forgedText ∧
      mask forgedText = mask suffixText) ∧
    ∃ keys, resolveKeys teamType [⟨none, "'it''s'"⟩] = .ok keys ∧
      keyCondition? "E1" keys = some "E1.name = 'it''s'" ∧
      keyCondition? "E1" (keys.map (ResolvedKey.mapString fun s => s ++ "' OR 1 = 1 OR '")) =
        some "E1.name = 'it''s'' OR 1 = 1 OR '''" ∧
      mask "E1.name = 'it''s'' OR 1 = 1 OR '''" = mask "E1.name = 'it''s'" := by
  obtain ⟨e, he, htest⟩ := @exists_ok_of_any _ _
    (parseExpression leagueModel teamType "endswith(name, 'it''s') and name ne '-'")
    (fun e => !e.type.isStructural && (translate "E1" e).toOption == some suffixText &&
      (translate "E1" (e.mapStrings fun s => s ++ "' OR 1 = 1 OR '")).toOption == some forgedText)
    (by decide +kernel)
  obtain ⟨keys, hkeys, hconditions⟩ := @exists_ok_of_any _ _
    (resolveKeys teamType [⟨none, "'it''s'"⟩])
    (fun keys => keyCondition? "E1" keys == some "E1.name = 'it''s'" &&
      keyCondition? "E1" (keys.map (ResolvedKey.mapString fun s => s ++ "' OR 1 = 1 OR '")) ==
        some "E1.name = 'it''s'' OR 1 = 1 OR '''") (by decide +kernel)
  simp only [Bool.and_eq_true, Bool.not_eq_true', beq_iff_eq] at htest hconditions
  obtain ⟨⟨ht, htext⟩, hforged⟩ := htest
  obtain ⟨hcondition, hforged'⟩ := hconditions
  obtain ⟨hmasks, hkeyMasks⟩ := @mask_mapStrings leagueModel "E1" (by decide) (by decide)
    fun s => s ++ "' OR 1 = 1 OR '"
  obtain ⟨text, text', htext', hforgedText, hmask⟩ := hmasks teamType _ e he ht
  rw [htext'] at htext
  rw [hforgedText] at hforged
  cases htext
  cases hforged
  have hkeyMask := hkeyMasks teamType (by decide) _ keys hkeys
  rw [hcondition, hforged'] at hkeyMask
  exact ⟨⟨e, he, htext', hforgedText, hmask⟩, keys, hkeys, hcondition, hforged',
    Option.some.inj hkeyMask⟩

end EntityQuery
