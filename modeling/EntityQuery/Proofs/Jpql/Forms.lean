import EntityQuery.Proofs.Expr.Resolved
import EntityQuery.Proofs.Operator.Resolution
import EntityQuery.Statement.Context

/-!
# Forms of resolved expressions

Every resolved expression has a JPQL form: members are properties, and methods have as many
arguments as they use. The form is tidy: all names in it are names of the tree or the alias,
literals are well formed, and no sign stands right behind another one.
-/

namespace EntityQuery

namespace Jpql

/-- The functions that expressions call. -/
def functionNames : List String :=
  ["LOCATE", "LENGTH", "SUBSTRING", "CONCAT", "LOWER", "UPPER", "TRIM", "ROUND", "FLOOR", "CEILING",
    "MOD"]

/-- The fields that expressions extract from dates and times. -/
def fieldNames : List String := ["YEAR", "MONTH", "DAY", "HOUR", "MINUTE", "SECOND"]

/-- A path whose alias and names pass a test. -/
inductive IsPath (test : String → Bool) : Jpql → Prop
  | property {qualifier name : String} (hq : test qualifier = true) (hn : test name = true) :
    IsPath test (.property qualifier name)
  | member {base : Jpql} {name : String} (h : IsPath test base) (hn : test name = true) :
    IsPath test (.member base name)

/-- A form whose aliases and names pass a test, with literals that are well formed and known
functions. Members belong to paths, what has a sign before it does not start with one, and a
remainder is no operator but a function. -/
inductive Tidy (test : String → Bool) : Jpql → Prop
  | literal {l : Literal} (hl : l.value.isWellFormed = true) : Tidy test (.literal l)
  | path {j : Jpql} (h : j.IsPath test) : Tidy test j
  | not {operand : Jpql} (h : Tidy test operand) : Tidy test (.not operand)
  | negate {operand : Jpql} (hs : operand.startsWithMinus = false) (h : Tidy test operand) :
    Tidy test (.negate operand)
  | binary {op : BinaryOperator} {left right : Jpql} (hop : op ≠ .mod) (hl : Tidy test left)
    (hr : Tidy test right) : Tidy test (.binary op left right)
  | isNull {operand : Jpql} (h : Tidy test operand) : Tidy test (.isNull operand)
  | isNotNull {operand : Jpql} (h : Tidy test operand) : Tidy test (.isNotNull operand)
  | call {name : String} {arguments : List Jpql} (hn : name ∈ functionNames)
    (h : ∀ j ∈ arguments, Tidy test j) : Tidy test (.call name arguments)
  | extract {field : String} {operand : Jpql} (hf : field ∈ fieldNames)
    (h : Tidy test operand) : Tidy test (.extract field operand)
  | paren {inner : Jpql} (h : Tidy test inner) : Tidy test (.paren inner)

variable {test : String → Bool}

theorem texts_eq_map (js : List Jpql) : texts js = js.map text := by
  induction js with
  | nil => rfl
  | cons j rest ih => rw [texts, ih, List.map_cons]

theorem tidy_integer (n : Int) : (integer n).Tidy test := .literal rfl

theorem Tidy.parenIf {j : Jpql} (h : j.Tidy test) (needed : Bool) :
    (j.parenIf needed).Tidy test := by
  cases needed with
  | true => exact .paren h
  | false => exact h

/-- What starts with a sign is put in parentheses. -/
theorem startsWithMinus_parenIf (j : Jpql) (needed : Bool) :
    (j.parenIf (needed || j.startsWithMinus)).startsWithMinus = false := by
  cases h : needed || j.startsWithMinus with
  | true => simp [parenIf, startsWithMinus, text]
  | false => exact (Bool.or_eq_false_iff.mp h).2

theorem Tidy.nullTest {j : Jpql} (h : j.Tidy test) (op : BinaryOperator) :
    (Jpql.nullTest op j).Tidy test := by
  unfold Jpql.nullTest
  split
  · exact .isNull h
  · exact .isNotNull h

private theorem Tidy.call_one {name : String} {a : Jpql} (hn : name ∈ functionNames)
    (ha : a.Tidy test) : (Jpql.call name [a]).Tidy test :=
  .call hn (by simpa using ha)

private theorem Tidy.call_two {name : String} {a b : Jpql} (hn : name ∈ functionNames)
    (ha : a.Tidy test) (hb : b.Tidy test) : (Jpql.call name [a, b]).Tidy test :=
  .call hn (by simp [ha, hb])

private theorem exists_cons_cons {α : Type} {list : List α} (h : 2 ≤ list.length) :
    ∃ a b rest, list = a :: b :: rest := by
  match list, h with
  | a :: b :: rest, _ => exact ⟨a, b, rest, rfl⟩

/-- A method with as many arguments as one of its signatures takes has a form. -/
theorem exists_ofMethod? {method : Method} {s : Signature} {arguments : List Jpql}
    (hs : s ∈ method.signatures) (ht : s.takes arguments.length = true)
    (h : ∀ j ∈ arguments, j.Tidy test) :
    ∃ j, ofMethod? method arguments = some j ∧ j.Tidy test := by
  have hle {n : Nat} (hn : ∀ s ∈ method.signatures, n ≤ s.parameters.length) :
      n ≤ arguments.length :=
    Nat.le_trans (hn s hs) (Signature.length_le_of_takes ht)
  cases method with
  | concat => exact ⟨_, rfl, .call (by decide) h⟩
  | substringOf =>
    obtain ⟨a, b, rest, rfl⟩ := exists_cons_cons (hle (by decide))
    have hlocate : (call "LOCATE" [a, b]).Tidy test :=
      .call_two (by decide) (h a (by simp)) (h b (by simp))
    exact ⟨_, rfl, .paren (.binary nofun hlocate (tidy_integer _))⟩
  | startsWith | indexOf =>
    obtain ⟨a, b, rest, rfl⟩ := exists_cons_cons (hle (by decide))
    have hlocate : (call "LOCATE" [b, a]).Tidy test :=
      .call_two (by decide) (h b (by simp)) (h a (by simp))
    exact ⟨_, rfl, .paren (.binary nofun hlocate (tidy_integer _))⟩
  | endsWith =>
    obtain ⟨a, b, rest, rfl⟩ := exists_cons_cons (hle (by decide))
    have ha : a.Tidy test := h a (by simp)
    have hb : b.Tidy test := h b (by simp)
    have hdrop : (binary .sub (.call "LENGTH" [a]) (.call "LENGTH" [b])).Tidy test :=
      .binary nofun (.call_one (by decide) ha) (.call_one (by decide) hb)
    have hstart := Tidy.binary (nofun : BinaryOperator.add ≠ .mod) hdrop (tidy_integer 1)
    exact ⟨_, rfl, .paren (.binary nofun (.call_two (by decide) ha hstart) hb)⟩
  | substring =>
    obtain ⟨a, b, rest, rfl⟩ := exists_cons_cons (hle (by decide))
    refine ⟨_, rfl, .call (by decide) ?_⟩
    simp only [List.mem_cons, forall_eq_or_imp]
    refine ⟨h a (by simp), .binary nofun (h b (by simp)) (tidy_integer _), fun j hj => h j ?_⟩
    simp [List.mem_of_mem_take hj]
  | toLower | toUpper | trim | length | round | floor | ceiling =>
    obtain ⟨a, rest, rfl⟩ := List.exists_cons_of_length_pos (hle (by decide))
    exact ⟨_, rfl, .call_one (by decide) (h a (by simp))⟩
  | year | month | day | hour | minute | second =>
    obtain ⟨a, rest, rfl⟩ := List.exists_cons_of_length_pos (hle (by decide))
    exact ⟨_, rfl, .extract (by decide) (h a (by simp))⟩

/-- Where all arguments have tidy forms, so has the list of them. -/
private theorem exists_ofExprs {qualifier : String} {es : List Expr}
    (h : ∀ e ∈ es, ∃ j, ofExpr qualifier e = .ok j ∧ j.Tidy test) :
    ∃ js, ofExprs qualifier es = .ok js ∧ js.length = es.length ∧ ∀ j ∈ js, j.Tidy test := by
  induction es with
  | nil => exact ⟨[], rfl, rfl, fun _ hj => absurd hj List.not_mem_nil⟩
  | cons e rest ih =>
    obtain ⟨j, hj, htidy⟩ := h e List.mem_cons_self
    obtain ⟨js, hjs, hlength, hall⟩ := ih fun e he => h e (List.mem_cons_of_mem _ he)
    refine ⟨j :: js, ?_, ?_, ?_⟩
    · rw [ofExprs, hj, hjs]
    · rw [List.length_cons, List.length_cons, hlength]
    · exact List.forall_mem_cons.mpr ⟨htidy, hall⟩

end Jpql

namespace Expr

mutual

/-- The store's names of the properties in a tree. -/
def internalNames : Expr → List String
  | .literal _ _ => []
  | .property _ ref => [ref.internalName]
  | .member _ path target => path.internalNames ++ target.internalNames
  | .unary _ _ operand => operand.internalNames
  | .binary _ _ left right => left.internalNames ++ right.internalNames
  | .call _ _ arguments => internalNamesAll arguments

/-- The store's names of the properties in trees. -/
def internalNamesAll : List Expr → List String
  | [] => []
  | e :: rest => e.internalNames ++ internalNamesAll rest

end

theorem mem_internalNamesAll {es : List Expr} {name : String} :
    name ∈ internalNamesAll es ↔ ∃ e ∈ es, name ∈ e.internalNames := by
  induction es with
  | nil => simp [internalNamesAll]
  | cons e rest ih => simp [internalNamesAll, ih]

end Expr

namespace Expr.Resolved

open Jpql

variable {model : Model} {entity : ValueType} {test : String → Bool} {qualifier : String} {e : Expr}

/-- The form of a structured value is a path. -/
theorem isPath_form (h : e.Resolved model entity) (hs : e.type.isStructural = true) {j : Jpql}
    (hj : ofExpr qualifier e = .ok j) (ht : j.Tidy test) : j.IsPath test := by
  have hoperator {op : Operator} {operands : List ValueType}
      (hc : op.descriptor.resolve operands = .ok (some e.type)) (hop : op ≠ .member) : False := by
    rw [Operator.isStructural_of_result hc hop] at hs
    cases hs
  cases h with
  | literal htype _ =>
    rw [Expr.type, Expr.note, htype] at hs
    cases hs
  | property _ =>
    cases hj
    cases ht with
    | path h => exact h
  | member _ _ _ _ =>
    rw [ofExpr] at hj
    obtain ⟨base, _, rfl⟩ := map_eq_ok_iff.mp hj
    cases ht with
    | path h => exact h
  | unary _ hc => exact (hoperator hc (by simp)).elim
  | binary _ _ hc => exact (hoperator hc (by simp)).elim
  | call _ hc => exact (hoperator hc (by simp)).elim

/-- The names in a resolved expression are names of the model. -/
theorem test_internalNames (hm : model.allNames test = true) (h : e.Resolved model entity) :
    ∀ name ∈ e.internalNames, test name = true := by
  induction h with
  | literal _ _ => simp [internalNames]
  | property hr => simpa [internalNames] using hr.test hm
  | member _ _ hr _ ih => simpa [internalNames, or_imp, forall_and] using ⟨ih, hr.test hm⟩
  | unary _ _ ih => exact ih
  | binary _ _ _ ihl ihr => simpa [internalNames, or_imp, forall_and] using ⟨ihl, ihr⟩
  | call _ _ ih =>
    intro name hname
    obtain ⟨e, he, hname⟩ := mem_internalNamesAll.mp hname
    exact ih e he name hname

/-- A resolved expression has a form, in which all names pass a test that the alias and the names in
the expression pass. -/
theorem exists_form_of_names (hn : ∀ name ∈ e.internalNames, test name = true)
    (hq : test qualifier = true) (h : e.Resolved model entity) :
    ∃ j, ofExpr qualifier e = .ok j ∧ j.Tidy test := by
  induction h with
  | literal _ hl => exact ⟨_, rfl, .literal hl⟩
  | property _ => exact ⟨_, rfl, .path (.property hq (hn _ (by simp [internalNames])))⟩
  | member hp hs _ _ ih =>
    obtain ⟨base, hbase, htidy⟩ := ih fun name hname => hn name (by simp [internalNames, hname])
    rw [ofExpr, hbase]
    exact ⟨_, rfl, .path (.member (hp.isPath_form hs hbase htidy) (hn _ (by simp [internalNames])))⟩
  | @unary _ op _ _ _ ih =>
    obtain ⟨inner, hinner, htidy⟩ := ih hn
    cases op with
    | not =>
      rw [ofExpr, hinner]
      exact ⟨_, rfl, .not htidy⟩
    | negate =>
      rw [ofExpr, hinner]
      exact ⟨_, rfl, .negate (startsWithMinus_parenIf inner _) (htidy.parenIf _)⟩
  | @binary _ op _ _ _ _ _ ihl ihr =>
    obtain ⟨l, hl, htidyl⟩ := ihl fun name hname => hn name (by simp [internalNames, hname])
    obtain ⟨r, hr, htidyr⟩ := ihr fun name hname => hn name (by simp [internalNames, hname])
    rw [ofExpr, hl, hr, OperatorTable.isNone_get?_standard, Bool.and_false,
      if_neg Bool.false_ne_true]
    split
    · exact ⟨_, rfl, (htidyl.parenIf _).nullTest op⟩
    · split
      · exact ⟨_, rfl, (htidyr.parenIf _).nullTest op⟩
      · dsimp only
        split
        · next hop => exact ⟨_, rfl, .call (by rw [hop]; decide) (by simp [htidyl, htidyr])⟩
        · next hop => exact ⟨_, rfl, .binary hop (htidyl.parenIf _) (htidyr.parenIf _)⟩
  | call _ hc ih =>
    obtain ⟨actual, s, htypes, hs, htakes, _⟩ := Signatures.resolve_declared hc
    obtain ⟨js, hjs, hlength, hall⟩ := exists_ofExprs fun e he =>
      ih e he fun name hname => hn name (mem_internalNamesAll.mpr ⟨e, he, hname⟩)
    have hcount : actual.length = js.length := by
      simpa [hlength] using (congrArg List.length htypes).symm
    obtain ⟨j, hj, htidy⟩ := exists_ofMethod? hs (hcount ▸ htakes) hall
    refine ⟨j, ?_, htidy⟩
    rw [ofExpr, hjs]
    simp only [hj]

/-- A resolved expression has a form, in which all names pass a test that the alias and the names of
the model pass. -/
theorem exists_form (hm : model.allNames test = true) (hq : test qualifier = true)
    (h : e.Resolved model entity) : ∃ j, ofExpr qualifier e = .ok j ∧ j.Tidy test :=
  h.exists_form_of_names (h.test_internalNames hm) hq

/-- A resolved expression of a primitive type has a text. -/
theorem exists_translate (h : e.Resolved model entity) (ht : e.type.isStructural = false) :
    ∃ text, translate qualifier e = .ok text := by
  have hm : model.allNames (fun _ => true) = true := by simp [Model.allNames]
  obtain ⟨j, hj, _⟩ := @exists_form _ _ _ qualifier _ hm rfl h
  exact ⟨j.text, by simp [translate, ht, hj, Except.map]⟩

end Expr.Resolved

/-- The test of a key is tidy. -/
theorem ResolvedKey.tidy_test {test : String → Bool} {qualifier : String} {key : ResolvedKey}
    (hq : test qualifier = true) (hn : test key.property.internalName = true)
    (hv : key.value.value.isWellFormed = true) : (key.test qualifier).Tidy test := by
  unfold ResolvedKey.test
  split
  · exact .isNull (.path (.property hq hn))
  · exact .binary nofun (.path (.property hq hn)) (.literal hv)

end EntityQuery
