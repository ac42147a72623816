import EntityQuery.Proofs.Expr.Typing
import EntityQuery.Proofs.Jpql.Calls
import EntityQuery.Proofs.Operator.Promotion

/-!
# Splices in the forms of methods

Two methods put an argument beside an operator and never in parentheses: `substring` adds 1 to its
index, and `endswith` compares with its suffix. Main result: among the nodes of an expression that
was read, only those of Boolean type bind less tightly than a sum. So in the texts of the calls,
neither an index nor a suffix is taken apart by the operator beside it.
-/

namespace EntityQuery

/-! ### Boolean operands -/

/-- Only a Boolean parameter takes a Boolean operand. -/
theorem SimpleType.accepts_boolean {formal : SimpleType} (h : formal.accepts .boolean = true) :
    formal = .boolean := by
  revert h
  cases formal <;> decide

theorem Signature.Stands.mem_parameters {s : Signature} {formals : List SimpleType}
    (h : s.Stands formals) : ∀ formal ∈ formals, formal ∈ s.parameters := by
  cases h with
  | once => exact fun _ hmem => hmem
  | repeated _ hlast times =>
    intro formal hmem
    rcases List.mem_append.mp hmem with hmem | hmem
    · exact hmem
    · rw [List.eq_of_mem_replicate hmem]
      exact List.mem_of_getLast? hlast

/-- A signature without Boolean parameters takes no Boolean operands. -/
theorem Signature.Promotes.boolean_notMem {s : Signature} {actual : List SimpleType}
    (h : s.Promotes actual) (hs : .boolean ∉ s.parameters) : .boolean ∉ actual := by
  obtain ⟨formals, hstands, hall⟩ := h
  have hformals : .boolean ∉ formals := fun hmem => hs (hstands.mem_parameters _ hmem)
  clear hstands
  induction hall with
  | nil => exact List.not_mem_nil
  | cons hfirst _ ih =>
    rw [List.mem_cons, not_or] at hformals
    rw [List.mem_cons, not_or]
    refine ⟨?_, ih hformals.2⟩
    rintro rfl
    exact hformals.1 (SimpleType.accepts_boolean hfirst).symm

section Operands

variable {operands : List ValueType} {type : ValueType}

/-- Declared signatures give a type by one of them that the operands may be promoted to. -/
theorem Signatures.resolve_promotes {list : List Signature}
    (h : (declared list).resolve operands = .ok (some type)) :
    ∃ (actual : List SimpleType) (s : Signature), operands = actual.map .simple ∧ s ∈ list ∧
      s.Promotes actual ∧ type = .simple s.result := by
  obtain ⟨actual, _, rfl, _⟩ := resolve_declared h
  obtain ⟨s, hchooses, rfl⟩ := exists_chooses_of_resolve h
  rcases hchooses with ⟨hstands, before, after, rfl, _⟩ | ⟨_, hpromotes, before, after, rfl, _⟩
  · exact ⟨actual, s, rfl, by simp, hstands.promotes, rfl⟩
  · exact ⟨actual, s, rfl, by simp, hpromotes, rfl⟩

/-- Operands are not Boolean where no signature of the resulting type has a Boolean parameter. -/
theorem Signatures.operand_ne_boolean {list : List Signature}
    (h : (declared list).resolve operands = .ok (some type))
    (hlist : ∀ s ∈ list, type = .simple s.result → .boolean ∉ s.parameters) :
    ∀ t ∈ operands, t ≠ .simple .boolean := by
  obtain ⟨actual, s, rfl, hmem, hpromotes, htype⟩ := resolve_promotes h
  have hnot := hpromotes.boolean_notMem (hlist s hmem htype)
  rintro t ht rfl
  obtain ⟨u, hu, heq⟩ := List.mem_map.mp ht
  cases heq
  exact hnot hu

/-- Arithmetic is not done on truth values. -/
theorem BinaryOperator.operand_ne_boolean {op : BinaryOperator}
    (h : (Operator.binary op).descriptor.resolve operands = .ok (some type))
    (htype : type ≠ .simple .boolean) : ∀ t ∈ operands, t ≠ .simple .boolean := by
  have hresult : ∀ s ∈ op.signatures, s.result ≠ .boolean → .boolean ∉ s.parameters := by
    cases op <;> decide
  refine Signatures.operand_ne_boolean h fun s hs ht => hresult s hs fun hboolean => ?_
  exact htype (by rw [ht, hboolean])

/-- A sign is not put before truth values. -/
theorem UnaryOperator.operand_ne_boolean
    (h : (Operator.unary .negate).descriptor.resolve operands = .ok (some type)) :
    ∀ t ∈ operands, t ≠ .simple .boolean := by
  have hparameters : ∀ s ∈ UnaryOperator.negate.signatures, .boolean ∉ s.parameters := by decide
  exact @Signatures.operand_ne_boolean _ _ UnaryOperator.negate.signatures h
    fun s hs _ => hparameters s hs

/-- Negation gives truth values. -/
theorem UnaryOperator.eq_negate_of_result {op : UnaryOperator}
    (h : (Operator.unary op).descriptor.resolve operands = .ok (some type))
    (htype : type ≠ .simple .boolean) : op = .negate := by
  cases op with
  | negate => rfl
  | not =>
    obtain ⟨_, s, _, hs, _, rfl⟩ := @Signatures.resolve_declared UnaryOperator.not.signatures _ _ h
    rw [List.mem_singleton.mp hs] at htype
    exact absurd rfl htype

/-- No method takes truth values. -/
theorem Method.operand_ne_boolean {method : Method}
    (h : (Operator.method method).descriptor.resolve operands = .ok (some type)) :
    ∀ t ∈ operands, t ≠ .simple .boolean := by
  have hparameters : ∀ s ∈ method.signatures, .boolean ∉ s.parameters := by
    cases method <;> decide
  exact @Signatures.operand_ne_boolean _ _ method.signatures h fun s hs _ => hparameters s hs

/-- The methods that give truth values. -/
def Method.tests : List Method := [.substringOf, .startsWith, .endsWith]

theorem Method.notMem_tests_of_result {method : Method}
    (h : (Operator.method method).descriptor.resolve operands = .ok (some type))
    (htype : type ≠ .simple .boolean) : method ∉ tests := by
  obtain ⟨_, s, _, hs, _, rfl⟩ := @Signatures.resolve_declared method.signatures _ _ h
  have hresult : ∀ s ∈ method.signatures, s.result ≠ .boolean → method ∉ tests := by
    cases method <;> decide
  exact hresult s hs fun hboolean => htype (by rw [hboolean])

/-- Operators that bind less tightly than a sum give truth values. -/
theorem BinaryOperator.strength_le_of_result {op : BinaryOperator}
    (h : (Operator.binary op).descriptor.resolve operands = .ok (some type))
    (htype : type ≠ .simple .boolean) : BinaryOperator.add.strength ≤ op.strength := by
  obtain ⟨_, s, _, hs, _, rfl⟩ := @Signatures.resolve_declared op.signatures _ _ h
  have hresult : ∀ s ∈ op.signatures, s.result ≠ .boolean →
      BinaryOperator.add.strength ≤ op.strength := by
    cases op <;> decide
  exact hresult s hs fun hboolean => htype (by rw [hboolean])

end Operands

namespace Expr

/-! ### The strength of nodes -/

variable {model : Model} {entity : ValueType} {e : Expr}

/-- A resolved expression that is not Boolean binds at least as tightly as a sum. -/
theorem Resolved.strength_le (h : e.Resolved model entity) (ht : e.type ≠ .simple .boolean) :
    BinaryOperator.add.strength ≤ e.strength := by
  have hatom : BinaryOperator.add.strength ≤ atomStrength := by decide
  cases h with
  | @unary _ op _ _ _ =>
    cases op with
    | not => exact hatom
    | negate => exact (by decide : BinaryOperator.add.strength ≤ 7)
  | binary _ _ hc => exact BinaryOperator.strength_le_of_result hc ht
  | _ => exact hatom

/-- The nodes of a resolved tree are resolved, but for the properties that are members of paths. -/
theorem Resolved.of_mem_nodes (h : e.Resolved model entity) :
    ∀ place : NodePlace, ∀ node ∈ e.nodes place,
      node.2.Resolved model entity ∨ ∃ note ref, node.2 = .property note ref := by
  induction h with
  | literal ht hl =>
    intro place node hnode
    rw [List.mem_singleton.mp hnode]
    exact .inl (.literal ht hl)
  | property hr =>
    intro place node hnode
    rw [List.mem_singleton.mp hnode]
    exact .inl (.property hr)
  | member hp hs hr ht ih =>
    intro place node hnode
    simp only [nodes, List.mem_cons, List.mem_append, List.not_mem_nil, or_false] at hnode
    rcases hnode with rfl | hnode | rfl
    · exact .inl (.member hp hs hr ht)
    · exact ih .path node hnode
    · exact .inr ⟨_, _, rfl⟩
  | unary h hc ih =>
    intro place node hnode
    rcases List.mem_cons.mp hnode with rfl | hnode
    · exact .inl (.unary h hc)
    · exact ih .operand node hnode
  | binary hl hr hc ihl ihr =>
    intro place node hnode
    simp only [nodes, List.mem_cons, List.mem_append] at hnode
    rcases hnode with rfl | hnode | hnode
    · exact .inl (.binary hl hr hc)
    · exact ihl .operand node hnode
    · exact ihr .operand node hnode
  | call h hc ih =>
    intro place node hnode
    rcases List.mem_cons.mp hnode with rfl | hnode
    · exact .inl (.call h hc)
    · obtain ⟨argument, hargument, hnode⟩ := exists_of_mem_argumentNodes hnode
      exact ih argument hargument .operand node hnode

/-! ### What the reader finds -/

open Jpql

variable {qualifier : String} {negation : Nat}

/-- The form of an arithmetic operator: a function call for a remainder, else the operator between
the operands. -/
private theorem exists_of_ofExpr_arithmetic {note : Annotation} {op : BinaryOperator}
    {left right : Expr} {j : Jpql} (hop : BinaryOperator.add.strength ≤ op.strength)
    (hj : ofExpr qualifier (.binary note op left right) = .ok j) :
    ∃ l r, ofExpr qualifier left = .ok l ∧ ofExpr qualifier right = .ok r ∧
      (op = .mod ∧ j = .call op.surface [l, r] ∨
        op ≠ .mod ∧ j = .binary op (l.parenIf (left.needsParen op false))
          (r.parenIf (right.needsParen op true))) := by
  have hequality : op.isEquality = false := by
    cases heq : op.isEquality with
    | true =>
      have hlt : comparisonStrength < op.strength := Nat.lt_of_lt_of_le (by decide) hop
      exact absurd (op.strength_of_isEquality heq) (Nat.ne_of_gt hlt)
    | false => rfl
  rw [ofExpr, hequality, OperatorTable.isNone_get?_standard, Bool.and_false, Bool.false_and,
    Bool.false_and, if_neg Bool.false_ne_true, if_neg Bool.false_ne_true,
    if_neg Bool.false_ne_true] at hj
  split at hj
  · cases hj
  · cases hj
  · next l r hl hr =>
    refine ⟨l, r, hl, hr, ?_⟩
    split at hj
    · next hmod =>
      cases hj
      exact .inl ⟨hmod, rfl⟩
    · next hmod =>
      cases hj
      exact .inr ⟨hmod, rfl⟩

/-- Plain names make the form of an expression tidy. -/
private theorem Resolved.tidy (h : e.Resolved model entity)
    (hq : Text.isPlainName qualifier = true)
    (hn : ∀ name ∈ e.internalNames, Text.isPlainName name = true) {j : Jpql}
    (hj : ofExpr qualifier e = .ok j) : j.Tidy Text.isPlainName := by
  obtain ⟨_, hform, htidy⟩ := h.exists_form_of_names hn hq
  rw [hj] at hform
  cases hform
  exact htidy

private theorem writes_one : Writes (integer 1).text (.literal "1") :=
  @Writes.literal (Literal.integer 1) rfl

/-- Calls of methods that do not test are found anywhere. -/
private theorem exists_writes_ofMethod? {method : Method} {arguments : List Jpql} {j : Jpql}
    (h : ofMethod? method arguments = some j) (hm : method ∉ Method.tests)
    (ht : j.Tidy Text.isPlainName) :
    ∃ p, Writes j.text p ∧ ∀ negation least after, p.Stable negation least after := by
  have hcall {name : String} {arguments : List Jpql} (hmod : name ≠ "MOD")
      (ht : (Jpql.call name arguments).Tidy Text.isPlainName) :
      ∃ p, Writes (Jpql.call name arguments).text p ∧
        ∀ negation least after, p.Stable negation least after := by
    obtain ⟨call, hwrites⟩ := ht.exists_writes_call hmod
    exact ⟨_, hwrites, fun _ _ _ => trivial⟩
  have hextract {field : String} {operand : Jpql}
      (ht : (Jpql.extract field operand).Tidy Text.isPlainName) :
      ∃ p, Writes (Jpql.extract field operand).text p ∧
        ∀ negation least after, p.Stable negation least after := by
    obtain ⟨call, hwrites⟩ := ht.exists_writes_extract
    exact ⟨_, hwrites, fun _ _ _ => trivial⟩
  unfold ofMethod? at h
  split at h
  case h_1 | h_2 | h_3 => exact absurd (by decide) hm
  all_goals cases h
  case h_4 =>
    -- An index is found by a difference in parentheses.
    cases ht with
    | path h => cases h
    | paren ht =>
      cases ht with
      | path h => cases h
      | binary hop hlocate _ =>
        obtain ⟨call, hwrites⟩ := hlocate.exists_writes_call (by decide)
        refine ⟨_, (hwrites.binary hop writes_one).group, fun _ _ _ => ?_⟩
        exact ⟨by decide, by decide, fun h => absurd h (by decide), trivial, trivial⟩
  case h_14 | h_15 | h_16 | h_17 | h_18 | h_19 => exact hextract ht
  all_goals exact hcall (by decide) ht

/-- The reader finds the text of an expression that is not Boolean, with its chains grouped to the
left. -/
theorem Resolved.exists_phrase (h : e.Resolved model entity) (ht : e.type ≠ .simple .boolean)
    (hq : Text.isPlainName qualifier = true)
    (hn : ∀ name ∈ e.internalNames, Text.isPlainName name = true) {j : Jpql}
    (hj : ofExpr qualifier e = .ok j) :
    ∃ p, Writes j.text p ∧ ∀ negation, e.Found negation minusStrength p := by
  induction h generalizing j with
  | @literal note l _ hl =>
    cases hj
    exact ⟨_, .literal hl, fun _ => Found.literal note l⟩
  | property _ =>
    cases hj
    exact ⟨_, .path (.property hq (hn _ (by simp [internalNames]))), fun _ _ _ _ _ _ => trivial⟩
  | member hp hs hr htype _ =>
    have htidy := (Resolved.member hp hs hr htype).tidy hq hn hj
    rw [ofExpr] at hj
    obtain ⟨base, _, rfl⟩ := map_eq_ok_iff.mp hj
    cases htidy with
    | path hpath => exact ⟨_, .path hpath, fun _ _ _ _ _ _ => trivial⟩
  | @unary note op operand _ hc ih =>
    obtain rfl := UnaryOperator.eq_negate_of_result hc ht
    rw [ofExpr] at hj
    obtain ⟨inner, hinner, rfl⟩ := map_eq_ok_iff.mp hj
    obtain ⟨p, hwrites, hfound⟩ :=
      ih (UnaryOperator.operand_ne_boolean hc _ List.mem_cons_self) hn hinner
    refine ⟨_, (hwrites.groupIf _).negate, fun negation => (hfound negation).negate ?_ note⟩
    exact fun hneeded => Nat.le_of_not_lt (of_decide_eq_false (Bool.or_eq_false_iff.mp hneeded).1)
  | @binary note op left right _ _ hc ihl ihr =>
    have hle := BinaryOperator.strength_le_of_result hc ht
    have hne := BinaryOperator.operand_ne_boolean hc ht
    obtain ⟨l, r, hl, hr, hform⟩ := exists_of_ofExpr_arithmetic hle hj
    obtain ⟨p, hwrites, hfound⟩ := ihl (hne _ (by simp))
      (fun name hname => hn name (by simp [internalNames, hname])) hl
    obtain ⟨q, hwrites', hfound'⟩ := ihr (hne _ (by simp))
      (fun name hname => hn name (by simp [internalNames, hname])) hr
    rcases hform with ⟨rfl, rfl⟩ | ⟨hop, rfl⟩
    · have htext : (Jpql.call BinaryOperator.mod.surface [l, r]).text =
          "MOD" ++ "(" ++ (l.text ++ ", " ++ r.text) ++ ")" := by
        simp [text, texts, BinaryOperator.surface]
      refine ⟨_, htext ▸ hwrites.modulo hwrites', fun negation _ _ _ _ _ => ?_⟩
      exact ⟨(hfound negation).group (by decide), (hfound' negation).group (by decide)⟩
    · have htest : op.strength ≠ comparisonStrength :=
        Nat.ne_of_gt (Nat.lt_of_lt_of_le (by decide) hle)
      refine ⟨_, ((hwrites.groupIf _).binary hop (hwrites'.groupIf _)).of_words
        (Phrase.words_graft op _ _), fun negation least after hleast hafter _ => ?_⟩
      exact (hfound negation).graft (hfound' negation) (op.strength_lt_minus hop) htest hleast
        hafter
  | call hall hc _ =>
    have htidy := (Resolved.call hall hc).tidy hq hn hj
    rw [ofExpr] at hj
    split at hj
    · cases hj
    · split at hj
      · next hmethod =>
        cases hj
        obtain ⟨p, hwrites, hstable⟩ :=
          exists_writes_ofMethod? hmethod (Method.notMem_tests_of_result hc ht) htidy
        exact ⟨p, hwrites, fun _ _ _ _ _ _ => hstable _ _ _⟩
      · cases hj

/-! ### Parentheses -/

/-- Nothing that binds at least as tightly as a sum needs parentheses before a plus sign. -/
theorem needsParen_add (h : BinaryOperator.add.strength ≤ e.strength) :
    e.needsParen .add false = false := by
  unfold needsParen
  rw [if_neg (Nat.not_lt_of_le h)]
  split
  · rfl
  · rfl

/-- Nothing that binds at least as tightly as a sum needs parentheses behind an equality sign, and
it is no condition. -/
theorem needsParen_eq (h : BinaryOperator.add.strength ≤ e.strength) :
    e.needsParen .eq true = false ∧
      ∀ op : BinaryOperator, op.strength ≤ comparisonStrength → e.isChainOf op = false := by
  have hlt : BinaryOperator.eq.strength < e.strength := Nat.lt_of_lt_of_le (by decide) h
  constructor
  · unfold needsParen
    rw [if_neg (Nat.lt_asymm hlt), if_pos hlt]
  · intro op hop
    cases e with
    | binary note inner left right =>
      have hlt : comparisonStrength < inner.strength := hlt
      rw [isChainOf, beq_eq_false_iff_ne]
      rintro rfl
      omega
    | _ => rfl

/-! ### Arguments -/

/-- What is known of an argument: it is resolved, of a primitive type and not Boolean. -/
structure IsArgument (model : Model) (entity : ValueType) (e : Expr) : Prop where
  resolved : e.Resolved model entity
  ne_boolean : e.type ≠ .simple .boolean
  not_structural : e.type.isStructural = false

theorem Resolved.isArgument_of_mem {note : Annotation} {method : Method} {arguments : List Expr}
    (h : (Expr.call note method arguments).Resolved model entity) :
    ∀ e ∈ arguments, e.IsArgument model entity := by
  intro e he
  cases h with
  | call hall hc =>
    have hmem : e.type ∈ arguments.map Expr.type := List.mem_map_of_mem he
    exact ⟨hall e he, Method.operand_ne_boolean hc _ hmem,
      Operator.isStructural_of_operand hc (by simp) hmem⟩

theorem translate_eq_ok {j : Jpql} (hs : e.type.isStructural = false)
    (hj : ofExpr qualifier e = .ok j) : translate qualifier e = .ok j.text := by
  rw [translate, hs, hj]
  rfl

/-- The forms of expressions, one by one. -/
private theorem forall₂_of_ofExprs {es : List Expr} {js : List Jpql}
    (h : ofExprs qualifier es = .ok js) :
    List.Forall₂ (fun e j => ofExpr qualifier e = .ok j) es js := by
  induction es generalizing js with
  | nil =>
    cases h
    exact .nil
  | cons e rest ih =>
    rw [ofExprs] at h
    split at h
    · cases h
    · cases h
    · next j js hj hjs =>
      cases h
      exact .cons hj (ih hjs)

private theorem forall₂_translate {es : List Expr} {js : List Jpql}
    (h : List.Forall₂ (fun e j => ofExpr qualifier e = .ok j) es js)
    (hes : ∀ e ∈ es, e.type.isStructural = false) :
    List.Forall₂ (fun e s => translate qualifier e = .ok s) es (js.map Jpql.text) := by
  induction h with
  | nil => exact .nil
  | cons hj _ ih =>
    rw [List.forall_mem_cons] at hes
    exact .cons (translate_eq_ok hes.1 hj) (ih hes.2)

/-- The alias and all names of the tree are plain, so a text with them is cut into words as it was
put together. -/
def hasPlainNames (qualifier : String) (e : Expr) : Bool :=
  Text.isPlainName qualifier && e.internalNames.all Text.isPlainName

/-- The form of a call is made of the forms of its arguments. -/
private theorem Resolved.exists_ofMethod? {note : Annotation} {method : Method}
    {arguments : List Expr} (h : (Expr.call note method arguments).Resolved model entity)
    (qualifier : String) :
    ∃ js j, List.Forall₂ (fun e j => ofExpr qualifier e = .ok j) arguments js ∧
      ofMethod? method js = some j ∧
      translate qualifier (.call note method arguments) = .ok j.text ∧
      ((Expr.call note method arguments).hasPlainNames qualifier = true →
        j.Tidy Text.isPlainName) := by
  have hm : model.allNames (fun _ => true) = true := by simp [Model.allNames]
  obtain ⟨j, hj, _⟩ := @exists_form _ _ _ qualifier _ hm rfl h
  have hstructural : note.type.isStructural = false := by
    cases h with
    | call _ hc => exact Operator.isStructural_of_result hc (by simp)
  have htext := @translate_eq_ok (.call note method arguments) _ _ hstructural hj
  have htidy (hn : (Expr.call note method arguments).hasPlainNames qualifier = true) :
      j.Tidy Text.isPlainName := by
    rw [hasPlainNames, Bool.and_eq_true, List.all_eq_true] at hn
    exact h.tidy hn.1 hn.2 hj
  rw [ofExpr] at hj
  split at hj
  · cases hj
  · next js hjs =>
    split at hj
    · next hmethod =>
      cases hj
      exact ⟨js, _, forall₂_of_ofExprs hjs, hmethod, htext, htidy⟩
    · cases hj

/-- The number of arguments is that of the parameters of a signature, where none is variadic. -/
private theorem Resolved.exists_length_eq {note : Annotation} {method : Method}
    {arguments : List Expr} (h : (Expr.call note method arguments).Resolved model entity)
    (hm : ∀ s ∈ method.signatures, s.variadic = false) :
    ∃ s ∈ method.signatures, arguments.length = s.parameters.length := by
  cases h with
  | call _ hc =>
    obtain ⟨actual, s, htypes, hs, htakes, _⟩ :=
      @Signatures.resolve_declared method.signatures _ _ hc
    rw [Signature.takes, hm s hs, if_neg Bool.false_ne_true, beq_iff_eq] at htakes
    have hlength : arguments.length = actual.length := by
      simpa using congrArg List.length htypes
    exact ⟨s, hs, hlength.trans htakes⟩

/-- The text of an argument is read, and nothing beside it that binds less tightly than its root
takes it apart. -/
private theorem IsArgument.exists_phrase {note : Annotation} {method : Method}
    {arguments : List Expr} (h : e.IsArgument model entity) (he : e ∈ arguments)
    (hn : (Expr.call note method arguments).hasPlainNames qualifier = true) {j : Jpql}
    (hj : ofExpr qualifier e = .ok j) :
    ∃ p, Writes j.text p ∧ ∀ negation, e.Found negation minusStrength p := by
  rw [hasPlainNames, Bool.and_eq_true, List.all_eq_true] at hn
  refine h.resolved.exists_phrase h.ne_boolean hn.1 (fun name hname => hn.2 name ?_) hj
  exact mem_internalNamesAll.mpr ⟨e, he, hname⟩

/-- The texts of arguments are read one by one. -/
private theorem exists_phrases {note : Annotation} {method : Method} {arguments : List Expr}
    (h : ∀ e ∈ arguments, e.IsArgument model entity)
    (hn : (Expr.call note method arguments).hasPlainNames qualifier = true) {es : List Expr}
    {js : List Jpql} (hforms : List.Forall₂ (fun e j => ofExpr qualifier e = .ok j) es js)
    (hes : ∀ e ∈ es, e ∈ arguments) (negation : Nat) :
    ∃ ps, List.Forall₂ (fun text p => Writes text p ∧ p.Stable negation 1 0) (js.map text) ps := by
  induction hforms with
  | nil => exact ⟨[], .nil⟩
  | @cons e j rest js hj _ ih =>
    rw [List.forall_mem_cons] at hes
    obtain ⟨p, hwrites, hfound⟩ := (h e hes.1).exists_phrase hes.1 hn hj
    obtain ⟨ps, hps⟩ := ih hes.2
    exact ⟨p :: ps, .cons ⟨hwrites, (hfound negation).group (by decide)⟩ hps⟩

/-! ### Splices -/

/-- The text of a call of `substring`: the index stands before a plus sign, without parentheses.
Where names are plain, what a reader finds in the second place is 1 added to all that it finds in
the index, however tightly `NOT` binds. -/
def SplicesIndex (qualifier : String) (call text index : Expr) (rest : List Expr) : Prop :=
  ∃ t i ts written, translate qualifier text = .ok t ∧ translate qualifier index = .ok i ∧
    List.Forall₂ (fun e s => translate qualifier e = .ok s) rest ts ∧
    translate qualifier call = .ok written ∧
    written = "SUBSTRING(" ++ ", ".intercalate (t :: (i ++ " + 1") :: ts) ++ ")" ∧
    (call.hasPlainNames qualifier = true → ∀ negation, ∃ p q ps,
      readCalls negation t = some p ∧ readCalls negation i = some q ∧
      List.Forall₂ (fun s r => readCalls negation s = some r) ts ps ∧
      readArguments negation written =
        some ("SUBSTRING", p :: .binary .add q (.literal "1") :: ps))

/-- The text of a call of `endswith`: the suffix stands behind an equality sign, without
parentheses. Where names are plain, a reader finds the part of the text compared with all that it
finds in the suffix, however tightly `NOT` binds. -/
def SplicesSuffix (qualifier : String) (call text suffix : Expr) : Prop :=
  ∃ t s part written, translate qualifier text = .ok t ∧ translate qualifier suffix = .ok s ∧
    translate qualifier call = .ok written ∧
    part = "SUBSTRING(" ++ t ++ ", LENGTH(" ++ t ++ ") - LENGTH(" ++ s ++ ") + 1)" ∧
    written = "(" ++ part ++ " = " ++ s ++ ")" ∧
    (call.hasPlainNames qualifier = true → ∀ negation, ∃ c q,
      readCalls negation part = some (.literal c) ∧ readCalls negation s = some q ∧
      readCalls negation written = some (.group (.binary .eq (.literal c) q)))

theorem Resolved.splicesIndex {note : Annotation} {text index : Expr} {rest : List Expr}
    (h : (Expr.call note .substring (text :: index :: rest)).Resolved model entity)
    (hrest : rest.length ≤ 1) (qualifier : String) :
    (Expr.call note .substring (text :: index :: rest)).SplicesIndex qualifier text index rest := by
  have harguments := h.isArgument_of_mem
  have htext := harguments text (by simp)
  have hindex := harguments index (by simp)
  obtain ⟨js, j, hforms, hmethod, hwritten, _⟩ := h.exists_ofMethod? qualifier
  obtain ⟨a, tail, ha, htail, rfl⟩ := List.forall₂_cons_left_iff.mp hforms
  obtain ⟨b, js, hb, hjs, rfl⟩ := List.forall₂_cons_left_iff.mp htail
  cases hmethod
  rw [List.take_of_length_le (hjs.length_eq ▸ hrest)] at hwritten
  have hspliced : b.text ++ " " ++ BinaryOperator.add.surface ++ " " ++ (integer 1).text =
      b.text ++ " + 1" := by
    rw [String.append_assoc, String.append_assoc, String.append_assoc]
    rfl
  have hform : (Jpql.call "SUBSTRING" (a :: .binary .add b (integer 1) :: js)).text =
      "SUBSTRING(" ++ ", ".intercalate (a.text :: (b.text ++ " + 1") :: js.map Jpql.text) ++
        ")" := by
    rw [Jpql.text, texts, texts, texts_eq_map, Jpql.text, hspliced]
    rfl
  have htexts : List.Forall₂ (fun e s => translate qualifier e = .ok s) rest (js.map Jpql.text) :=
    forall₂_translate hjs fun e he => (harguments e (by simp [he])).not_structural
  refine ⟨a.text, b.text, js.map Jpql.text, _, translate_eq_ok htext.not_structural ha,
    translate_eq_ok hindex.not_structural hb, htexts, hwritten, hform, fun hn negation => ?_⟩
  obtain ⟨p, hp, hfound⟩ := htext.exists_phrase (by simp) hn ha
  obtain ⟨q, hq, hfound'⟩ := hindex.exists_phrase (by simp) hn hb
  obtain ⟨ps, hps⟩ := exists_phrases harguments hn hjs (by simp +contextual) negation
  have hread := (hfound negation).group (by decide)
  have hread' := (hfound' negation).group (by decide)
  have hsum : (Phrase.binary .add q (.literal "1")).Stable negation 1 0 :=
    ⟨by decide, by decide, fun h => absurd h (by decide),
      hfound' negation 1 BinaryOperator.add.strength index.strength_pos
        (hindex.resolved.strength_le hindex.ne_boolean) (by decide), trivial⟩
  have hone : Writes (b.text ++ " + 1") (.binary .add q (.literal "1")) :=
    hspliced ▸ hq.binary (by decide) writes_one
  refine ⟨p, q, ps, hp.readCalls_eq hread, hq.readCalls_eq hread',
    hps.imp fun _ _ h => h.1.readCalls_eq h.2, ?_⟩
  rw [hform]
  exact @readArguments_eq _ "SUBSTRING" _ _ (by decide) (by decide)
    (.cons ⟨hp, hread⟩ (.cons ⟨hone, hsum⟩ hps)) (by simp)

theorem Resolved.splicesSuffix {note : Annotation} {text suffix : Expr}
    (h : (Expr.call note .endsWith [text, suffix]).Resolved model entity) (qualifier : String) :
    (Expr.call note .endsWith [text, suffix]).SplicesSuffix qualifier text suffix := by
  have harguments := h.isArgument_of_mem
  have htext := harguments text (by simp)
  have hsuffix := harguments suffix (by simp)
  obtain ⟨js, j, hforms, hmethod, hwritten, htidy⟩ := h.exists_ofMethod? qualifier
  obtain ⟨a, tail, ha, htail, rfl⟩ := List.forall₂_cons_left_iff.mp hforms
  obtain ⟨b, js, hb, hjs, rfl⟩ := List.forall₂_cons_left_iff.mp htail
  cases hmethod
  have hpart : (Jpql.call "SUBSTRING" [a, .binary .add
      (.binary .sub (.call "LENGTH" [a]) (.call "LENGTH" [b])) (integer 1)]).text =
      "SUBSTRING(" ++ a.text ++ ", LENGTH(" ++ a.text ++ ") - LENGTH(" ++ b.text ++ ") + 1)" := by
    have hone : (integer 1).text = "1" := rfl
    apply String.toList_injective
    simp [Jpql.text, texts, BinaryOperator.surface, hone]
  have hform (inner : Jpql) : (Jpql.paren (.binary .eq inner b)).text =
      "(" ++ inner.text ++ " = " ++ b.text ++ ")" := by
    apply String.toList_injective
    simp [Jpql.text, BinaryOperator.surface]
  refine ⟨a.text, b.text, _, _, translate_eq_ok htext.not_structural ha,
    translate_eq_ok hsuffix.not_structural hb, hwritten, rfl, by rw [hform, hpart],
    fun hn negation => ?_⟩
  obtain ⟨q, hq, hfound⟩ := hsuffix.exists_phrase (by simp) hn hb
  have hright := hfound negation (comparisonStrength + 1) 0
    (hsuffix.resolved.strength_le hsuffix.ne_boolean) (Nat.zero_le _) (by decide)
  cases htidy hn with
  | path h => cases h
  | paren hinner =>
    cases hinner with
    | path h => cases h
    | binary hop hcall _ =>
      obtain ⟨c, hc⟩ := hcall.exists_writes_call (by decide)
      refine ⟨c, q, ?_, hq.readCalls_eq ((hfound negation).group (by decide)), ?_⟩
      · rw [← hpart]
        exact hc.readCalls_eq trivial
      · refine (hc.binary hop hq).group.readCalls_eq ?_
        exact ⟨by decide, by decide, fun _ => (by decide : atomStrength ≠ comparisonStrength),
          trivial, hright⟩

/-- Nodes that are not Boolean bind at least as tightly as a sum. However deep they stand, the index
of a `substring` is whole before its plus sign, and the suffix of an `endswith` is whole behind its
equality sign and is no condition itself. -/
structure KeepsSplices (e : Expr) : Prop where
  strength_le : ∀ node ∈ e.nodes .root, node.2.type ≠ .simple .boolean →
    BinaryOperator.add.strength ≤ node.2.strength
  index : ∀ node ∈ e.nodes .root, ∀ note arguments, node.2 = .call note .substring arguments →
    ∃ text index rest, arguments = text :: index :: rest ∧ index.needsParen .add false = false ∧
      ∀ qualifier, node.2.SplicesIndex qualifier text index rest
  suffix : ∀ node ∈ e.nodes .root, ∀ note arguments, node.2 = .call note .endsWith arguments →
    ∃ text suffix, arguments = [text, suffix] ∧ suffix.needsParen .eq true = false ∧
      (∀ op : BinaryOperator, op.strength ≤ comparisonStrength → suffix.isChainOf op = false) ∧
      ∀ qualifier, node.2.SplicesSuffix qualifier text suffix

end Expr

/-- An expression that was read keeps what its methods splice. -/
theorem keepsSplices_of_parseExpression (model : Model) (entityType : EntityType) (input : String)
    (e : Expr) (h : parseExpression model entityType input = .ok e) : e.KeepsSplices := by
  have hnodes := (resolved_of_parseExpression h).of_mem_nodes .root
  have hcall {node : NodePlace × Expr} (hnode : node ∈ e.nodes .root) {note : Annotation}
      {method : Method} {arguments : List Expr} (heq : node.2 = .call note method arguments) :
      (Expr.call note method arguments).Resolved model (.entity entityType.name) := by
    rcases hnodes node hnode with hresolved | ⟨_, _, hproperty⟩
    · rwa [heq] at hresolved
    · rw [heq] at hproperty
      cases hproperty
  refine ⟨?_, ?_, ?_⟩
  · intro node hnode ht
    rcases hnodes node hnode with hresolved | ⟨note, ref, hproperty⟩
    · exact hresolved.strength_le ht
    · rw [hproperty]
      exact (by decide : BinaryOperator.add.strength ≤ atomStrength)
  · intro node hnode note arguments heq
    have hresolved := hcall hnode heq
    obtain ⟨s, hs, hlength⟩ := hresolved.exists_length_eq (by decide)
    have hcount : 2 ≤ s.parameters.length ∧ s.parameters.length ≤ 3 := by
      have hall : ∀ s ∈ Method.substring.signatures,
          2 ≤ s.parameters.length ∧ s.parameters.length ≤ 3 := by
        decide
      exact hall s hs
    have htwo : 2 ≤ arguments.length := hlength ▸ hcount.1
    match arguments, htwo with
    | text :: index :: rest, _ =>
      have hindex := hresolved.isArgument_of_mem index (by simp)
      have hrest : rest.length ≤ 1 := by
        simp only [List.length_cons] at hlength
        omega
      refine ⟨text, index, rest, rfl, ?_, fun qualifier => ?_⟩
      · exact Expr.needsParen_add (hindex.resolved.strength_le hindex.ne_boolean)
      · rw [heq]
        exact hresolved.splicesIndex hrest qualifier
  · intro node hnode note arguments heq
    have hresolved := hcall hnode heq
    obtain ⟨s, hs, hlength⟩ := hresolved.exists_length_eq (by decide)
    rw [List.mem_singleton.mp hs] at hlength
    obtain ⟨text, suffix, rfl⟩ := List.length_eq_two.mp hlength
    have hsuffix := hresolved.isArgument_of_mem suffix (by simp)
    obtain ⟨hparen, hcondition⟩ :=
      Expr.needsParen_eq (hsuffix.resolved.strength_le hsuffix.ne_boolean)
    refine ⟨text, suffix, rfl, hparen, hcondition, fun qualifier => ?_⟩
    rw [heq]
    exact hresolved.splicesSuffix qualifier

/-- Indices that are a chain and a negative number, and a suffix with a call in it that has an index
itself. -/
def splicedInput : String :=
  "endswith(host/address.city, concat('a', substring('bc', home sub 1 add 2))) or " ++
    "substring('d', -home) eq 'd'"

def splicedText : String :=
  "(SUBSTRING(E1.host.address.town, LENGTH(E1.host.address.town) - " ++
    "LENGTH(CONCAT('a', SUBSTRING('bc', E1.goals - 1 + 2 + 1))) + 1) = " ++
    "CONCAT('a', SUBSTRING('bc', E1.goals - 1 + 2 + 1))) OR SUBSTRING('d', -E1.goals + 1) = 'd'"

theorem keepsSplices_sample : ∃ e,
    parseExpression leagueModel sampleType splicedInput = .ok e ∧
    translate "E1" e = .ok splicedText ∧ e.hasPlainNames "E1" = true ∧ e.KeepsSplices := by
  obtain ⟨e, he, htest⟩ := @exists_ok_of_any _ _
    (parseExpression leagueModel sampleType splicedInput)
    (fun e => (translate "E1" e).toOption == some splicedText && e.hasPlainNames "E1")
    (by decide +kernel)
  rw [Bool.and_eq_true, beq_iff_eq] at htest
  have hkeeps := keepsSplices_of_parseExpression leagueModel sampleType _ e he
  cases htext : translate "E1" e with
  | error err =>
    rw [htext] at htest
    cases htest.1
  | ok text =>
    rw [htext] at htest
    exact ⟨e, he, by rw [htext, Option.some.inj htest.1], htest.2, hkeeps⟩

end EntityQuery
