import EntityQuery.Jpql.OfExpr
import EntityQuery.Proofs.Expr.ErrorPlaces
import EntityQuery.Proofs.Expr.Typing

/-!
# Where the translation fails

A node has a fault if there is no JPQL form for it whatever its operands are: a member that is no
property, a method with too few arguments, an operator that the table does not know. A tree fails to
have a form only by a fault of one of its nodes. The nodes of a tree that was read have no faults,
so what was read has a JPQL text exactly if its type is primitive. Reading never stops at a node
that cannot be dealt with, since the standard table has an entry for every operator.
-/

namespace EntityQuery

/-- The number of arguments that the JPQL form of a method uses in any case. -/
def Method.leastArguments : Method → Nat
  | .concat => 0
  | .endsWith | .startsWith | .substringOf | .indexOf | .substring => 2
  | .toLower | .toUpper | .trim | .length | .year | .month | .day | .hour | .minute | .second
  | .round | .floor | .ceiling => 1

/-- What makes a node fail on its own, its operands apart. -/
def Expr.fault? : Expr → Option RenderError
  | .literal _ _ | .property _ _ | .unary _ _ _ => none
  | .member _ _ target => if target.kind = .property then none else some (.memberAccess target.kind)
  | .binary _ op _ _ =>
    if (OperatorTable.standard.get? (.binary op)).isNone then some (.unknownOperator op) else none
  | .call _ method arguments =>
    if arguments.length < method.leastArguments then some (.argumentCount method arguments.length)
    else none

/-- The signatures of a method ask for the arguments that its form uses. -/
theorem Method.leastArguments_le {m : Method} {s : Signature} (h : s ∈ m.signatures) :
    m.leastArguments ≤ s.parameters.length := by
  revert h
  revert s
  cases m <;> decide

namespace Jpql

/-- A method has a form unless it has too few arguments. -/
theorem lt_leastArguments {method : Method} {arguments : List Jpql}
    (h : ofMethod? method arguments = none) : arguments.length < method.leastArguments := by
  match arguments with
  | [] => cases method <;> first | exact Nat.succ_pos _ | cases h
  | [_] => cases method <;> first | exact Nat.one_lt_two | cases h
  | _ :: _ :: _ => cases method <;> cases h

private theorem length_of_ofExprs {qualifier : String} {es : List Expr} {js : List Jpql}
    (h : ofExprs qualifier es = .ok js) : js.length = es.length := by
  induction es generalizing js with
  | nil =>
    cases h
    rfl
  | cons e rest ih =>
    rw [ofExprs] at h
    split at h
    · cases h
    · cases h
    · next hrest =>
      cases h
      rw [List.length_cons, List.length_cons, ih hrest]

variable {qualifier : String} {err : RenderError}

mutual

/-- An error of the translation is the fault of a node. -/
theorem exists_fault_of_ofExpr : (e : Expr) → (place : NodePlace) →
    ofExpr qualifier e = .error err → ∃ x ∈ e.nodes place, x.2.fault? = some err
  | .literal _ _, _, h => by cases h
  | .property _ _, _, h => by cases h
  | .member note path target, place, h => by
    cases target with
    | property note' ref =>
      rw [ofExpr] at h
      obtain ⟨x, hx, hfault⟩ := exists_fault_of_ofExpr path .path (map_eq_error_iff.mp h)
      exact ⟨x, by simp [Expr.nodes, hx], hfault⟩
    | _ =>
      cases h
      exact ⟨_, List.mem_cons_self, rfl⟩
  | .unary _ op operand, place, h => by
    have hoperand : ofExpr qualifier operand = .error err := by
      cases op with
      | not => exact map_eq_error_iff.mp h
      | negate => exact map_eq_error_iff.mp h
    obtain ⟨x, hx, hfault⟩ := exists_fault_of_ofExpr operand .operand hoperand
    exact ⟨x, List.mem_cons_of_mem _ hx, hfault⟩
  | .binary note op left right, place, h => by
    have hleft (h : ofExpr qualifier left = .error err) :
        ∃ x ∈ (Expr.binary note op left right).nodes place, x.2.fault? = some err := by
      obtain ⟨x, hx, hfault⟩ := exists_fault_of_ofExpr left .operand h
      exact ⟨x, by simp [Expr.nodes, hx], hfault⟩
    have hright (h : ofExpr qualifier right = .error err) :
        ∃ x ∈ (Expr.binary note op left right).nodes place, x.2.fault? = some err := by
      obtain ⟨x, hx, hfault⟩ := exists_fault_of_ofExpr right .operand h
      exact ⟨x, by simp [Expr.nodes, hx], hfault⟩
    rw [ofExpr] at h
    split at h
    · exact hleft (map_eq_error_iff.mp h)
    · split at h
      · exact hright (map_eq_error_iff.mp h)
      · split at h
        · next hunknown =>
          rw [Bool.and_eq_true] at hunknown
          cases h
          exact ⟨_, List.mem_cons_self, if_pos hunknown.2⟩
        · split at h
          · next hl =>
            cases h
            exact hleft hl
          · next hr _ =>
            cases h
            exact hright hr
          · split at h <;> cases h
  | .call note method arguments, place, h => by
    rw [ofExpr] at h
    split at h
    · next hargs =>
      cases h
      obtain ⟨x, hx, hfault⟩ := exists_fault_of_ofExprs arguments hargs
      exact ⟨x, List.mem_cons_of_mem _ hx, hfault⟩
    · next rendered hargs =>
      split at h
      · cases h
      · next hnone =>
        cases h
        have hlt := lt_leastArguments hnone
        rw [length_of_ofExprs hargs] at hlt ⊢
        exact ⟨_, List.mem_cons_self, if_pos hlt⟩

/-- An error of the translation of arguments is the fault of a node of one of them. -/
theorem exists_fault_of_ofExprs : (es : List Expr) → ofExprs qualifier es = .error err →
    ∃ x ∈ Expr.argumentNodes es, x.2.fault? = some err
  | [], h => by cases h
  | e :: rest, h => by
    rw [ofExprs] at h
    split at h
    · next he =>
      cases h
      obtain ⟨x, hx, hfault⟩ := exists_fault_of_ofExpr e .operand he
      exact ⟨x, List.mem_append_left _ hx, hfault⟩
    · next hrest _ =>
      cases h
      obtain ⟨x, hx, hfault⟩ := exists_fault_of_ofExprs rest hrest
      exact ⟨x, List.mem_append_right _ hx, hfault⟩
    · cases h

end

end Jpql

namespace Expr

variable {model : Model} {entity : ValueType} {e : Expr}

/-- No node of a resolved tree has a fault. -/
theorem Resolved.fault?_eq_none (h : e.Resolved model entity) :
    ∀ place, ∀ x ∈ e.nodes place, x.2.fault? = none := by
  induction h with
  | literal _ _ =>
    intro place x hx
    obtain rfl := List.mem_singleton.mp hx
    rfl
  | property _ =>
    intro place x hx
    obtain rfl := List.mem_singleton.mp hx
    rfl
  | member _ _ _ _ ih =>
    intro place x hx
    simp only [nodes, List.mem_cons, List.mem_append, List.not_mem_nil, or_false] at hx
    rcases hx with rfl | hx | rfl
    · rfl
    · exact ih .path x hx
    · rfl
  | unary _ _ ih =>
    intro place x hx
    rcases List.mem_cons.mp hx with rfl | hx
    · rfl
    · exact ih .operand x hx
  | binary _ _ _ ihl ihr =>
    intro place x hx
    simp only [nodes, List.mem_cons, List.mem_append] at hx
    rcases hx with rfl | hx | hx
    · rw [fault?, OperatorTable.isNone_get?_standard, if_neg Bool.false_ne_true]
    · exact ihl .operand x hx
    · exact ihr .operand x hx
  | @call _ method arguments _ hc ih =>
    intro place x hx
    rcases List.mem_cons.mp hx with rfl | hx
    · obtain ⟨actual, s, htypes, hs, htakes, _⟩ := Signatures.resolve_declared hc
      have hcount : arguments.length = actual.length := by simpa using congrArg List.length htypes
      have hle : method.leastArguments ≤ actual.length :=
        Nat.le_trans (Method.leastArguments_le hs) (Signature.length_le_of_takes htakes)
      exact if_neg (by omega)
    · obtain ⟨e, he, hx⟩ := exists_of_mem_argumentNodes hx
      exact ih e he .operand x hx

end Expr

/-- A tree without faults fails to have a text only by being a structured value. -/
theorem translate_eq_error_iff {qualifier : String} {e : Expr}
    (h : ∀ node ∈ e.nodes .root, node.2.fault? = none) {err : RenderError} :
    translate qualifier e = .error err ↔
      e.type.isStructural = true ∧ err = .structural e.kind e.type := by
  unfold translate
  split
  · next hs =>
    rw [Except.error.injEq]
    exact ⟨fun he => ⟨hs, he.symm⟩, fun he => he.2.symm⟩
  · next hs =>
    constructor
    · intro he
      obtain ⟨node, hnode, hfault⟩ :=
        Jpql.exists_fault_of_ofExpr e .root (map_eq_error_iff.mp he)
      rw [h node hnode] at hfault
      cases hfault
    · exact fun he => absurd he.1 hs

/-- The error says that there is a node that cannot be dealt with. -/
def ExpressionError.isUnsupportedNode : ExpressionError → Bool
  | .render _ | .parse (.unsupportedNode _) => true
  | .lexical _ | .parse _ => false

/-- Reading a text stops at characters that are no token or at tokens that form no expression, and
never for want of an entry in the table. -/
theorem isUnsupportedNode_of_parseExpression {model : Model} {entityType : EntityType}
    {input : String} {err : ExpressionError}
    (h : parseExpression model entityType input = .error err) : err.isUnsupportedNode = false := by
  cases ht : tokenize input with
  | error e =>
    rw [parseExpression, readText_eq, ht] at h
    cases h
    rfl
  | ok tokens =>
    obtain ⟨cause, rfl, hread⟩ := exists_of_readText_error ht h
    have hknown := (Scope.placed_of_readExpression hread).unsupportedNode
    cases cause with
    | unsupportedNode op => exact absurd rfl (hknown op)
    | _ => rfl

/-- Of what was read, exactly the structured values have no text, and their type is the only reason:
no node has a fault. Every filter has a text, and reading never stops at a node that cannot be dealt
with. -/
theorem translate_fails_iff_isStructural (model : Model) (entityType : EntityType)
    (qualifier input : String) :
    (∀ e, parseExpression model entityType input = .ok e →
      ((∃ err, translate qualifier e = .error err) ↔ e.type.isStructural = true) ∧
      (∀ err, translate qualifier e = .error err → err = .structural e.kind e.type) ∧
      ∀ node ∈ e.nodes .root, node.2.fault? = none) ∧
    (∀ e, parseFilter model entityType input = .ok e → ∃ text, translate qualifier e = .ok text) ∧
    ∀ err, parseExpression model entityType input = .error err → err.isUnsupportedNode = false := by
  have hfaults (e : Expr) (h : parseExpression model entityType input = .ok e) :
      ∀ node ∈ e.nodes .root, node.2.fault? = none :=
    (resolved_of_parseExpression h).fault?_eq_none .root
  refine ⟨fun e h => ⟨⟨?_, ?_⟩, ?_, hfaults e h⟩, fun e h => ?_,
    fun err => isUnsupportedNode_of_parseExpression⟩
  · rintro ⟨err, herr⟩
    exact ((translate_eq_error_iff (hfaults e h)).mp herr).1
  · exact fun hs => ⟨_, (translate_eq_error_iff (hfaults e h)).mpr ⟨hs, rfl⟩⟩
  · exact fun err herr => ((translate_eq_error_iff (hfaults e h)).mp herr).2
  · obtain ⟨hparse, htype⟩ := parseFilter_eq_ok_iff.mp h
    cases htext : translate qualifier e with
    | ok text => exact ⟨text, rfl⟩
    | error err =>
      have hs := ((translate_eq_error_iff (hfaults e hparse)).mp htext).1
      rw [htype] at hs
      cases hs

/-- The address of the host is a path to a structured value and has no text. Its city has one, which
a filter may test. -/
theorem translate_fails_iff_isStructural_sample :
    (∃ e, parseExpression leagueModel sampleType "host/address" = .ok e ∧
      translate "E1" e = .error (.structural .member (.complex "Address"))) ∧
    (∃ e, parseFilter leagueModel sampleType
        "substring(concat(host/address/city, 'x', 'y'), 1, home mod 3) ne null" = .ok e ∧
      translate "E1" e = .ok
        "SUBSTRING(CONCAT(E1.host.address.town, 'x', 'y'), 1 + 1, MOD(E1.goals, 3)) IS NOT NULL" ∧
      ∀ node ∈ e.nodes .root, node.2.fault? = none) ∧
    parseExpression leagueModel sampleType "-host" =
      .error (.parse (.operandMismatch 0 (.unary .negate) [.entity "Team"])) ∧
    (ExpressionError.parse
      (.operandMismatch 0 (.unary .negate) [.entity "Team"])).isUnsupportedNode =
      false := by
  refine ⟨?_, ?_, ?_⟩
  · obtain ⟨e, he, htest⟩ := @exists_ok_of_any _ _
      (parseExpression leagueModel sampleType "host/address")
      (fun e => e.kind == .member && e.type == .complex "Address") (by decide +kernel)
    simp only [Bool.and_eq_true, beq_iff_eq] at htest
    obtain ⟨hiff, honly, _⟩ :=
      (translate_fails_iff_isStructural leagueModel sampleType "E1" "host/address").1 e he
    obtain ⟨err, herr⟩ := hiff.mpr (by rw [htest.2]; rfl)
    refine ⟨e, he, ?_⟩
    rw [herr, honly err herr, htest.1, htest.2]
  · obtain ⟨e, he, hpinned⟩ := @exists_ok_of_any _ _ (parseFilter leagueModel sampleType
      "substring(concat(host/address/city, 'x', 'y'), 1, home mod 3) ne null")
      (fun e => (translate "E1" e).toOption == some
        "SUBSTRING(CONCAT(E1.host.address.town, 'x', 'y'), 1 + 1, MOD(E1.goals, 3)) IS NOT NULL")
      (by decide +kernel)
    obtain ⟨hread, hfilter, _⟩ := translate_fails_iff_isStructural leagueModel sampleType "E1"
      "substring(concat(host/address/city, 'x', 'y'), 1, home mod 3) ne null"
    obtain ⟨text, htext⟩ := hfilter e he
    rw [htext, beq_iff_eq] at hpinned
    cases hpinned
    exact ⟨e, he, htext, (hread e (parseFilter_eq_ok_iff.mp he).1).2.2⟩
  · have herror : parseExpression leagueModel sampleType "-host" =
        .error (.parse (.operandMismatch 0 (.unary .negate) [.entity "Team"])) :=
      eq_error_of_caught (by decide +kernel)
    exact ⟨herror,
      (translate_fails_iff_isStructural leagueModel sampleType "E1" "-host").2.2 _ herror⟩

end EntityQuery
