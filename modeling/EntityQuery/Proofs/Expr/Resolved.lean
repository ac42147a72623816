import EntityQuery.Proofs.Expr.Recognition
import EntityQuery.Proofs.Model.Declarations
import EntityQuery.Proofs.Token.Literals

/-!
# What the reader builds

A tree that was read is resolved: each name stands for a declaration of the model, paths lead
through structured values, operators have the types that their signatures give, and literals are
well formed. Proofs about trees that were read go by induction on this, and need neither tokens nor
the grammar.
-/

namespace EntityQuery

/-- A tree over the properties of an entity whose nodes are all resolved, wherever they were
read. -/
inductive Expr.Resolved (model : Model) (entity : ValueType) : Expr → Prop
  | literal {note : Annotation} {l : Literal} (ht : note.type = .simple l.type)
    (hl : l.value.isWellFormed = true) : Resolved model entity (.literal note l)
  | property {note : Annotation} {ref : PropertyRef}
      (hr : Names model entity ref.name ref note.type) :
    Resolved model entity (.property note ref)
  | member {note note' : Annotation} {path : Expr} {ref : PropertyRef}
      (hp : Resolved model entity path)
    (hs : path.type.isStructural = true) (hr : Names model path.type ref.name ref note'.type)
    (ht : note.type = note'.type) : Resolved model entity (.member note path (.property note' ref))
  | unary {note : Annotation} {op : UnaryOperator} {operand : Expr}
      (h : Resolved model entity operand)
    (hc : (Operator.unary op).descriptor.resolve [operand.type] = .ok (some note.type)) :
    Resolved model entity (.unary note op operand)
  | binary {note : Annotation} {op : BinaryOperator} {left right : Expr}
    (hl : Resolved model entity left) (hr : Resolved model entity right)
    (hc : (Operator.binary op).descriptor.resolve [left.type, right.type] = .ok (some note.type)) :
    Resolved model entity (.binary note op left right)
  | call {note : Annotation} {method : Method} {arguments : List Expr}
    (h : ∀ e ∈ arguments, Resolved model entity e)
    (hc : (Operator.method method).descriptor.resolve (arguments.map Expr.type) =
      .ok (some note.type)) :
    Resolved model entity (.call note method arguments)

/-! ### Names -/

section

variable {model : Model} {owner : ValueType} {name : String} {ref : PropertyRef} {type : ValueType}

/-- What a name stands for has that name. -/
theorem Names.self (h : Names model owner name ref type) : Names model owner ref.name ref type := by
  cases h with
  | property hp =>
    have hname := (Scope.of_property? hp).1
    subst hname
    exact .property hp
  | navigation hp hn hs =>
    have hname := (Scope.of_navigation? hn).1
    subst hname
    exact .navigation hp hn hs

/-- The store's name of what a name stands for passes whatever all names of the model pass. -/
theorem Names.test {test : String → Bool} (hm : model.allNames test = true)
    (h : Names model owner name ref type) : test ref.internalName = true := by
  cases h with
  | property hp =>
    rcases (Scope.of_property? hp).2 with ⟨t, ht, hmem⟩ | ⟨t, ht, hmem⟩
    · exact Model.allNames_property hm ht hmem
    · exact Model.allNames_complex hm ht hmem
  | navigation _ hn _ =>
    obtain ⟨_, t, ht, hmem⟩ := Scope.of_navigation? hn
    exact Model.allNames_navigation hm ht hmem

end

/-! ### Derived trees -/

section

variable {model : Model} {entityType : EntityType}

/-- The literals among the tokens are well formed. -/
private def HasSoundLiterals (tokens : List Token) : Prop :=
  ∀ t ∈ tokens, ∀ l, t.content = .literal l → l.value.isWellFormed = true

private theorem HasSoundLiterals.mono {tokens tokens' : List Token} (h : HasSoundLiterals tokens)
    (hsub : ∀ t ∈ tokens', t ∈ tokens) : HasSoundLiterals tokens' :=
  fun t ht => h t (hsub t ht)

private theorem resolved_of_derivesPath {tokens : List Token} {e : Expr}
    (h : DerivesPath model entityType tokens e) : e.Resolved model (.entity entityType.name) := by
  induction h with
  | first _ _ hr => exact .property hr.self
  | step _ _ _ ht hr ih => exact .member ih ht hr.self rfl

mutual

private theorem resolved_of_derives {p : Nat} {tokens : List Token} {e : Expr}
    (hl : HasSoundLiterals tokens) :
    Derives model entityType p tokens e → e.Resolved model (.entity entityType.name)
  | .unary h => resolved_of_derivesUnary hl h
  | .binary _ _ _ hleft hright hc =>
    .binary (resolved_of_derives (hl.mono fun _ h => by simp [h]) hleft)
      (resolved_of_derives (hl.mono fun _ h => by simp [h]) hright) hc

private theorem resolved_of_derivesUnary {tokens : List Token} {e : Expr}
    (hl : HasSoundLiterals tokens) :
    DerivesUnary model entityType tokens e → e.Resolved model (.entity entityType.name)
  | .not _ _ h hc =>
    .unary (resolved_of_derivesUnary (hl.mono fun _ => List.mem_cons_of_mem _) h) hc
  | .negate _ h hc =>
    .unary (resolved_of_derivesUnary (hl.mono fun _ => List.mem_cons_of_mem _) h) hc
  | .primary h => resolved_of_derivesPrimary hl h

private theorem resolved_of_derivesPrimary {tokens : List Token} {e : Expr}
    (hl : HasSoundLiterals tokens) :
    DerivesPrimary model entityType tokens e → e.Resolved model (.entity entityType.name)
  | .literal h => .literal rfl (hl _ (List.mem_singleton_self _) _ h)
  | .call _ _ _ h _ hc =>
    .call (resolved_of_derivesArguments (hl.mono fun _ h => by simp [h]) h) hc
  | .path h => resolved_of_derivesPath h
  | .paren _ h _ => resolved_of_derives (hl.mono fun _ h => by simp [h]) h

private theorem resolved_of_derivesArguments {tokens : List Token} {es : List Expr}
    (hl : HasSoundLiterals tokens) : DerivesArguments model entityType tokens es →
      ∀ e ∈ es, e.Resolved model (.entity entityType.name)
  | .none => fun _ he => absurd he List.not_mem_nil
  | .one h => by
    intro e he
    rw [List.mem_singleton.mp he]
    exact resolved_of_derives hl h
  | .more h _ hr => by
    intro e he
    rcases List.mem_cons.mp he with he | he
    · rw [he]
      exact resolved_of_derives (hl.mono fun _ h => by simp [h]) h
    · exact resolved_of_derivesArguments (hl.mono fun _ h => by simp [h]) hr e he

end

end

/-! ### Positions -/

namespace Expr

variable {model : Model} {entity : ValueType}

mutual

/-- Where the nodes of a tree were read does not matter. -/
theorem resolved_of_unplaced : (e : Expr) → e.unplaced.Resolved model entity →
    e.Resolved model entity
  | .literal note l, h => by
    cases h with
    | literal ht hl => exact .literal ht hl
  | .property note ref, h => by
    cases h with
    | property hr => exact .property hr
  | .member note path target, h => by
    cases target with
    | property note' ref =>
      cases h with
      | member hp hs hr ht =>
        rw [type_unplaced] at hs hr
        exact .member (resolved_of_unplaced path hp) hs hr ht
    | _ => cases h
  | .unary note op operand, h => by
    cases h with
    | unary h hc =>
      rw [type_unplaced] at hc
      exact .unary (resolved_of_unplaced operand h) hc
  | .binary note op left right, h => by
    cases h with
    | binary hl hr hc =>
      rw [type_unplaced, type_unplaced] at hc
      exact .binary (resolved_of_unplaced left hl) (resolved_of_unplaced right hr) hc
  | .call note method arguments, h => by
    cases h with
    | call h hc =>
      rw [map_type_unplacedAll] at hc
      exact .call (resolved_of_unplacedAll arguments h) hc

private theorem resolved_of_unplacedAll : (es : List Expr) →
    (∀ e ∈ unplacedAll es, e.Resolved model entity) → ∀ e ∈ es, e.Resolved model entity
  | [], _ => fun _ he => absurd he List.not_mem_nil
  | e :: rest, h => by
    simp only [unplacedAll, List.mem_cons, forall_eq_or_imp] at h
    intro x hx
    rcases List.mem_cons.mp hx with hx | hx
    · rw [hx]
      exact resolved_of_unplaced e h.1
    · exact resolved_of_unplacedAll rest h.2 x hx

end

end Expr

/-! ### Trees that were read -/

section

variable {model : Model} {entityType : EntityType} {input : String} {tokens : List Token} {e : Expr}

/-- A chain that was read from some of a text's tokens is resolved. -/
private theorem resolved_of_readBinary {s : Scope} {least : Nat} {given rest : List Token}
    (ht : tokenize input = .ok tokens) (hsub : ∀ t ∈ given, t ∈ tokens)
    (h : Scope.plain (s.readBinary least given) = .ok (e, rest)) :
    e.Resolved s.model (.entity s.entityType.name) := by
  obtain ⟨taken, rfl, hd⟩ := Scope.derives_of_readBinary h
  have hl : HasSoundLiterals taken := fun t hmem l hcontent =>
    isWellFormed_of_tokenize ht (hsub t (List.mem_append_left _ hmem)) hcontent
  exact Expr.resolved_of_unplaced e (resolved_of_derives hl hd)

theorem resolved_of_parseExpression (h : parseExpression model entityType input = .ok e) :
    e.Resolved model (.entity entityType.name) := by
  cases ht : tokenize input with
  | error err => simp [parseExpression, readText_eq, ht] at h
  | ok tokens =>
    rw [parseExpression_eq_ok_iff ht, Scope.readExpression_eq_ok_iff] at h
    exact resolved_of_readBinary ht (fun _ hmem => hmem) h

private theorem mem_of_readOrder {given : List Token} {t : Token}
    (h : t ∈ (Scope.readOrder given).2.val) : t ∈ given := by
  cases given with
  | nil => exact h
  | cons u rest =>
    rw [Scope.readOrder_cons] at h
    split at h
    · exact List.mem_cons_of_mem _ h
    · split at h
      · exact List.mem_cons_of_mem _ h
      · exact h

private theorem resolved_of_readOrderBy {s : Scope} (ht : tokenize input = .ok tokens)
    {given : List Token} (hsub : ∀ t ∈ given, t ∈ tokens) {items : List OrderItem}
    (h : s.readOrderBy given = .ok items) :
    ∀ item ∈ items, item.expression.Resolved s.model (.entity s.entityType.name) := by
  fun_induction Scope.readOrderBy s given generalizing items with
  | case1 => cases h
  | case2 given e rest hlt hread order after hle horder hcomma =>
    have he := resolved_of_readBinary ht hsub (by rw [hread]; rfl)
    obtain ⟨_, _, rfl⟩ := map_eq_ok_iff.mp h
    simpa using he
  | case3 => cases h
  | case4 given e rest hlt hread order after hle horder later hlt' hcomma more hmore ih =>
    have hplain : Scope.plain (s.readBinary 0 given) = .ok (e, rest) := by rw [hread]; rfl
    have he := resolved_of_readBinary ht hsub hplain
    have hlater : ∀ t ∈ later, t ∈ tokens := by
      intro t hmem
      obtain ⟨comma, rfl, _⟩ := Scope.accept?_eq_some_iff.mp hcomma
      have hrest : t ∈ rest := mem_of_readOrder (by rw [horder]; exact List.mem_cons_of_mem _ hmem)
      obtain ⟨taken, rfl, _⟩ := Scope.derives_of_readBinary hplain
      exact hsub t (List.mem_append_right _ hrest)
    cases h
    intro item hitem
    rcases List.mem_cons.mp hitem with rfl | hitem
    · exact he
    · exact ih hlater hmore item hitem

/-- The expressions of sort keys that were read are resolved. -/
theorem resolved_of_parseOrderBy {items : List OrderItem}
    (h : parseOrderBy model entityType input = .ok items) :
    ∀ item ∈ items, item.expression.Resolved model (.entity entityType.name) := by
  rw [parseOrderBy, readText_eq] at h
  cases ht : tokenize input with
  | error err => simp [ht] at h
  | ok tokens =>
    rw [ht] at h
    exact resolved_of_readOrderBy ht (fun _ hmem => hmem) (mapError_eq_ok_iff.mp h)

end

end EntityQuery
