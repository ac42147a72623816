import EntityQuery.Operator.Table

/-!
# What a resolved operator says about its operands

Where an operator with declared signatures has a type for its operands, all operands are primitive,
and one of the signatures takes that many operands and gives the type. The signatures of the
standard operators give no system type.
-/

namespace EntityQuery

/-- Types are all primitive exactly if they are a list of primitive types. -/
theorem simpleTypes?_eq_some_iff {types : List ValueType} {simples : List SimpleType} :
    simpleTypes? types = some simples ↔ types = simples.map .simple := by
  induction types generalizing simples with
  | nil => cases simples <;> simp [simpleTypes?]
  | cons t ts ih =>
    cases simples with
    | nil =>
      simp only [simpleTypes?, List.map_nil, reduceCtorEq, iff_false]
      split <;> simp
    | cons s ss =>
      simp only [simpleTypes?, List.map_cons, List.cons.injEq]
      cases t with
      | simple u =>
        rw [← ih]
        cases simpleTypes? ts <;> simp [ValueType.simple?]
      | complex name => simp [ValueType.simple?]
      | entity name => simp [ValueType.simple?]

/-- A signature takes at least as many operands as it has parameters. -/
theorem Signature.length_le_of_takes {s : Signature} {n : Nat} (h : s.takes n = true) :
    s.parameters.length ≤ n := by
  unfold takes at h
  split at h
  · exact of_decide_eq_true h
  · exact Nat.le_of_eq (beq_iff_eq.mp h).symm

theorem Signature.takes_of_fits {s : Signature} {test : SimpleType → SimpleType → Bool}
    {actual : List SimpleType} (h : s.fits test actual = .ok true) :
    s.takes actual.length = true := by
  unfold fits at h
  split at h
  · next htakes => exact htakes
  · cases h

namespace Signatures

variable {fits : Signature → Except OutOfRange Bool} {list : List Signature}

/-- The signature that is found is the first that fits, and all before it are known not to. -/
theorem find_eq_some_iff {s : Signature} : find fits list = .ok (some s) ↔
    fits s = .ok true ∧
      ∃ before after, list = before ++ s :: after ∧ ∀ t ∈ before, fits t = .ok false := by
  induction list with
  | nil => simp [find]
  | cons t rest ih =>
    rw [find]
    constructor
    · intro h
      split at h
      · cases h
      · next htrue =>
        cases h
        exact ⟨htrue, [], rest, rfl, fun _ ht => absurd ht List.not_mem_nil⟩
      · next hfalse =>
        obtain ⟨hs, before, after, rfl, hbefore⟩ := ih.mp h
        exact ⟨hs, t :: before, after, rfl, List.forall_mem_cons.mpr ⟨hfalse, hbefore⟩⟩
    · rintro ⟨hs, before, after, hlist, hbefore⟩
      cases before with
      | nil =>
        cases hlist
        rw [hs]
      | cons u before =>
        cases hlist
        obtain ⟨hfalse, hbefore⟩ := List.forall_mem_cons.mp hbefore
        rw [hfalse]
        exact ih.mpr ⟨hs, before, after, rfl, hbefore⟩

/-- No signature is found where all are known not to fit. -/
theorem find_eq_none_iff : find fits list = .ok none ↔ ∀ t ∈ list, fits t = .ok false := by
  induction list with
  | nil => simp [find]
  | cons t rest ih =>
    rw [find, List.forall_mem_cons, ← ih]
    split
    · next hfits => simp [hfits]
    · next hfits => simp [hfits]
    · next hfits => simp [hfits]

/-- The signature that operands choose is declared, and takes that many operands. -/
theorem choose_eq_some {actual : List SimpleType} {s : Signature}
    (h : choose list actual = .ok (some s)) : s ∈ list ∧ s.takes actual.length = true := by
  have hfound {test : SimpleType → SimpleType → Bool}
      (hf : find (Signature.fits test actual) list = .ok (some s)) :
      s ∈ list ∧ s.takes actual.length = true := by
    obtain ⟨hfits, before, after, rfl, _⟩ := find_eq_some_iff.mp hf
    exact ⟨List.mem_append_right _ List.mem_cons_self, Signature.takes_of_fits hfits⟩
  unfold choose at h
  split at h
  · cases h
  · next hs =>
    cases h
    exact hfound hs
  · exact hfound h

/-- Primitive operands have the result of the signature that they choose. -/
theorem resolve_simple_eq_some_iff {actual : List SimpleType} {type : ValueType} :
    (declared list).resolve (actual.map .simple) = .ok (some type) ↔
      ∃ s, choose list actual = .ok (some s) ∧ type = .simple s.result := by
  have hsimple : simpleTypes? (actual.map .simple) = some actual :=
    simpleTypes?_eq_some_iff.mpr rfl
  simp only [resolve, hsimple]
  cases choose list actual with
  | error e => simp [Except.map]
  | ok chosen =>
    cases chosen with
    | none => simp [Except.map]
    | some s => simp [Except.map, eq_comm]

/-- Declared signatures give a type only to primitive operands, by a signature that takes them. -/
theorem resolve_declared {operands : List ValueType} {type : ValueType}
    (h : (declared list).resolve operands = .ok (some type)) :
    ∃ (actual : List SimpleType) (s : Signature), operands = actual.map .simple ∧ s ∈ list ∧
      s.takes actual.length = true ∧ type = .simple s.result := by
  cases hsimple : simpleTypes? operands with
  | none =>
    simp only [resolve, hsimple] at h
    cases h
  | some actual =>
    have hoperands := simpleTypes?_eq_some_iff.mp hsimple
    rw [hoperands, resolve_simple_eq_some_iff] at h
    obtain ⟨s, hs, htype⟩ := h
    obtain ⟨hmem, htakes⟩ := choose_eq_some hs
    exact ⟨actual, s, hoperands, hmem, htakes, htype⟩

end Signatures

namespace Operator

/-- All standard operators but the access to a member declare signatures, each of which has a
parameter and gives no system type. -/
theorem exists_declared {op : Operator} (hop : op ≠ .member) : ∃ list,
    op.descriptor.signatures = .declared list ∧
      ∀ s ∈ list, s.parameters ≠ [] ∧ s.result.isSystem = false := by
  cases op with
  | binary op =>
    refine ⟨op.signatures, rfl, ?_⟩
    cases op <;> decide
  | unary op =>
    refine ⟨op.signatures, ?_, ?_⟩
    · cases op <;> rfl
    · cases op <;> decide
  | method m =>
    refine ⟨m.signatures, rfl, ?_⟩
    cases m <;> decide
  | member => exact absurd rfl hop

variable {op : Operator} {operands : List ValueType} {type : ValueType}

/-- Operands of a standard operator are primitive. -/
theorem isStructural_of_operand (h : op.descriptor.resolve operands = .ok (some type))
    (hop : op ≠ .member) {t : ValueType} (ht : t ∈ operands) : t.isStructural = false := by
  obtain ⟨list, hlist, _⟩ := exists_declared hop
  rw [Descriptor.resolve, hlist] at h
  obtain ⟨actual, _, rfl, _⟩ := Signatures.resolve_declared h
  obtain ⟨s, _, rfl⟩ := List.mem_map.mp ht
  rfl

/-- The type that a standard operator gives is primitive and no system type. -/
theorem isSystem_of_result (h : op.descriptor.resolve operands = .ok (some type))
    (hop : op ≠ .member) : ∃ s, type = .simple s ∧ s.isSystem = false := by
  obtain ⟨list, hlist, hpublic⟩ := exists_declared hop
  rw [Descriptor.resolve, hlist] at h
  obtain ⟨_, s, _, hmem, _, rfl⟩ := Signatures.resolve_declared h
  exact ⟨s.result, rfl, (hpublic s hmem).2⟩

theorem isStructural_of_result (h : op.descriptor.resolve operands = .ok (some type))
    (hop : op ≠ .member) : type.isStructural = false := by
  obtain ⟨s, rfl, _⟩ := isSystem_of_result h hop
  rfl

end Operator

namespace OperatorTable

/-- The standard table has the standard descriptor of every operator. -/
theorem get?_standard (op : Operator) : standard.get? op = some op.descriptor := by
  cases op with
  | binary op => cases op <;> rfl
  | unary op => cases op <;> rfl
  | method m => cases m <;> rfl
  | member => rfl

theorem isNone_get?_standard (op : Operator) : (standard.get? op).isNone = false := by
  rw [get?_standard]
  rfl

end OperatorTable

end EntityQuery
