import EntityQuery.Proofs.Operator.Resolution

/-!
# Searches for a signature that end

The parameter of an operand is found by an index, which goes no further than the last parameter. The
search fails where a signature takes an operand and has no parameter, as only a variadic one does.
So it ends wherever each variadic signature has a parameter, and with the standard operators it
always does.
-/

namespace EntityQuery

namespace Signature

variable {s : Signature}

/-- Where there is a parameter, every index finds one. -/
theorem exists_parameterAt (h : s.parameters ≠ []) (i : Nat) :
    ∃ formal, s.parameterAt i = .ok formal := by
  have hpos : 0 < s.parameters.length := List.length_pos_iff.mpr h
  have hindex : min i (s.parameters.length - 1) < s.parameters.length := by omega
  refine ⟨s.parameters[min i (s.parameters.length - 1)], ?_⟩
  rw [parameterAt, List.getElem?_eq_getElem hindex]

theorem exists_fitsFrom (h : s.parameters ≠ []) (test : SimpleType → SimpleType → Bool) (i : Nat)
    (actual : List SimpleType) : ∃ b, s.fitsFrom test i actual = .ok b := by
  induction actual generalizing i with
  | nil => exact ⟨true, rfl⟩
  | cons t rest ih =>
    obtain ⟨formal, hformal⟩ := exists_parameterAt h i
    simp only [fitsFrom, hformal]
    by_cases htest : test formal t = true
    · rw [if_pos htest]
      exact ih (i + 1)
    · rw [if_neg htest]
      exact ⟨false, rfl⟩

/-- Whether operands fit is known where the signature has a parameter, or is not variadic and so
takes no operand without one. -/
theorem exists_fits (h : s.variadic = true → s.parameters ≠ [])
    (test : SimpleType → SimpleType → Bool) (actual : List SimpleType) :
    ∃ b, s.fits test actual = .ok b := by
  unfold fits
  by_cases htakes : s.takes actual.length = true
  · rw [if_pos htakes]
    by_cases hparameters : s.parameters = []
    · have hfixed : s.variadic ≠ true := fun hvariadic => h hvariadic hparameters
      have hnone : actual = [] := by simpa [takes, hfixed, hparameters] using htakes
      exact ⟨true, by rw [hnone]; rfl⟩
    · exact exists_fitsFrom hparameters test 0 actual
  · rw [if_neg htakes]
    exact ⟨false, rfl⟩

-- A variadic signature without parameters takes an operand and has no parameter for it.
example (t result : SimpleType) :
    (Signature.mk [] result true).fits (· == ·) [t] = .error ⟨0, 0⟩ := rfl

end Signature

namespace Signatures

variable {list : List Signature}

theorem exists_find {fits : Signature → Except OutOfRange Bool}
    (h : ∀ s ∈ list, ∃ b, fits s = .ok b) : ∃ found, find fits list = .ok found := by
  induction list with
  | nil => exact ⟨none, rfl⟩
  | cons s rest ih =>
    obtain ⟨⟨b, hb⟩, hrest⟩ := List.forall_mem_cons.mp h
    rw [find, hb]
    cases b with
    | true => exact ⟨some s, rfl⟩
    | false => exact ih hrest

/-- The search for a signature ends where each variadic one has a parameter. -/
theorem exists_choose (h : ∀ s ∈ list, s.variadic = true → s.parameters ≠ [])
    (actual : List SimpleType) : ∃ chosen, choose list actual = .ok chosen := by
  have hfind (test : SimpleType → SimpleType → Bool) :
      ∃ found, find (Signature.fits test actual) list = .ok found :=
    exists_find fun s hs => Signature.exists_fits (h s hs) test actual
  obtain ⟨found, hfound⟩ := hfind (· == ·)
  rw [choose, hfound]
  cases found with
  | some s => exact ⟨some s, rfl⟩
  | none => exact hfind SimpleType.accepts

end Signatures

/-- The search for the type of a result ends where each variadic signature has a parameter. -/
theorem Descriptor.exists_resolve {d : Descriptor}
    (h : ∀ list, d.signatures = .declared list →
      ∀ s ∈ list, s.variadic = true → s.parameters ≠ [])
    (operands : List ValueType) : ∃ type?, d.resolve operands = .ok type? := by
  unfold resolve Signatures.resolve
  cases hsignatures : d.signatures with
  | lastParameter => exact ⟨_, rfl⟩
  | declared list =>
    cases simpleTypes? operands with
    | none => exact ⟨none, rfl⟩
    | some actual =>
      obtain ⟨chosen, hchosen⟩ := Signatures.exists_choose (h list hsignatures) actual
      simp only [hchosen]
      exact ⟨_, rfl⟩

theorem Operator.exists_resolve (op : Operator) (operands : List ValueType) :
    ∃ type?, op.descriptor.resolve operands = .ok type? := by
  refine Descriptor.exists_resolve (fun list hlist s hs _ => ?_) operands
  by_cases hop : op = .member
  · rw [hop] at hlist
    cases hlist
  · obtain ⟨list', hlist', hparameters⟩ := exists_declared hop
    rw [hlist] at hlist'
    cases hlist'
    exact (hparameters s hs).1

end EntityQuery
