import EntityQuery.Operator.Standard
import EntityQuery.Proofs.Operator.Indexing
import EntityQuery.Proofs.Operator.Resolution
import Mathlib.Data.List.Forall2

/-!
# Promotion of operands

The numbers stand on a ladder, and a number may be promoted to every number on a higher rung;
besides that a bit is a truth value and null is anything. So promotions compose. Main result: a call
that has a type is never ill typed after its operands are narrowed, and still has a type where each
variadic signature has a parameter. Its type comes by promotion only where no signature is matched
exactly.
-/

namespace EntityQuery

/-! ### The ladder of numbers -/

namespace SimpleType

/-- The rung of a number; the two types of bytes share one. -/
def rung? : SimpleType → Option Nat
  | .bit => some 0
  | .uint7 => some 1
  | .byte | .sbyte => some 2
  | .int16 => some 3
  | .int32 => some 4
  | .int64 => some 5
  | .single => some 6
  | .double => some 7
  | .decimal => some 8
  | _ => none

private theorem accepts_eq (formal actual : SimpleType) : formal.accepts actual =
    (formal == actual || actual == .null || (formal == .boolean && actual == .bit) ||
      actual.rung?.any fun low => formal.rung?.any fun high => decide (low < high)) := by
  cases actual <;> cases formal <;> rfl

/-- A type takes itself, null, the bit if it is the type of truth values, and what stands on a lower
rung. -/
theorem accepts_iff {formal actual : SimpleType} : formal.accepts actual = true ↔
    formal = actual ∨ actual = .null ∨ formal = .boolean ∧ actual = .bit ∨
      ∃ low high, actual.rung? = some low ∧ formal.rung? = some high ∧ low < high := by
  simp [accepts_eq, Option.any_eq_true, or_assoc]

theorem accepts_refl (t : SimpleType) : t.accepts t = true := accepts_iff.mpr (.inl rfl)

/-- Promotions compose. -/
theorem accepts_trans {t u v : SimpleType} (htu : t.accepts u = true) (huv : u.accepts v = true) :
    t.accepts v = true := by
  rcases accepts_iff.mp huv with rfl | rfl | ⟨rfl, rfl⟩ | ⟨low, middle, hlow, hmiddle, hlt⟩
  · exact htu
  · exact accepts_iff.mpr (.inr (.inl rfl))
  · -- nothing but itself takes a truth value
    rcases accepts_iff.mp htu with rfl | h | ⟨_, h⟩ | ⟨_, _, h, _⟩
    · exact huv
    · cases h
    · cases h
    · cases h
  · rcases accepts_iff.mp htu with rfl | rfl | ⟨_, rfl⟩ | ⟨middle', high, hmiddle', hhigh, hlt'⟩
    · exact huv
    · cases hmiddle
    · -- nothing stands below the bit
      cases hmiddle
      exact absurd hlt (Nat.not_lt_zero low)
    · rw [hmiddle] at hmiddle'
      cases hmiddle'
      exact accepts_iff.mpr (.inr (.inr (.inr ⟨low, high, hlow, hhigh, Nat.lt_trans hlt hlt'⟩)))

end SimpleType

/-! ### Parameters and operands -/

namespace Signature

/-- The lists of parameters that a signature stands for: its own, and if it is variadic those with
the last one repeated. -/
inductive Stands (s : Signature) : List SimpleType → Prop
  | once : s.Stands s.parameters
  | repeated {last : SimpleType} (hvariadic : s.variadic = true)
      (hlast : s.parameters.getLast? = some last) (times : Nat) :
      s.Stands (s.parameters ++ List.replicate times last)

variable {s : Signature} {test : SimpleType → SimpleType → Bool}

theorem fitsFrom_iff {i : Nat} {actual : List SimpleType} :
    s.fitsFrom test i actual = .ok true ↔
      ∀ (k : Nat) (hk : k < actual.length), ∃ formal, s.parameterAt (i + k) = .ok formal ∧
        test formal actual[k] = true := by
  induction actual generalizing i with
  | nil => simp [fitsFrom]
  | cons t rest ih =>
    have hsplit : s.fitsFrom test i (t :: rest) = .ok true ↔
        (∃ formal, s.parameterAt i = .ok formal ∧ test formal t = true) ∧
          s.fitsFrom test (i + 1) rest = .ok true := by
      rw [fitsFrom]
      cases s.parameterAt i with
      | error e => simp
      | ok formal => by_cases htest : test formal t = true <;> simp [htest]
    rw [hsplit, ih]
    constructor
    · rintro ⟨hfirst, hrest⟩ k hk
      cases k with
      | zero => exact hfirst
      | succ k =>
        have hindex : i + (k + 1) = i + 1 + k := by omega
        rw [hindex]
        exact hrest k (Nat.lt_of_succ_lt_succ hk)
    · intro h
      refine ⟨h 0 (Nat.succ_pos _), fun k hk => ?_⟩
      have hindex : i + 1 + k = i + (k + 1) := by omega
      rw [hindex]
      exact h (k + 1) (Nat.succ_lt_succ hk)

theorem Stands.takes {formals : List SimpleType} (h : s.Stands formals) :
    s.takes formals.length = true := by
  cases h with
  | once => cases hvariadic : s.variadic <;> simp [Signature.takes, hvariadic]
  | repeated hvariadic _ times => simp [Signature.takes, hvariadic]

theorem parameterAt_eq_ok_iff {i : Nat} {formal : SimpleType} : s.parameterAt i = .ok formal ↔
    s.parameters[min i (s.parameters.length - 1)]? = some formal := by
  unfold parameterAt
  split
  · next hformal => simp [hformal]
  · next hnone => simp [hnone]

theorem Stands.parameterAt {formals : List SimpleType} (h : s.Stands formals) {k : Nat}
    (hk : k < formals.length) : s.parameterAt k = .ok formals[k] := by
  have hown (hk : k < s.parameters.length) : s.parameterAt k = .ok s.parameters[k] := by
    have hindex : min k (s.parameters.length - 1) = k := by omega
    rw [parameterAt_eq_ok_iff, hindex, List.getElem?_eq_getElem hk]
  cases h with
  | once => exact hown hk
  | @repeated last _ hlast times =>
    by_cases hk' : k < s.parameters.length
    · rw [hown hk', List.getElem_append_left hk']
    · have hindex : min k (s.parameters.length - 1) = s.parameters.length - 1 := by omega
      rw [parameterAt_eq_ok_iff, hindex, ← List.getLast?_eq_getElem?, hlast,
        List.getElem_append_right (by omega), List.getElem_replicate]

/-- A signature that takes some operands stands for as many parameters, unless it has none to
repeat. -/
theorem exists_stands {n : Nat} (htakes : s.takes n = true)
    (hparameters : s.parameters ≠ [] ∨ n = 0) :
    ∃ formals, s.Stands formals ∧ formals.length = n := by
  unfold Signature.takes at htakes
  split at htakes
  · next hvariadic =>
    have hle : s.parameters.length ≤ n := of_decide_eq_true htakes
    rcases hparameters with hne | rfl
    · refine ⟨_, .repeated hvariadic (List.getLast?_eq_some_getLast hne)
        (n - s.parameters.length), ?_⟩
      rw [List.length_append, List.length_replicate]
      omega
    · exact ⟨_, .once, Nat.le_zero.mp hle⟩
  · exact ⟨_, .once, (beq_iff_eq.mp htakes).symm⟩

/-- Operands fit a signature where they match one of the lists that it stands for, place by
place. -/
theorem fits_iff {actual : List SimpleType} : s.fits test actual = .ok true ↔
    ∃ formals, s.Stands formals ∧
      List.Forall₂ (fun formal t => test formal t = true) formals actual := by
  have hfits : s.fits test actual = .ok true ↔
      s.takes actual.length = true ∧ s.fitsFrom test 0 actual = .ok true := by
    unfold fits
    by_cases htakes : s.takes actual.length = true <;> simp [htakes]
  rw [hfits, fitsFrom_iff]
  simp only [Nat.zero_add, List.forall₂_iff_get, List.get_eq_getElem]
  constructor
  · rintro ⟨htakes, hmatch⟩
    have hparameters : s.parameters ≠ [] ∨ actual.length = 0 := by
      refine Classical.or_iff_not_imp_right.mpr fun hpos hnil => ?_
      obtain ⟨formal, hformal, _⟩ := hmatch 0 (Nat.pos_of_ne_zero hpos)
      simp [parameterAt_eq_ok_iff, hnil] at hformal
    obtain ⟨formals, hstands, hlength⟩ := exists_stands htakes hparameters
    refine ⟨formals, hstands, hlength, fun k hk hk' => ?_⟩
    obtain ⟨formal, hformal, htest⟩ := hmatch k hk'
    rw [hstands.parameterAt hk] at hformal
    cases hformal
    exact htest
  · rintro ⟨formals, hstands, hlength, hmatch⟩
    refine ⟨hlength ▸ hstands.takes, fun k hk => ?_⟩
    exact ⟨_, hstands.parameterAt (hlength ▸ hk), hmatch k (hlength ▸ hk) hk⟩

/-- An exact match is a list that the signature stands for. -/
theorem fits_beq_iff {actual : List SimpleType} :
    s.fits (· == ·) actual = .ok true ↔ s.Stands actual := by
  have heq {formals : List SimpleType} :
      List.Forall₂ (fun formal t => (formal == t) = true) formals actual ↔ formals = actual := by
    simp only [beq_iff_eq, List.forall₂_eq_eq_eq]
  rw [fits_iff]
  simp only [heq, exists_eq_right]

/-- Operands may be promoted to a list that the signature stands for. -/
def Promotes (s : Signature) (actual : List SimpleType) : Prop :=
  ∃ formals, s.Stands formals ∧
    List.Forall₂ (fun formal t => formal.accepts t = true) formals actual

theorem fits_accepts_iff {actual : List SimpleType} :
    s.fits SimpleType.accepts actual = .ok true ↔ s.Promotes actual := fits_iff

theorem Stands.promotes {actual : List SimpleType} (h : s.Stands actual) : s.Promotes actual :=
  ⟨actual, h, List.forall₂_same.mpr fun t _ => t.accepts_refl⟩

/-- Narrower operands may be promoted too. -/
theorem Promotes.narrowed {xs ys : List SimpleType} (h : s.Promotes xs)
    (hys : List.Forall₂ (fun x y => x.accepts y = true) xs ys) : s.Promotes ys := by
  obtain ⟨formals, hstands, hxs⟩ := h
  refine ⟨formals, hstands, ?_⟩
  clear hstands
  induction hxs generalizing ys with
  | nil =>
    cases hys
    exact .nil
  | cons hx _ ih =>
    cases hys with
    | cons hxy hrest => exact .cons (SimpleType.accepts_trans hx hxy) (ih hrest)

end Signature

/-! ### The choice of a signature -/

namespace Signatures

/-- The first signature of a list that has a property. -/
def IsFirst (list : List Signature) (p : Signature → Prop) (s : Signature) : Prop :=
  p s ∧ ∃ before after, list = before ++ s :: after ∧ ∀ t ∈ before, ¬ p t

/-- Operands choose the first signature that stands for them, else the first that they may be
promoted to. -/
inductive Chooses (list : List Signature) (actual : List SimpleType) (s : Signature) : Prop
  | exactly (h : IsFirst list (·.Stands actual) s)
  | promoted (hnone : ∀ t ∈ list, ¬ t.Stands actual) (h : IsFirst list (·.Promotes actual) s)

variable {list : List Signature} {actual : List SimpleType}

theorem Chooses.exists_promotes {s : Signature} (h : Chooses list actual s) :
    ∃ t ∈ list, t.Promotes actual := by
  rcases h with ⟨h, before, after, rfl, _⟩ | ⟨_, h, before, after, rfl, _⟩
  · exact ⟨s, by simp, h.promotes⟩
  · exact ⟨s, by simp, h⟩

section

variable {test : SimpleType → SimpleType → Bool} {p : Signature → Prop}
  (hp : ∀ s : Signature, s.fits test actual = .ok true ↔ p s)

include hp

theorem isFirst_of_find {s : Signature}
    (h : find (Signature.fits test actual) list = .ok (some s)) :
    IsFirst list p s := by
  obtain ⟨hs, before, after, hlist, hbefore⟩ := find_eq_some_iff.mp h
  refine ⟨(hp s).mp hs, before, after, hlist, fun t ht hpt => ?_⟩
  have htrue := (hp t).mpr hpt
  rw [hbefore t ht] at htrue
  cases htrue

theorem forall_not_of_find (h : find (Signature.fits test actual) list = .ok none) :
    ∀ t ∈ list, ¬ p t := by
  intro t ht hpt
  have htrue := (hp t).mpr hpt
  rw [find_eq_none_iff.mp h t ht] at htrue
  cases htrue

/-- What is not known to fit is known not to, once the test of a signature always ends. -/
theorem fits_eq_false {t : Signature} (hend : ∃ b, t.fits test actual = .ok b) (hpt : ¬ p t) :
    t.fits test actual = .ok false := by
  obtain ⟨b, hb⟩ := hend
  cases b with
  | true => exact absurd ((hp t).mp hb) hpt
  | false => exact hb

end

/-- The signature that is chosen is the first that stands for the operands, or else the first that
they may be promoted to. -/
theorem chooses_of_choose {s : Signature} (h : choose list actual = .ok (some s)) :
    Chooses list actual s := by
  unfold choose at h
  split at h
  · cases h
  · next hfind =>
    cases h
    exact .exactly (isFirst_of_find (fun _ => Signature.fits_beq_iff) hfind)
  · next hfind =>
    exact .promoted (forall_not_of_find (fun _ => Signature.fits_beq_iff) hfind)
      (isFirst_of_find (fun _ => Signature.fits_accepts_iff) h)

theorem choose_of_chooses (hlist : ∀ s ∈ list, s.variadic = true → s.parameters ≠ [])
    {s : Signature} (h : Chooses list actual s) : choose list actual = .ok (some s) := by
  have hend (test : SimpleType → SimpleType → Bool) (t : Signature) (ht : t ∈ list) :
      ∃ b, t.fits test actual = .ok b := Signature.exists_fits (hlist t ht) test actual
  have hfirst {test : SimpleType → SimpleType → Bool} {p : Signature → Prop}
      (hp : ∀ s : Signature, s.fits test actual = .ok true ↔ p s) (h : IsFirst list p s) :
      find (Signature.fits test actual) list = .ok (some s) := by
    obtain ⟨hs, before, after, rfl, hbefore⟩ := h
    refine find_eq_some_iff.mpr ⟨(hp s).mpr hs, before, after, rfl, fun t ht => ?_⟩
    exact fits_eq_false hp (hend test t (List.mem_append_left _ ht)) (hbefore t ht)
  rcases h with h | ⟨hnone, h⟩
  · rw [choose, hfirst (fun _ => Signature.fits_beq_iff) h]
  · have hexact : find (Signature.fits (· == ·) actual) list = .ok none := by
      refine find_eq_none_iff.mpr fun t ht => ?_
      exact fits_eq_false (fun _ => Signature.fits_beq_iff) (hend _ t ht) (hnone t ht)
    rw [choose, hexact]
    exact hfirst (fun _ => Signature.fits_accepts_iff) h

/-- Where operands may be promoted to a signature, they are never said to fit none. -/
theorem choose_ne_none (h : ∃ t ∈ list, t.Promotes actual) : choose list actual ≠ .ok none := by
  obtain ⟨t, ht, hpromotes⟩ := h
  intro hnone
  unfold choose at hnone
  split at hnone
  · cases hnone
  · cases hnone
  · exact forall_not_of_find (fun _ => Signature.fits_accepts_iff) hnone t ht hpromotes

/-- Declared signatures give primitive operands the result of a signature that they choose. -/
theorem exists_chooses_of_resolve {type : ValueType}
    (h : (declared list).resolve (actual.map .simple) = .ok (some type)) :
    ∃ s, Chooses list actual s ∧ type = .simple s.result := by
  obtain ⟨s, hs, htype⟩ := resolve_simple_eq_some_iff.mp h
  exact ⟨s, chooses_of_choose hs, htype⟩

theorem resolve_ne_none (h : ∃ t ∈ list, t.Promotes actual) :
    (declared list).resolve (actual.map .simple) ≠ .ok none := by
  have hsimple : simpleTypes? (actual.map .simple) = some actual :=
    simpleTypes?_eq_some_iff.mpr rfl
  have hne := choose_ne_none h
  intro hnone
  simp only [resolve, hsimple] at hnone
  cases hchosen : choose list actual with
  | error e =>
    rw [hchosen] at hnone
    cases hnone
  | ok chosen =>
    rw [hchosen] at hnone
    cases chosen with
    | none => exact hne hchosen
    | some s => cases hnone

end Signatures

/-- Operands of a call that has a type may be narrowed one by one: the call is never ill typed then,
and it has a type wherever each variadic signature has a parameter. The type of a call is the result
of the first signature that is matched exactly, and only where there is none that of the first one
by promotion; where each variadic signature has a parameter, such a signature gives the call its
type. -/
theorem Descriptor.exists_type_of_narrowed (d : Descriptor) (list : List Signature)
    (hd : d.signatures = .declared list) :
    (∀ xs ys : List SimpleType, List.Forall₂ (fun x y => x.accepts y = true) xs ys →
      (∃ type, d.resolve (xs.map .simple) = .ok (some type)) →
      d.resolve (ys.map .simple) ≠ .ok none ∧
        ((∀ s ∈ list, s.variadic = true → s.parameters ≠ []) →
          ∃ type, d.resolve (ys.map .simple) = .ok (some type))) ∧
    ∀ (xs : List SimpleType) (type : ValueType),
      (d.resolve (xs.map .simple) = .ok (some type) →
        ∃ s, Signatures.Chooses list xs s ∧ type = .simple s.result) ∧
      ((∀ s ∈ list, s.variadic = true → s.parameters ≠ []) →
        ∀ s, Signatures.Chooses list xs s →
          d.resolve (xs.map .simple) = .ok (some (.simple s.result))) := by
  have hresolve (operands : List ValueType) :
      d.resolve operands = (Signatures.declared list).resolve operands := by
    rw [Descriptor.resolve, hd]
  simp only [hresolve]
  refine ⟨fun xs ys hys hxs => ?_, fun xs type => ⟨Signatures.exists_chooses_of_resolve, ?_⟩⟩
  · obtain ⟨type, hxs⟩ := hxs
    obtain ⟨s, hs, _⟩ := Signatures.exists_chooses_of_resolve hxs
    obtain ⟨t, ht, hpromotes⟩ := hs.exists_promotes
    have hne := Signatures.resolve_ne_none ⟨t, ht, hpromotes.narrowed hys⟩
    refine ⟨hne, fun hparameters => ?_⟩
    obtain ⟨type?, htype⟩ := Descriptor.exists_resolve (d := d)
      (fun list' hlist' => by rw [hd] at hlist'; cases hlist'; exact hparameters) (ys.map .simple)
    rw [hresolve] at htype
    cases type? with
    | none => exact absurd htype hne
    | some type => exact ⟨type, htype⟩
  · intro hparameters s hs
    exact Signatures.resolve_simple_eq_some_iff.mpr
      ⟨s, Signatures.choose_of_chooses hparameters hs, rfl⟩

-- Both types of bytes take a number of seven bits, and the one that is declared first wins.
example : (Operator.binary .add).descriptor.resolve [.simple .uint7, .simple .uint7] =
    .ok (some (.simple .sbyte)) := rfl

/-- A method with two signatures, of which the second takes any number of decimals behind a truth
value. -/
def tallyDescriptor : Descriptor :=
  ⟨.method .concat, "concat", "concat", .method, 0,
    .declared [.fixed [.int32, .int32] .int64, ⟨[.boolean, .decimal], .string, true⟩]⟩

/-- Operands that match the variadic signature exactly match it by promotion once they are narrowed
to a bit, a small number and null. -/
theorem exists_type_of_narrowed_tally :
    tallyDescriptor.resolve [.simple .boolean, .simple .decimal, .simple .decimal] =
      .ok (some (.simple .string)) ∧
    ∃ type, tallyDescriptor.resolve [.simple .bit, .simple .uint7, .simple .null] =
      .ok (some type) ∧ type = .simple .string := by
  have hwide : tallyDescriptor.resolve [.simple .boolean, .simple .decimal, .simple .decimal] =
      .ok (some (.simple .string)) := rfl
  have hnarrow : List.Forall₂ (fun x y => SimpleType.accepts x y = true)
      [.boolean, .decimal, .decimal] [.bit, .uint7, .null] :=
    .cons rfl (.cons rfl (.cons rfl .nil))
  obtain ⟨type, htype⟩ :=
    ((Descriptor.exists_type_of_narrowed tallyDescriptor _ rfl).1 _ _ hnarrow ⟨_, hwide⟩).2
      (by decide)
  refine ⟨hwide, type, htype, ?_⟩
  cases htype
  rfl

/-- A method of which the second signature is variadic and has no parameter. -/
def bareDescriptor : Descriptor :=
  ⟨.method .concat, "concat", "concat", .method, 0,
    .declared [.fixed [.int32] .int32, ⟨[], .string, true⟩]⟩

/-- An operand that matches the first signature exactly has a type. Narrowed, it is looked for in
the second one, which takes it and has no parameter for it, so that the search fails. -/
theorem narrowed_outOfRange :
    bareDescriptor.resolve [.simple .int32] = .ok (some (.simple .int32)) ∧
      SimpleType.int32.accepts .byte = true ∧
      bareDescriptor.resolve [.simple .byte] = .error ⟨0, 0⟩ :=
  ⟨rfl, rfl, rfl⟩

end EntityQuery
