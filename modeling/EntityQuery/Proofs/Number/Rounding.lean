import EntityQuery.Number.Binary64

/-!
# Rounding to binary floating-point numbers

Every finite number is a multiple of the least positive one. Counted in this unit, rounding a
fraction means rounding to a multiple of a power of two, the binade of the fraction. Main results:
which fractions are rounded to zero, which ones are rounded to a number below 60, and that whole
numbers below 60 are not changed.
-/

namespace EntityQuery.Binary64

theorem two_pow_add (i j : Nat) : Nat.pow 2 (i + j) = Nat.pow 2 i * Nat.pow 2 j := Nat.pow_add 2 i j

theorem two_pow_pos (i : Nat) : 0 < Nat.pow 2 i := Nat.pow_pos (by decide)

theorem two_pow_le {i j : Nat} (h : i ≤ j) : Nat.pow 2 i ≤ Nat.pow 2 j :=
  Nat.pow_le_pow_right (by decide) h

/-! ### Nearest whole numbers -/

section Quotient

variable {n d k : Nat}

theorem div_le_divToEven (n d : Nat) : n / d ≤ divToEven n d := by
  simp only [divToEven]
  split
  · exact Nat.le_refl _
  · split <;> omega

theorem divToEven_le (n d : Nat) : divToEven n d ≤ n / d + 1 := by
  simp only [divToEven]
  split
  · omega
  · split <;> omega

/-- Numerator and denominator may be scaled alike. -/
theorem divToEven_mul_right {c : Nat} (hc : 0 < c) (n d : Nat) :
    divToEven (n * c) (d * c) = divToEven n d := by
  have hdouble : 2 * (n % d * c) = 2 * (n % d) * c := (Nat.mul_assoc ..).symm
  simp only [divToEven, Nat.mul_div_mul_right _ _ hc, Nat.mul_mod_mul_right, hdouble,
    Nat.mul_lt_mul_right hc, Nat.mul_right_cancel_iff hc]

/-- A quotient without remainder is not changed. -/
theorem divToEven_mul_self (hd : 0 < d) (q : Nat) : divToEven (q * d) d = q := by
  simp [divToEven, Nat.mul_div_cancel _ hd, hd]

/-- A quotient reaches an even number from half below it on. -/
theorem le_divToEven_iff (hd : 0 < d) (hk : k % 2 = 0) :
    k ≤ divToEven n d ↔ 2 * k * d ≤ 2 * n + d := by
  have hsplit : d * (n / d) + n % d = n := Nat.div_add_mod n d
  have hrest : n % d < d := Nat.mod_lt n hd
  have hnear : k ≤ n / d ∨ k = n / d + 1 ∨ n / d + 2 ≤ k := by omega
  rcases hnear with hle | heq | hge
  · refine iff_of_true (Nat.le_trans hle (div_le_divToEven n d)) ?_
    have hmul : k * d ≤ d * (n / d) := Nat.mul_comm d (n / d) ▸ Nat.mul_le_mul_right d hle
    rw [Nat.mul_assoc]
    omega
  · have hmul : 2 * k * d = 2 * (d * (n / d)) + 2 * d := by rw [heq, Nat.mul_comm d]; grind
    rw [hmul]
    simp only [divToEven]
    split
    · omega
    · split <;> omega
  · have hmul : d * (n / d) + 2 * d ≤ k * d := by
      have hle := Nat.mul_le_mul_right d hge
      rw [Nat.add_mul, Nat.mul_comm (n / d)] at hle
      exact hle
    have hle := divToEven_le n d
    rw [Nat.mul_assoc]
    exact iff_of_false (by omega) (by omega)

/-- Only a quotient of at most one half is rounded to zero. -/
theorem divToEven_eq_zero_iff (hd : 0 < d) : divToEven n d = 0 ↔ 2 * n ≤ d := by
  have hsplit : d * (n / d) + n % d = n := Nat.div_add_mod n d
  have hle := div_le_divToEven n d
  by_cases hq : n / d = 0
  · rw [hq, Nat.mul_zero, Nat.zero_add] at hsplit
    simp only [divToEven, hq, hsplit]
    split
    · omega
    · split <;> omega
  · have hpos : 0 < n / d := Nat.pos_of_ne_zero hq
    have hmul : d ≤ d * (n / d) := Nat.le_mul_of_pos_right d hpos
    exact iff_of_false (Nat.ne_of_gt (Nat.lt_of_lt_of_le hpos hle)) (by omega)

end Quotient

/-! ### Binades -/

/-- The exponent, counted from that of the unit. -/
def shift (x : Binary64) : Nat := (x.exponent - minExponent).toNat

/-- The magnitude, counted in the unit. -/
def units (x : Binary64) : Nat := x.significand * Nat.pow 2 x.shift

/-- How often the unit is doubled to make one. -/
@[irreducible]
def doublings : Nat := 1074

theorem doublings_eq : doublings = 1074 := by rw [doublings]

theorem minExponent_eq : minExponent = -(doublings : Int) := by rw [doublings_eq, minExponent]; rfl

/-- The number of units that make one. -/
def one : Nat := Nat.pow 2 doublings

theorem one_eq {i j : Nat} (h : i + j = doublings) : one = Nat.pow 2 i * Nat.pow 2 j := by
  rw [← two_pow_add, h, one]

theorem one_pos : 0 < one := two_pow_pos _

/-- The multiples of `2 ^ k` units are those that a fraction is rounded to: it is less than `2 ^ 53`
of them, and at least `2 ^ 52` unless they are the units themselves. -/
structure Binade (num den k : Nat) : Prop where
  below : num * one < den * Nat.pow 2 (k + 53)
  normal : k = 0 ∨ den * Nat.pow 2 (k + 52) ≤ num * one

section Fraction

variable {num den : Nat}

/-- Scaled by an exponent, a fraction is a number of multiples of a power of two units. -/
theorem exists_unscale {e : Int} {k : Nat} (he : e = k + minExponent) (num den : Nat) :
    ∃ c, 0 < c ∧ num * one = (unscale num den e).1 * c ∧
      den * Nat.pow 2 k = (unscale num den e).2 * c := by
  rw [minExponent_eq] at he
  rcases Nat.le_total k doublings with hk | hk
  · refine ⟨Nat.pow 2 k, two_pow_pos k, ?_, ?_⟩
    · rw [unscale, Nat.mul_assoc, ← one_eq (by omega)]
    · have hzero : e.toNat = 0 := by omega
      rw [unscale, hzero]
      exact congrArg (· * Nat.pow 2 k) (Nat.mul_one den).symm
  · refine ⟨one, one_pos, ?_, ?_⟩
    · have hzero : (-e).toNat = 0 := by omega
      rw [unscale, hzero]
      exact congrArg (· * one) (Nat.mul_one num).symm
    · have hsum : k = e.toNat + doublings := by omega
      rw [unscale, one, Nat.mul_assoc, ← two_pow_add, ← hsum]

/-- The quotient at an exponent is a number of multiples. -/
theorem unscale_div_lt_iff {e : Int} {k : Nat} (he : e = k + minExponent) (hden : den ≠ 0) :
    (unscale num den e).1 / (unscale num den e).2 < Nat.pow 2 52 ↔
      num * one < den * Nat.pow 2 (k + 52) := by
  obtain ⟨c, hc, hn, hd⟩ := exists_unscale he num den
  have hpos : 0 < den * Nat.pow 2 k := Nat.mul_pos (Nat.pos_of_ne_zero hden) (two_pow_pos k)
  rw [← Nat.mul_div_mul_right _ _ hc, ← hn, ← hd, Nat.div_lt_iff_lt_mul hpos, two_pow_add,
    Nat.mul_comm (Nat.pow 2 52), Nat.mul_assoc]

/-- The exponent that a fraction is rounded at is that of its binade. -/
theorem exists_binade (hnum : num ≠ 0) (hden : den ≠ 0) :
    ∃ k : Nat, targetExponent num den = k + minExponent ∧ Binade num den k := by
  -- the logarithms give both parts of the fraction up to a factor of two
  have hlower : Nat.pow 2 (num.log2 + doublings) ≤ num * one := by
    rw [two_pow_add]
    exact Nat.mul_le_mul_right one (Nat.log2_self_le hnum)
  have hupper : num * one < Nat.pow 2 (num.log2 + 1 + doublings) := by
    rw [two_pow_add]
    exact Nat.mul_lt_mul_of_pos_right Nat.lt_log2_self one_pos
  have hdenLe (k : Nat) : Nat.pow 2 (den.log2 + k) ≤ den * Nat.pow 2 k := by
    rw [two_pow_add]
    exact Nat.mul_le_mul_right _ (Nat.log2_self_le hden)
  have hdenLt (k : Nat) : den * Nat.pow 2 k < Nat.pow 2 (den.log2 + 1 + k) := by
    rw [two_pow_add (den.log2 + 1)]
    exact Nat.mul_lt_mul_of_pos_right Nat.lt_log2_self (two_pow_pos k)
  unfold targetExponent
  by_cases hsmall : (num.log2 : Int) - den.log2 - 52 < minExponent
  · -- less than the least normal number: rounded to units
    refine ⟨0, ?_, ?_, .inl rfl⟩
    · simp only
      split <;> omega
    · rw [minExponent_eq] at hsmall
      have hpow := @two_pow_le (num.log2 + 1 + doublings) (den.log2 + (0 + 53)) (by omega)
      exact Nat.lt_of_lt_of_le hupper (Nat.le_trans hpow (hdenLe _))
  · obtain ⟨k, hk⟩ : ∃ k : Nat, (num.log2 : Int) - den.log2 - 52 = k + minExponent :=
      ⟨_, (by omega : _ = (((num.log2 : Int) - den.log2 - 52 - minExponent).toNat : Int) +
        minExponent)⟩
    have hsum : num.log2 + doublings = den.log2 + 52 + k := by
      rw [minExponent_eq] at hk
      omega
    simp only [unscale_div_lt_iff hk hden]
    split
    · next hlt =>
      cases k with
      | zero =>
        refine ⟨0, by omega, ?_, .inl rfl⟩
        exact Nat.lt_of_lt_of_le hlt (Nat.mul_le_mul_left den (two_pow_le (by omega)))
      | succ k =>
        refine ⟨k, by omega, hlt, .inr ?_⟩
        have hpow := @two_pow_le (den.log2 + 1 + (k + 52)) (num.log2 + doublings) (by omega)
        exact Nat.le_trans (Nat.le_of_lt (hdenLt _)) (Nat.le_trans hpow hlower)
    · next hge =>
      refine ⟨k, by omega, ?_, .inr (Nat.le_of_not_lt hge)⟩
      have hpow := @two_pow_le (num.log2 + 1 + doublings) (den.log2 + (k + 53)) (by omega)
      exact Nat.lt_of_lt_of_le hupper (Nat.le_trans hpow (hdenLe _))

end Fraction

/-! ### Rounded fractions -/

section Whole

variable {x : Binary64}

/-- The exponent is not below that of the unit. -/
def OnGrid (x : Binary64) : Prop := minExponent ≤ x.exponent

theorem exists_units (h : x.OnGrid) :
    ∃ c, 0 < c ∧ x.units = x.significand * Nat.pow 2 x.exponent.toNat * c ∧
    one = Nat.pow 2 (-x.exponent).toNat * c := by
  rw [OnGrid, minExponent_eq] at h
  rw [units, shift, minExponent_eq]
  rcases Int.le_total 0 x.exponent with he | he
  · refine ⟨one, one_pos, ?_, ?_⟩
    · have hsum : (x.exponent - -(doublings : Int)).toNat = x.exponent.toNat + doublings := by omega
      rw [hsum, two_pow_add, Nat.mul_assoc, one]
    · have hzero : (-x.exponent).toNat = 0 := by omega
      rw [hzero]
      exact (Nat.one_mul one).symm
  · refine ⟨Nat.pow 2 (x.exponent - -(doublings : Int)).toNat, two_pow_pos _, ?_, one_eq (by omega)⟩
    have hzero : x.exponent.toNat = 0 := by omega
    rw [hzero]
    exact congrArg (· * _) (Nat.mul_one _).symm

theorem units_eq_zero_iff : x.units = 0 ↔ x.significand = 0 := by
  rw [units, Nat.mul_eq_zero]
  exact or_iff_left (Nat.ne_of_gt (two_pow_pos _))

/-- The whole part is the number of times that the units make one. -/
theorem whole_eq (h : x.OnGrid) : x.whole = x.units / one := by
  obtain ⟨c, hc, hunits, hone⟩ := exists_units h
  rw [hunits, hone, Nat.mul_div_mul_right _ _ hc, whole]

/-- Units that make a whole number leave no fraction. -/
theorem fraction_eq_zero (h : x.OnGrid) {s : Nat} (hs : x.units = s * one) : x.fraction.1 = 0 := by
  obtain ⟨c, hc, hunits, hone⟩ := exists_units h
  have hmod : x.units % one = 0 := by rw [hs, Nat.mul_mod_left]
  rw [hunits, hone, Nat.mul_mod_mul_right] at hmod
  exact (Nat.mul_eq_zero.mp hmod).resolve_right (Nat.ne_of_gt hc)

end Whole

section Rounding

variable {num den : Nat}

/-- A fraction is rounded to the nearest multiple in its binade, unless the binade has no finite
numbers. -/
theorem exists_ofFraction? (negative : Bool) (hnum : num ≠ 0) (hden : den ≠ 0) :
    ∃ k, Binade num den k ∧
    (ofFraction? negative num den = none ∧ 2045 ≤ k ∨
      ∃ x, ofFraction? negative num den = some x ∧ x.negative = negative ∧ x.OnGrid ∧
        x.units = divToEven (num * one) (den * Nat.pow 2 k) * Nat.pow 2 k) := by
  obtain ⟨k, htarget, hbinade⟩ := exists_binade hnum hden
  refine ⟨k, hbinade, ?_⟩
  obtain ⟨c, hc, hn, hd⟩ := exists_unscale htarget num den
  have hround : divToEven (unscale num den (targetExponent num den)).1
      (unscale num den (targetExponent num den)).2 =
      divToEven (num * one) (den * Nat.pow 2 k) := by
    rw [← divToEven_mul_right hc, ← hn, ← hd]
  simp only [ofFraction?, if_neg hnum, hround]
  generalize divToEven (num * one) (den * Nat.pow 2 k) = m
  have hmin : minExponent = -1074 := rfl
  have hmax : maxExponent = 971 := rfl
  rw [htarget]
  split
  · next hm =>
    -- a significand that is rounded up to the next power of two
    split
    · refine .inr ⟨_, rfl, rfl, ?_, ?_⟩
      · simp only [OnGrid]
        omega
      · have hshift : ((k : Int) + minExponent + 1 - minExponent).toNat = 1 + k := by omega
        simp only [units, shift, hshift, hm, two_pow_add 1 k]
        exact (Nat.mul_assoc (Nat.pow 2 52) (Nat.pow 2 1) (Nat.pow 2 k)).symm
    · exact .inl ⟨rfl, by omega⟩
  · split
    · refine .inr ⟨_, rfl, rfl, ?_, ?_⟩
      · simp only [OnGrid]
        omega
      · have hshift : ((k : Int) + minExponent - minExponent).toNat = k := by omega
        simp only [units, shift, hshift]
    · exact .inl ⟨rfl, by omega⟩

/-- The fraction is below 60 by more than half of the least step between numbers there. -/
def IsBelowMinute (num den : Nat) : Prop := num * Nat.pow 2 48 + den < 60 * Nat.pow 2 48 * den

/-- The fraction is at most half a unit. -/
def IsNegligible (num den : Nat) : Prop := 2 * (num * one) ≤ den

namespace Binade

variable {k : Nat}

theorem pos (hden : den ≠ 0) (k : Nat) : 0 < den * Nat.pow 2 k :=
  Nat.mul_pos (Nat.pos_of_ne_zero hden) (two_pow_pos k)

/-- A fraction is rounded to at most `2 ^ 53` multiples of its binade. -/
theorem divToEven_le (h : Binade num den k) (hden : den ≠ 0) :
    divToEven (num * one) (den * Nat.pow 2 k) ≤ Nat.pow 2 53 := by
  have hdiv : num * one / (den * Nat.pow 2 k) < Nat.pow 2 53 := by
    rw [Nat.div_lt_iff_lt_mul (pos hden k), Nat.mul_comm (Nat.pow 2 53), Nat.mul_assoc,
      ← two_pow_add]
    exact h.below
  exact Nat.le_trans (Binary64.divToEven_le _ _) hdiv

/-- A fraction is rounded to at least `2 ^ 52` multiples of its binade, if they are not the
units. -/
theorem le_divToEven (h : Binade num den k) (hden : den ≠ 0) (hk : k ≠ 0) :
    Nat.pow 2 52 ≤ divToEven (num * one) (den * Nat.pow 2 k) := by
  have hdiv : Nat.pow 2 52 ≤ num * one / (den * Nat.pow 2 k) := by
    rw [Nat.le_div_iff_mul_le (pos hden k), Nat.mul_comm (Nat.pow 2 52), Nat.mul_assoc,
      ← two_pow_add]
    exact h.normal.resolve_left hk
  exact Nat.le_trans hdiv (div_le_divToEven _ _)

/-- Up to the binade of 32, fractions are below 32 and are rounded to at most 32. -/
theorem below_thirtyTwo (h : Binade num den k) (hden : den ≠ 0) {j : Nat} (hj : 47 + j = doublings)
    (hk : k < j) :
    num < 32 * den ∧ divToEven (num * one) (den * Nat.pow 2 k) * Nat.pow 2 k ≤ 32 * one := by
  have hone : one = 140737488355328 * Nat.pow 2 j := one_eq hj
  constructor
  · have hle := Nat.mul_le_mul_left den (@two_pow_le (k + 53) (52 + j) (by omega))
    have hmul := Nat.lt_of_lt_of_le h.below hle
    rw [hone, two_pow_add, ← Nat.mul_assoc, ← Nat.mul_assoc] at hmul
    have hmul : num * 140737488355328 < den * 4503599627370496 := Nat.lt_of_mul_lt_mul_right hmul
    omega
  · have hle := @two_pow_le (53 + k) (52 + j) (by omega)
    rw [two_pow_add, two_pow_add] at hle
    have hunits := Nat.le_trans (Nat.mul_le_mul_right _ (h.divToEven_le hden)) hle
    have hsteps : Nat.pow 2 52 * Nat.pow 2 j = 32 * one := by
      rw [hone]
      exact Nat.mul_assoc 32 140737488355328 (Nat.pow 2 j)
    rwa [hsteps] at hunits

/-- From the binade of 64 on, fractions are at least 64 and are rounded to at least 64. -/
theorem above_sixtyFour (h : Binade num den k) (hden : den ≠ 0) {j : Nat} (hj : 47 + j = doublings)
    (hk : j < k) :
    64 * den ≤ num ∧ 64 * one ≤ divToEven (num * one) (den * Nat.pow 2 k) * Nat.pow 2 k := by
  have hone : one = 140737488355328 * Nat.pow 2 j := one_eq hj
  have hnormal : k ≠ 0 := by omega
  constructor
  · have hle := Nat.mul_le_mul_left den (@two_pow_le (53 + j) (k + 52) (by omega))
    have hmul := Nat.le_trans hle (h.normal.resolve_left hnormal)
    rw [hone, two_pow_add, ← Nat.mul_assoc, ← Nat.mul_assoc] at hmul
    have hmul : den * 9007199254740992 ≤ num * 140737488355328 :=
      Nat.le_of_mul_le_mul_right hmul (two_pow_pos j)
    omega
  · have hle := @two_pow_le (53 + j) (52 + k) (by omega)
    rw [two_pow_add, two_pow_add] at hle
    have hunits := Nat.le_trans hle (Nat.mul_le_mul_right _ (h.le_divToEven hden hnormal))
    have hsteps : Nat.pow 2 53 * Nat.pow 2 j = 64 * one := by
      rw [hone]
      exact Nat.mul_assoc 64 140737488355328 (Nat.pow 2 j)
    rwa [hsteps] at hunits

/-- From 32 to 64, the number 60 is an even multiple of the step, and is reached from half a step
below it on. -/
theorem units_lt_iff_of_eq (hden : den ≠ 0) (hk : 47 + k = doublings) :
    divToEven (num * one) (den * Nat.pow 2 k) * Nat.pow 2 k < 60 * one ↔ IsBelowMinute num den := by
  have hone : one = 140737488355328 * Nat.pow 2 k := one_eq hk
  have hsixty : 60 * one = 8444249301319680 * Nat.pow 2 k := by
    rw [hone]
    exact (Nat.mul_assoc ..).symm
  have hleft : 2 * 8444249301319680 * (den * Nat.pow 2 k) = 16888498602639360 * den * Nat.pow 2 k :=
    (Nat.mul_assoc ..).symm
  have hright : 2 * (num * one) + den * Nat.pow 2 k =
      (num * 281474976710656 + den) * Nat.pow 2 k := by
    rw [hone]
    grind
  rw [hsixty, Nat.mul_lt_mul_right (two_pow_pos k), ← Nat.not_le,
    le_divToEven_iff (pos hden k) (by decide), hleft, hright,
    Nat.mul_le_mul_right_iff (two_pow_pos k), Nat.not_le]
  rfl

/-- In every binade, what is rounded to less than 60 is what is below 60 by more than half a
step. -/
theorem units_lt_iff (h : Binade num den k) (hden : den ≠ 0) :
    divToEven (num * one) (den * Nat.pow 2 k) * Nat.pow 2 k < 60 * one ↔ IsBelowMinute num den := by
  -- the steps from 32 to 64 are multiples of `2 ^ j` units
  obtain ⟨j, hj⟩ : ∃ j, 47 + j = doublings := ⟨1027, doublings_eq.symm⟩
  have hbelow : IsBelowMinute num den ↔ num * 281474976710656 + den < 16888498602639360 * den :=
    Iff.rfl
  have hone := one_pos
  rcases Nat.lt_trichotomy k j with hlt | rfl | hgt
  · obtain ⟨hnum, hunits⟩ := h.below_thirtyTwo hden hj hlt
    exact iff_of_true (by omega) (hbelow.mpr (by omega))
  · exact units_lt_iff_of_eq hden hj
  · obtain ⟨hnum, hunits⟩ := h.above_sixtyFour hden hj hgt
    exact iff_of_false (by omega) (mt hbelow.mp (by omega))

/-- Only a negligible fraction is rounded to no multiple. -/
theorem divToEven_eq_zero_iff (h : Binade num den k) (hden : den ≠ 0) :
    divToEven (num * one) (den * Nat.pow 2 k) = 0 ↔ IsNegligible num den := by
  by_cases hk : k = 0
  · subst hk
    have hunit : den * Nat.pow 2 0 = den := Nat.mul_one den
    rw [hunit, Binary64.divToEven_eq_zero_iff (Nat.pos_of_ne_zero hden), IsNegligible]
  · have hle := h.le_divToEven hden hk
    have hmul := Nat.mul_le_mul_left den (two_pow_pos (k + 52))
    have hnum := h.normal.resolve_left hk
    rw [IsNegligible]
    exact iff_of_false (Nat.ne_of_gt (Nat.lt_of_lt_of_le (two_pow_pos 52) hle)) (by omega)

/-- A whole number with at most 52 bits is a multiple in its binade. -/
theorem units_of_whole {s : Nat} (h : Binade (s * den) den k) (hden : den ≠ 0)
    (hs : s < Nat.pow 2 52) :
    divToEven (s * den * one) (den * Nat.pow 2 k) * Nat.pow 2 k = s * one := by
  obtain ⟨i, hi⟩ : ∃ i, i + k = doublings := by
    suffices hk : k ≤ doublings from ⟨doublings - k, Nat.sub_add_cancel hk⟩
    rcases h.normal with rfl | hnormal
    · exact Nat.zero_le _
    · -- a binade above that of one starts with numbers of more than 52 bits
      rw [Nat.mul_comm s, Nat.mul_assoc] at hnormal
      have hle := Nat.le_of_mul_le_mul_left hnormal (Nat.pos_of_ne_zero hden)
      have hlt : Nat.pow 2 (k + 52) < Nat.pow 2 (52 + doublings) := by
        rw [two_pow_add 52]
        exact Nat.lt_of_le_of_lt hle (Nat.mul_lt_mul_of_pos_right hs one_pos)
      have hexponent := (Nat.pow_lt_pow_iff_right (by decide)).mp hlt
      omega
  have hmultiple : s * den * one = s * Nat.pow 2 i * (den * Nat.pow 2 k) := by
    rw [one_eq hi]
    grind
  rw [hmultiple, divToEven_mul_self (pos hden k), one_eq hi, Nat.mul_assoc]

end Binade

/-- What is known of the number that a fraction is rounded to. -/
structure IsRounded (x : Binary64) (negative : Bool) (num den : Nat) : Prop where
  negative_eq : x.negative = negative
  whole_lt_iff : x.whole < 60 ↔ IsBelowMinute num den
  significand_eq_zero_iff : x.significand = 0 ↔ IsNegligible num den
  whole_eq : ∀ s < 60, num = s * den → x.whole = s ∧ x.fraction.1 = 0

theorem whole_zero (negative : Bool) : (zero negative).whole = 0 := by simp [whole, zero]

/-- A negligible fraction is rounded to zero. -/
theorem isRounded_zero (negative : Bool) (hden : den ≠ 0) (h : IsNegligible num den) :
    (zero negative).IsRounded negative num den := by
  have hlt : num = 0 ∨ num < den := by
    rw [IsNegligible] at h
    have hle := Nat.le_mul_of_pos_right num one_pos
    omega
  refine ⟨rfl, iff_of_true (by simp [whole_zero]) ?_, iff_of_true rfl h, ?_⟩
  · show num * 281474976710656 + den < 16888498602639360 * den
    omega
  · rintro s - rfl
    have hs : s = 0 := by
      rcases hlt with hzero | hlt
      · exact (Nat.mul_eq_zero.mp hzero).resolve_right hden
      · exact Nat.lt_one_iff.mp (Nat.lt_of_mul_lt_mul_right (by omega : s * den < 1 * den))
    exact ⟨by rw [whole_zero, hs], by simp [fraction, zero]⟩

/-- A fraction is rounded to a finite number, unless it is far above 60. -/
theorem ofFraction?_isRounded (negative : Bool) (hden : den ≠ 0) :
    (∃ x, ofFraction? negative num den = some x ∧ x.IsRounded negative num den) ∨
      ofFraction? negative num den = none ∧ ¬ IsBelowMinute num den := by
  by_cases hnum : num = 0
  · exact .inl ⟨zero negative, by rw [ofFraction?, if_pos hnum],
      isRounded_zero negative hden (by simp [IsNegligible, hnum])⟩
  · obtain ⟨k, hbinade, ⟨hnone, hk⟩ | ⟨x, hx, hnegative, hgrid, hunits⟩⟩ :=
      exists_ofFraction? negative hnum hden
    · refine .inr ⟨hnone, ?_⟩
      have hmultiples := hbinade.le_divToEven hden (by omega)
      have hpow : one ≤ Nat.pow 2 k := two_pow_le (by rw [doublings_eq]; omega)
      have hle := Nat.mul_le_mul (Nat.le_trans (by decide : 60 ≤ Nat.pow 2 52) hmultiples) hpow
      rw [← hbinade.units_lt_iff hden]
      exact Nat.not_lt_of_le hle
    · refine .inl ⟨x, hx, hnegative, ?_, ?_, ?_⟩
      · rw [whole_eq hgrid, Nat.div_lt_iff_lt_mul one_pos, hunits, hbinade.units_lt_iff hden]
      · rw [← units_eq_zero_iff, hunits, Nat.mul_eq_zero, ← hbinade.divToEven_eq_zero_iff hden]
        exact or_iff_left (Nat.ne_of_gt (two_pow_pos k))
      · rintro s hs rfl
        have hwhole : x.units = s * one :=
          hunits.trans (hbinade.units_of_whole hden (Nat.lt_trans hs (by decide)))
        exact ⟨by rw [whole_eq hgrid, hwhole, Nat.mul_div_cancel s one_pos],
          fraction_eq_zero hgrid hwhole⟩

end Rounding

/-! ### Rounded decimals -/

/-- Digits scaled by a power of ten, as a fraction. -/
def decimalFraction (digits : Nat) (e : Int) : Nat × Nat :=
  (digits * Nat.pow 10 e.toNat, Nat.pow 10 (-e).toNat)

/-- Digits that are scaled down far enough are negligible. -/
theorem isNegligible_of_log2 {digits : Nat} {e : Int}
    (h : (digits.log2 : Int) + 1 + 3 * e < -1100) :
    IsNegligible (digits * Nat.pow 10 e.toNat) (Nat.pow 10 (-e).toNat) := by
  obtain ⟨i, rfl⟩ : ∃ i : Nat, e = -(i : Int) := ⟨(-e).toNat, by omega⟩
  have hdown : (-(i : Int)).toNat = 0 := by omega
  have hup : (-(-(i : Int))).toNat = i := by omega
  have hdigits : digits ≤ Nat.pow 2 (digits.log2 + 1) := Nat.le_of_lt Nat.lt_log2_self
  have hten : Nat.pow 2 (3 * i) ≤ Nat.pow 10 i := by
    have hpow : Nat.pow 2 (3 * i) = Nat.pow 8 i := Nat.pow_mul 2 3 i
    rw [hpow]
    exact Nat.pow_le_pow_left (by decide) i
  rw [IsNegligible, hdown, hup]
  calc 2 * (digits * Nat.pow 10 0 * one) = digits * Nat.pow 2 (1 + doublings) := by
        rw [two_pow_add, show Nat.pow 10 0 = 1 from rfl, one, show Nat.pow 2 1 = 2 from rfl]
        grind
    _ ≤ Nat.pow 2 (digits.log2 + 1) * Nat.pow 2 (1 + doublings) := Nat.mul_le_mul_right _ hdigits
    _ = Nat.pow 2 (digits.log2 + 1 + (1 + doublings)) := (two_pow_add _ _).symm
    _ ≤ Nat.pow 2 (3 * i) := two_pow_le (by rw [doublings_eq]; omega)
    _ ≤ Nat.pow 10 i := hten

/-- A decimal is rounded to a finite number, unless it is far above 60. -/
theorem ofDecimal?_isRounded (negative : Bool) (digits : Nat) (e : Int) :
    (∃ x, ofDecimal? negative digits e = some x ∧
      x.IsRounded negative (decimalFraction digits e).1 (decimalFraction digits e).2) ∨
    ofDecimal? negative digits e = none ∧
      ¬ IsBelowMinute (decimalFraction digits e).1 (decimalFraction digits e).2 := by
  have hden : Nat.pow 10 (-e).toNat ≠ 0 := Nat.ne_of_gt (Nat.pow_pos (by decide))
  unfold ofDecimal? decimalFraction
  split
  · next hzero => exact .inl ⟨_, rfl, isRounded_zero negative hden (by simp [IsNegligible, hzero])⟩
  · next hdigits =>
    split
    · next hlarge =>
      refine .inr ⟨rfl, ?_⟩
      have hone : (-e).toNat = 0 := by omega
      have hpow : 100 ≤ Nat.pow 10 e.toNat :=
        Nat.pow_le_pow_right (by decide : 0 < 10) (by omega : 2 ≤ e.toNat)
      have hnum : 100 ≤ digits * Nat.pow 10 e.toNat :=
        Nat.le_trans hpow (Nat.le_mul_of_pos_left _ (Nat.pos_of_ne_zero hdigits))
      rw [hone]
      show ¬ digits * Nat.pow 10 e.toNat * 281474976710656 + 1 < 16888498602639360 * 1
      omega
    · split
      · next hsmall =>
        exact .inl ⟨_, rfl, isRounded_zero negative hden (isNegligible_of_log2 hsmall)⟩
      · exact ofFraction?_isRounded negative hden

end EntityQuery.Binary64
