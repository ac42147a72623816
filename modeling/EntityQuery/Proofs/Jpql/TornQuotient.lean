import EntityQuery.Proofs.Jpql.Arithmetic

/-!
# Torn quotients

Where a product goes on in a product that starts with a quotient, the text multiplies before it
divides. If the leaves are distinct paths, each subexpression can be given any value on its own, so
the difference shows in the value of the whole: the condition under which texts keep values is
exact.
-/

namespace EntityQuery

open Jpql (Phrase)

/-! ### Assignments to distinct paths -/

namespace Jpql.Phrase

variable {env env' : String → Int}

/-- The value of a phrase depends on its paths only. -/
theorem intValue?_congr {p : Phrase} (h : ∀ text, .path text ∈ p.words → env text = env' text) :
    p.intValue? env = p.intValue? env' := by
  induction p with
  | path text => rw [intValue?, intValue?, h text (by simp [words])]
  | negate x ih =>
    have hx := ih fun text hmem => h text (by simp [words, hmem])
    rw [intValue?, intValue?, hx]
  | binary op l r ihl ihr =>
    have hl := ihl fun text hmem => h text (by simp [words, hmem])
    have hr := ihr fun text hmem => h text (by simp [words, hmem])
    rw [intValue?, intValue?, hl, hr]
  | modulo l r ihl ihr =>
    have hl := ihl fun text hmem => h text (by simp [words, hmem])
    have hr := ihr fun text hmem => h text (by simp [words, hmem])
    rw [intValue?, intValue?, hl, hr]
  | group x ih =>
    have hx := ih fun text hmem => h text (by simp [words, hmem])
    rw [intValue?, intValue?, hx]
  | _ => rfl

theorem after?_congr {op : BinaryOperator} {a : Int} {p : Phrase}
    (h : ∀ text, .path text ∈ p.words → env text = env' text) :
    p.after? env op a = p.after? env' op a := by
  induction p with
  | binary inner l r ihl _ =>
    have hl := ihl fun text hmem => h text (by simp [words, hmem])
    have hlv : l.intValue? env = l.intValue? env' :=
      intValue?_congr fun text hmem => h text (by simp [words, hmem])
    have hrv : r.intValue? env = r.intValue? env' :=
      intValue?_congr fun text hmem => h text (by simp [words, hmem])
    rw [after?, after?, hl, hlv, hrv]
  | _ =>
    simp only [after?]
    rw [intValue?_congr h]

end Jpql.Phrase

namespace Expr

/-- The texts of the paths, from left to right. -/
def paths (qualifier : String) : Expr → List String
  | .literal _ _ | .call _ _ _ => []
  | .unary _ _ operand => operand.paths qualifier
  | .binary _ _ left right => left.paths qualifier ++ right.paths qualifier
  | e => [e.pathText qualifier]

/-- Whether a literal stands in the expression. -/
def hasLiteral : Expr → Bool
  | .literal _ _ => true
  | .unary _ _ operand => operand.hasLiteral
  | .binary _ _ left right => left.hasLiteral || right.hasLiteral
  | _ => false

/-- All leaves are paths, and no two of them the same. -/
def hasDistinctPaths (qualifier : String) (e : Expr) : Bool :=
  !e.hasLiteral && decide (e.paths qualifier).Nodup

variable {qualifier : String}

private theorem paths_of_isPath {e : Expr} (h : e.isPath = true) :
    e.paths qualifier = [e.pathText qualifier] := by
  cases e with
  | property note ref => rfl
  | member note base target => rfl
  | _ => cases h

private theorem path_notMem_ofLiteral (l : Literal) (text : String) :
    .path text ∉ (Phrase.ofLiteral l).words := by
  unfold Phrase.ofLiteral
  split
  · simp [Phrase.words]
  · unfold Phrase.ofText
    split <;> simp [Phrase.words]

private theorem path_mem_groupIf {needed : Bool} {p : Phrase} {text : String}
    (h : .path text ∈ (p.groupIf needed).words) : .path text ∈ p.words := by
  cases needed with
  | false => exact h
  | true => simpa [Phrase.groupIf, Phrase.words] using h

private theorem mem_paths_of_mem_words {e : Expr} (ha : e.Arithmetic) {text : String}
    (h : .path text ∈ (e.rendered qualifier).words) : text ∈ e.paths qualifier := by
  induction ha with
  | integer note type v => exact absurd h (path_notMem_ofLiteral _ text)
  | path hp =>
    rw [rendered_of_isPath hp] at h
    rw [paths_of_isPath hp]
    simpa [Phrase.words] using h
  | negate note _ ih =>
    rw [rendered] at h
    exact ih (path_mem_groupIf (by simpa [Phrase.words] using h))
  | binary note hc _ _ ihl ihr =>
    rw [rendered_arithmetic hc] at h
    rw [paths, List.mem_append]
    split at h
    · simp only [Phrase.words, List.mem_cons, List.mem_append, reduceCtorEq, false_or,
        List.not_mem_nil, or_false] at h
      exact h.imp ihl ihr
    · simp only [Phrase.words, List.mem_cons, List.mem_append, reduceCtorEq, false_or] at h
      exact h.imp (fun h => ihl (path_mem_groupIf h)) fun h => ihr (path_mem_groupIf h)

/-- Assignments that agree on the paths of an expression give its tree and its text the same
values. -/
private theorem congr_paths {e : Expr} (ha : e.Arithmetic) {env env' : String → Int}
    (h : ∀ text ∈ e.paths qualifier, env text = env' text) :
    e.intValue? qualifier env = e.intValue? qualifier env' ∧
      ∀ k, (e.rendered qualifier).regrouped.after? env .mul k =
        (e.rendered qualifier).regrouped.after? env' .mul k := by
  constructor
  · induction ha with
    | integer note type v => rfl
    | path hp =>
      rw [paths_of_isPath hp] at h
      rw [intValue?_of_isPath hp, intValue?_of_isPath hp, h _ (List.mem_singleton_self _)]
    | negate note _ ih => rw [intValue?, intValue?, ih h]
    | binary note _ _ _ ihl ihr =>
      simp only [paths, List.mem_append] at h
      rw [intValue?, intValue?,
        ihl fun text ht => h text (.inl ht), ihr fun text ht => h text (.inr ht)]
  · intro k
    apply Phrase.after?_congr
    intro text hmem
    rw [Phrase.words_regrouped] at hmem
    exact h text (mem_paths_of_mem_words ha hmem)

/-- Under the assignment the tree has the value `v`, and a product `k` before the text becomes
`f k`. -/
private def Behaves (qualifier : String) (env : String → Int) (e : Expr) (v : Int)
    (f : Int → Option Int) : Prop :=
  e.intValue? qualifier env = some v ∧
    ∀ k, (e.rendered qualifier).regrouped.after? env .mul k = f k

private theorem Behaves.intValue?_rendered {env : String → Int} {e : Expr} {v : Int}
    {f : Int → Option Int} (h : Behaves qualifier env e v f) :
    (e.rendered qualifier).regrouped.intValue? env = f 1 := by
  rw [← Phrase.after?_mul_one, h.2]

/-- Two expressions without a common path behave together as each does under an assignment of its
own. -/
private theorem exists_both {l r : Expr} (hl : l.Arithmetic) (hr : r.Arithmetic)
    (hnodup : (l.paths qualifier ++ r.paths qualifier).Nodup) {v w : Int} {f g : Int → Option Int}
    (hbl : ∃ env, Behaves qualifier env l v f) (hbr : ∃ env, Behaves qualifier env r w g) :
    ∃ env, Behaves qualifier env l v f ∧ Behaves qualifier env r w g := by
  obtain ⟨envl, hvl, hfl⟩ := hbl
  obtain ⟨envr, hvr, hfr⟩ := hbr
  let env : String → Int := fun text => if text ∈ l.paths qualifier then envl text else envr text
  have hagreel : ∀ text ∈ l.paths qualifier, env text = envl text := fun text ht => if_pos ht
  have hagreer : ∀ text ∈ r.paths qualifier, env text = envr text := by
    intro text ht
    exact if_neg fun htl => (List.nodup_append.mp hnodup).2.2 text htl text ht rfl
  obtain ⟨htl, hal⟩ := congr_paths hl hagreel
  obtain ⟨htr, har⟩ := congr_paths hr hagreer
  exact ⟨env, ⟨htl.trans hvl, fun k => (hal k).trans (hfl k)⟩,
    ⟨htr.trans hvr, fun k => (har k).trans (hfr k)⟩⟩

/-! ### Every value is taken -/

/-- A right operand that leaves the values `v` and `v'` of a left operand as they are. -/
private def neutral (v v' : Int) : BinaryOperator → Int
  | .mul | .div => 1
  | .mod => v.natAbs + v'.natAbs + 1
  | _ => 0

private theorem tmod_of_natAbs_lt {v m : Int} (h : (v.natAbs : Int) < m) : v.tmod m = v := by
  rcases Int.natAbs_eq v with hv | hv
  · rw [hv]
    exact Int.tmod_eq_of_lt (Int.natCast_nonneg _) h
  · rw [hv, Int.neg_tmod, Int.tmod_eq_of_lt (Int.natCast_nonneg _) h]

private theorem intValue?_neutral {op : BinaryOperator} (hc : op.category = .arithmetic)
    (v v' : Int) :
    op.intValue? v (neutral v v' op) = some v ∧ op.intValue? v' (neutral v v' op) = some v' := by
  cases op with
  | add => simp [neutral, BinaryOperator.intValue?]
  | sub => simp [neutral, BinaryOperator.intValue?]
  | mul => simp [neutral, BinaryOperator.intValue?]
  | div => simp [neutral, BinaryOperator.intValue?]
  | mod =>
    have hpos : (v.natAbs : Int) + v'.natAbs + 1 ≠ 0 := by omega
    have hv : v.tmod (v.natAbs + v'.natAbs + 1) = v := tmod_of_natAbs_lt (by omega)
    have hv' : v'.tmod (v.natAbs + v'.natAbs + 1) = v' := tmod_of_natAbs_lt (by omega)
    constructor
    · rw [neutral, BinaryOperator.intValue?, if_neg hpos, hv]
    · rw [neutral, BinaryOperator.intValue?, if_neg hpos, hv']
  | _ => cases hc

/-- Behind a right operand that multiplies by `b`, an operator has its own value. -/
private theorem intValue?_rendered_of_scales {op : BinaryOperator} (hc : op.category = .arithmetic)
    (note : Annotation) {l r : Expr} {env : String → Int} {b : Int}
    (hr : Scales qualifier env r b) :
    (rendered qualifier (.binary note op l r)).regrouped.intValue? env =
      op.onValues? ((l.rendered qualifier).regrouped.intValue? env) (some b) := by
  by_cases hmul : op = .mul
  · subst hmul
    rw [intValue?_rendered_mul]
    simp only [hr.groupIf]
    rfl
  · rw [intValue?_rendered_binary hc note l r (by simp [hmul]), hr.value]

private theorem scales_binary {op : BinaryOperator} (hc : op.category = .arithmetic)
    (note : Annotation) {l r : Expr} {env : String → Int} {n : Int} (hl : Scales qualifier env l n)
    (hr : Scales qualifier env r (neutral n n op)) :
    Scales qualifier env (.binary note op l r) n := by
  by_cases hmul : op = .mul
  · subst hmul
    intro k
    rw [after?_rendered_mul, hl.groupIf, Option.bind_some, hr.groupIf, neutral, Int.mul_one]
  · by_cases hdiv : op = .div
    · subst hdiv
      intro k
      rw [after?_rendered_div, hl.groupIf, hr.value]
      exact congrArg some (Int.tdiv_one (k * n))
    · refine scales_of_ne (strength_rendered_of_category hc hmul hdiv note l r) ?_
      rw [intValue?_rendered_of_scales hc note hr, hl.value]
      exact (intValue?_neutral hc n n).1

/-- Some assignment gives an expression of distinct paths any value, in the tree and in the text. -/
private theorem exists_scales {e : Expr} (ha : e.Arithmetic) (hlit : e.hasLiteral = false)
    (hnodup : (e.paths qualifier).Nodup) (n : Int) :
    ∃ env, Behaves qualifier env e n fun k => some (k * n) := by
  induction ha generalizing n with
  | integer note type v => cases hlit
  | @path e hp =>
    refine ⟨fun _ => n, by rw [intValue?_of_isPath hp], scales_of_ne ?_ ?_⟩
    · rw [rendered_of_isPath hp]
      exact atom_ne_mul
    · rw [rendered_of_isPath hp]
      rfl
  | @negate note operand _ ih =>
    obtain ⟨env, hv, hs⟩ := ih hlit hnodup (-n)
    refine ⟨env, by simp [intValue?, hv], scales_of_ne (by rw [rendered]; exact atom_ne_mul) ?_⟩
    rw [intValue?_rendered_negate, Scales.value hs]
    simp
  | @binary note op left right hc hl hr ihl ihr =>
    simp only [hasLiteral, Bool.or_eq_false_iff] at hlit
    rw [paths] at hnodup
    obtain ⟨hnl, hnr, _⟩ := List.nodup_append.mp hnodup
    obtain ⟨env, ⟨hvl, hsl⟩, hvr, hsr⟩ :=
      exists_both hl hr hnodup (ihl hlit.1 hnl n) (ihr hlit.2 hnr (neutral n n op))
    refine ⟨env, ?_, scales_binary hc note hsl hsr⟩
    rw [intValue?, hvl, hvr]
    exact (intValue?_neutral hc n n).1

/-! ### The difference shows -/

private theorem needsParen_of_startsWithQuotient {e : Expr} (h : e.startsWithQuotient = true) :
    e.needsParen .mul false = false := by
  unfold startsWithQuotient at h
  split at h
  · rfl
  · rfl
  · cases h

private theorem needsParen_of_isChainOf {e : Expr} (h : e.isChainOf .mul = true) :
    e.needsParen .mul true = false := by
  unfold isChainOf at h
  split at h
  · next op _ _ =>
    obtain rfl : op = .mul := by simpa using h
    rfl
  · cases h

/-- A product that starts with a quotient can have the value one and yet turn `2k` into `3k` where
it goes on a product. -/
private theorem exists_tearing {e : Expr} (ha : e.Arithmetic) (hlit : e.hasLiteral = false)
    (hnodup : (e.paths qualifier).Nodup) (hq : e.startsWithQuotient = true) :
    ∃ env f, Behaves qualifier env e 1 f ∧ ∀ k, f (2 * k) = some (3 * k) := by
  induction ha with
  | integer note type v => cases hlit
  | @path e hp =>
    cases e with
    | binary note op l r => cases hp
    | _ => cases hq
  | negate note _ _ => cases hq
  | @binary note op left right hc hl hr ihl _ =>
    simp only [hasLiteral, Bool.or_eq_false_iff] at hlit
    rw [paths] at hnodup
    obtain ⟨hnl, hnr, _⟩ := List.nodup_append.mp hnodup
    cases op with
    | div =>
      -- Three halves are one, but twice three halves are three.
      obtain ⟨env, ⟨hvl, hsl⟩, hvr, hsr⟩ := exists_both hl hr hnodup
        (exists_scales hl hlit.1 hnl 3) (exists_scales hr hlit.2 hnr 2)
      refine ⟨env, _, ⟨?_, fun _ => rfl⟩, fun k => ?_⟩
      · rw [intValue?, hvl, hvr]
        rfl
      · have hthree : 2 * k * 3 = 2 * (3 * k) := by omega
        rw [after?_rendered_div, Scales.groupIf hsl, Scales.value hsr, hthree]
        exact congrArg some (Int.mul_tdiv_cancel_left (3 * k) (by decide))
    | mul =>
      have hql : left.startsWithQuotient = true := hq
      obtain ⟨envl, f, hbl, hf⟩ := ihl hlit.1 hnl hql
      obtain ⟨env, ⟨hvl, hfl⟩, hvr, hsr⟩ := exists_both hl hr hnodup ⟨envl, hbl⟩
        (exists_scales hr hlit.2 hnr 1)
      refine ⟨env, _, ⟨?_, fun _ => rfl⟩, fun k => ?_⟩
      · rw [intValue?, hvl, hvr]
        rfl
      · rw [after?_rendered_mul, needsParen_of_startsWithQuotient hql]
        show ((left.rendered qualifier).regrouped.after? env .mul (2 * k)).bind _ = _
        rw [hfl, hf, Option.bind_some, Scales.groupIf hsr, Int.mul_one]
    | _ => cases hq

/-- The two values are at least `b` away from zero, and their distances from zero at least `b`
apart. -/
private def Apart (b : Nat) (v v' : Int) : Prop :=
  b ≤ v.natAbs ∧ b ≤ v'.natAbs ∧
    (v.natAbs + b ≤ v'.natAbs ∨ v'.natAbs + b ≤ v.natAbs)

/-- A left operand that keeps two values of the right operand apart. -/
private theorem exists_left_apart {op : BinaryOperator} (hc : op.category = .arithmetic)
    (hmul : op ≠ .mul) {b : Nat} (hb : 0 < b) {v v' : Int} (h : Apart (2 * b) v v') :
    ∃ n u u', op.intValue? n v = some u ∧ op.intValue? n v' = some u' ∧ Apart b u u' := by
  obtain ⟨hv, hv', hgap⟩ := h
  have hvne : v ≠ 0 := by omega
  have hvne' : v' ≠ 0 := by omega
  cases op with
  | add =>
    refine ⟨0, v, v', by simp [BinaryOperator.intValue?], by simp [BinaryOperator.intValue?], ?_⟩
    exact ⟨by omega, by omega, by omega⟩
  | sub =>
    refine ⟨0, -v, -v', by simp [BinaryOperator.intValue?], by simp [BinaryOperator.intValue?], ?_⟩
    exact ⟨by omega, by omega, by omega⟩
  | mul => exact absurd rfl hmul
  | div =>
    refine ⟨v * v', v', v, ?_, ?_, by omega, by omega, by omega⟩
    · rw [BinaryOperator.intValue?, if_neg hvne, Int.mul_tdiv_cancel_left v' hvne]
    · rw [BinaryOperator.intValue?, if_neg hvne', Int.mul_tdiv_cancel v hvne']
  | mod =>
    -- The remainder by the smaller divisor is `b`, the remainder by the other is the operand
    -- itself.
    rcases hgap with hlt | hlt
    · have hu : (((v.natAbs + b : Nat) : Int).tmod v).natAbs = b := by
        rw [Int.natAbs_tmod, Int.natAbs_natCast, Nat.add_mod_left, Nat.mod_eq_of_lt (by omega)]
      have hu' : (((v.natAbs + b : Nat) : Int).tmod v').natAbs = v.natAbs + b := by
        rw [Int.natAbs_tmod, Int.natAbs_natCast, Nat.mod_eq_of_lt (by omega)]
      refine ⟨(v.natAbs + b : Nat), _, _, if_neg hvne, if_neg hvne', ?_⟩
      rw [Apart, hu, hu']
      exact ⟨by omega, by omega, by omega⟩
    · have hu : (((v'.natAbs + b : Nat) : Int).tmod v).natAbs = v'.natAbs + b := by
        rw [Int.natAbs_tmod, Int.natAbs_natCast, Nat.mod_eq_of_lt (by omega)]
      have hu' : (((v'.natAbs + b : Nat) : Int).tmod v').natAbs = b := by
        rw [Int.natAbs_tmod, Int.natAbs_natCast, Nat.add_mod_left, Nat.mod_eq_of_lt (by omega)]
      refine ⟨(v'.natAbs + b : Nat), _, _, if_neg hvne, if_neg hvne', ?_⟩
      rw [Apart, hu, hu']
      exact ⟨by omega, by omega, by omega⟩
  | _ => cases hc

/-- Some assignment gives tree and text values that are as far apart as one likes. -/
private def ComesApart (qualifier : String) (e : Expr) : Prop :=
  ∀ b : Nat, 0 < b → ∃ env v v', e.intValue? qualifier env = some v ∧
    (e.rendered qualifier).regrouped.intValue? env = some v' ∧ Apart b v v'

private theorem comesApart_negate (note : Annotation) {operand : Expr}
    (h : ComesApart qualifier operand) : ComesApart qualifier (.unary note .negate operand) := by
  intro b hb
  obtain ⟨env, v, v', hv, hv', hb, hb', hgap⟩ := h b hb
  refine ⟨env, -v, -v', by simp [intValue?, hv], ?_, by omega, by omega, by omega⟩
  rw [intValue?_rendered_negate, hv']
  rfl

section Binary

variable {op : BinaryOperator} (hc : op.category = .arithmetic)
  (note : Annotation) {left right : Expr}
  (hl : left.Arithmetic) (hr : right.Arithmetic) (hlitl : left.hasLiteral = false)
  (hlitr : right.hasLiteral = false)
    (hnodup : (left.paths qualifier ++ right.paths qualifier).Nodup)

include hl hr hnodup

include hlitl hlitr in
private theorem comesApart_of_tears (hchain : right.isChainOf .mul = true)
    (hq : right.startsWithQuotient = true) :
    ComesApart qualifier (.binary note .mul left right) := by
  intro b hb
  obtain ⟨hnl, hnr, _⟩ := List.nodup_append.mp hnodup
  obtain ⟨envr, f, hbr, hf⟩ := exists_tearing hr hlitr hnr hq
  obtain ⟨env, ⟨hvl, hsl⟩, hvr, hfr⟩ :=
    exists_both hl hr hnodup (exists_scales hl hlitl hnl (2 * b)) ⟨envr, hbr⟩
  refine ⟨env, 2 * b, 3 * b, ?_, ?_, by omega, by omega, by omega⟩
  · rw [intValue?, hvl, hvr]
    exact congrArg some (Int.mul_one _)
  · rw [intValue?_rendered_mul, Scales.value hsl, Option.bind_some, needsParen_of_isChainOf hchain]
    exact (hfr (2 * b)).trans (hf b)

include hc hlitr in
private theorem comesApart_left (h : ComesApart qualifier left) :
    ComesApart qualifier (.binary note op left right) := by
  intro b hb
  obtain ⟨_, hnr, _⟩ := List.nodup_append.mp hnodup
  obtain ⟨envl, v, v', hv, hv', hapart⟩ := h b hb
  obtain ⟨env, hbl, hvr, hsr⟩ := exists_both hl hr hnodup ⟨envl, hv, fun _ => rfl⟩
    (exists_scales hr hlitr hnr (neutral v v' op))
  have hkeep := intValue?_neutral hc v v'
  refine ⟨env, v, v', ?_, ?_, hapart⟩
  · rw [intValue?, hbl.1, hvr]
    exact hkeep.1
  · rw [intValue?_rendered_of_scales hc note hsr, hbl.intValue?_rendered, Phrase.after?_mul_one,
      hv']
    exact hkeep.2

include hlitl in
private theorem comesApart_right_mul (h : ComesApart qualifier right) :
    ComesApart qualifier (.binary note .mul left right) := by
  intro b hb
  obtain ⟨hnl, _, _⟩ := List.nodup_append.mp hnodup
  obtain ⟨envr, v, v', hv, hv', hapart⟩ := h b hb
  obtain ⟨env, ⟨hvl, hsl⟩, hbr⟩ := exists_both hl hr hnodup (exists_scales hl hlitl hnl 1)
    ⟨envr, hv, fun _ => rfl⟩
  refine ⟨env, v, v', ?_, ?_, hapart⟩
  · rw [intValue?, hvl, hbr.1]
    exact congrArg some (Int.one_mul v)
  · rw [intValue?_rendered_mul, Scales.value hsl, Option.bind_some, Phrase.after?_mul_one,
      Phrase.intValue?_groupIf, hbr.intValue?_rendered, Phrase.after?_mul_one, hv']

include hc hlitl in
private theorem comesApart_right (hmul : op ≠ .mul) (h : ComesApart qualifier right) :
    ComesApart qualifier (.binary note op left right) := by
  intro b hb
  obtain ⟨hnl, _, _⟩ := List.nodup_append.mp hnodup
  obtain ⟨envr, v, v', hv, hv', hapart⟩ := h (2 * b) (by omega)
  obtain ⟨n, u, u', hu, hu', hapart'⟩ := exists_left_apart hc hmul hb hapart
  obtain ⟨env, ⟨hvl, hsl⟩, hbr⟩ := exists_both hl hr hnodup (exists_scales hl hlitl hnl n)
    ⟨envr, hv, fun _ => rfl⟩
  refine ⟨env, u, u', ?_, ?_, hapart'⟩
  · rw [intValue?, hvl, hbr.1]
    exact hu
  · rw [intValue?_rendered_binary hc note left right (by simp [hmul]), Scales.value hsl,
      hbr.intValue?_rendered, Phrase.after?_mul_one, hv']
    exact hu'

end Binary

/-- Where a quotient of distinct paths is torn, tree and text come apart. -/
private theorem comesApart_of_tearsQuotient {e : Expr} (ha : e.Arithmetic)
    (hlit : e.hasLiteral = false) (hnodup : (e.paths qualifier).Nodup)
    (ht : e.tearsQuotient = true) : ComesApart qualifier e := by
  induction ha with
  | integer note type v => cases hlit
  | @path e hp =>
    cases e with
    | property note ref => cases ht
    | member note base target => cases ht
    | _ => cases hp
  | negate note _ ih => exact comesApart_negate note (ih hlit hnodup ht)
  | @binary note op left right hc hl hr ihl ihr =>
    simp only [hasLiteral, Bool.or_eq_false_iff] at hlit
    rw [paths] at hnodup
    obtain ⟨hnl, hnr, _⟩ := List.nodup_append.mp hnodup
    simp only [tearsQuotient, Bool.or_eq_true, Bool.and_eq_true, beq_iff_eq] at ht
    rcases ht with (⟨⟨rfl, hchain⟩, hq⟩ | htl) | htr
    · exact comesApart_of_tears note hl hr hlit.1 hlit.2 hnodup hchain hq
    · exact comesApart_left hc note hl hr hlit.2 hnodup (ihl hlit.1 hnl htl)
    · by_cases hmul : op = .mul
      · subst hmul
        exact comesApart_right_mul note hl hr hlit.1 hnodup (ihr hlit.2 hnr htr)
      · exact comesApart_right hc note hl hr hlit.1 hnodup hmul (ihr hlit.2 hnr htr)

end Expr

/-- For every model, alias and arithmetic expression that was read: the text is read to a phrase
that has the tree's value under every assignment for which the tree has one, unless a quotient is
torn. If one is torn and the leaves are distinct paths, some assignment gives the tree another value
than the text. -/
theorem translate_intValue_of_not_tears (model : Model) (entityType : EntityType)
    (input qualifier : String) (e : Expr) (hm : model.hasPlainNames = true)
    (hq : Text.isPlainName qualifier = true) (h : parseExpression model entityType input = .ok e)
    (ha : e.isArithmetic = true) :
    ∃ text p, translate qualifier e = .ok text ∧ Jpql.read atomStrength text = some p ∧
      (e.tearsQuotient = false → ∀ env v, e.intValue? qualifier env = some v →
        p.intValue? env = some v) ∧
      (e.tearsQuotient = true → e.hasDistinctPaths qualifier = true →
        ∃ env v, e.intValue? qualifier env = some v ∧ p.intValue? env ≠ some v) := by
  have harith := Expr.arithmetic_of_isArithmetic ha
  have hr := isRenderable_of_parseExpression hm h harith.hasCall
  obtain ⟨text, ht, hread⟩ := read_translate hq hr (Expr.isStructural_of_isArithmetic hr ha)
  refine ⟨text, _, ht, hread, ?_, ?_⟩
  · intro htears env v hv
    exact (Expr.keeps_of_not_tears harith htears hv).1
  · intro htears hdistinct
    simp only [Expr.hasDistinctPaths, Bool.and_eq_true, Bool.not_eq_true', decide_eq_true_eq]
      at hdistinct
    obtain ⟨env, v, v', hv, hv', _, _, hgap⟩ :=
      Expr.comesApart_of_tearsQuotient harith hdistinct.1 hdistinct.2 htears 1 Nat.one_pos
    refine ⟨env, v, hv, ?_⟩
    rw [hv', ne_eq, Option.some.injEq]
    rintro rfl
    omega

/-- A product whose chain goes on with no quotient at its start, and one that tears a quotient. -/
theorem translate_intValue_sample :
    (∃ e text p, parseExpression sampleModel sampleType
        "-(home sub away) div round mul (id mul -3 div 2) mod 7" = .ok e ∧
      translate "E1" e = .ok text ∧ Jpql.read atomStrength text = some p ∧
      ∀ env v, e.intValue? "E1" env = some v → p.intValue? env = some v) ∧
    ∃ e text p, parseExpression sampleModel sampleType "home mul (away div id mul round)" = .ok e ∧
      translate "E1" e = .ok text ∧ Jpql.read atomStrength text = some p ∧
      ∃ env v, e.intValue? "E1" env = some v ∧ p.intValue? env ≠ some v := by
  constructor
  · obtain ⟨e, he, htest⟩ := @exists_ok_of_any _ _ (parseExpression sampleModel sampleType
      "-(home sub away) div round mul (id mul -3 div 2) mod 7")
      (fun e => e.isArithmetic && !e.tearsQuotient) (by decide +kernel)
    simp only [Bool.and_eq_true, Bool.not_eq_true'] at htest
    obtain ⟨text, p, ht, hread, hkeeps, _⟩ := translate_intValue_of_not_tears sampleModel sampleType
      _ "E1" e (by decide +kernel) (by decide +kernel) he htest.1
    exact ⟨e, text, p, he, ht, hread, hkeeps htest.2⟩
  · obtain ⟨e, he, htest⟩ := @exists_ok_of_any _ _
      (parseExpression sampleModel sampleType "home mul (away div id mul round)")
      (fun e => e.isArithmetic && e.tearsQuotient && e.hasDistinctPaths "E1") (by decide +kernel)
    simp only [Bool.and_eq_true] at htest
    obtain ⟨text, p, ht, hread, _, htorn⟩ := translate_intValue_of_not_tears sampleModel sampleType
      _ "E1" e (by decide +kernel) (by decide +kernel) he htest.1.1
    exact ⟨e, text, p, he, ht, hread, htorn htest.1.2 htest.2⟩

/-- Twice the half of one, which truncates to nothing, is read as the half of twice one. -/
theorem translate_changes_intValue : ∃ e text p,
    parseExpression sampleModel sampleType "2 mul (1 div 2 mul 1)" = .ok e ∧
    e.isArithmetic = true ∧ translate "E1" e = .ok text ∧ text = "2 * 1 / 2 * 1" ∧
    Jpql.read atomStrength text = some p ∧
    e.intValue? "E1" (fun _ => 0) = some 0 ∧ p.intValue? (fun _ => 0) = some 1 := by
  obtain ⟨e, he, htest⟩ := @exists_ok_of_any _ _
    (parseExpression sampleModel sampleType "2 mul (1 div 2 mul 1)")
    (fun e => e.isArithmetic && e.intValue? "E1" (fun _ => 0) == some 0 &&
      (translate "E1" e).toOption == some "2 * 1 / 2 * 1") (by decide +kernel)
  simp only [Bool.and_eq_true, beq_iff_eq] at htest
  obtain ⟨text, ht, htext⟩ := @exists_ok_of_any _ _ (translate "E1" e) (· == "2 * 1 / 2 * 1")
    (by rw [htest.2]; rfl)
  obtain rfl : text = "2 * 1 / 2 * 1" := by simpa using htext
  have hread : (Jpql.read atomStrength "2 * 1 / 2 * 1").bind (Phrase.intValue? fun _ => 0) =
      some 1 := by
    decide +kernel
  obtain ⟨p, hp, hvalue⟩ := Option.bind_eq_some_iff.mp hread
  exact ⟨e, _, p, he, htest.1.1, ht, rfl, hp, htest.1.2, hvalue⟩

end EntityQuery
