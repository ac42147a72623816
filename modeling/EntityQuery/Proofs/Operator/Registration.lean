import EntityQuery.Operator.Table
import EntityQuery.Proofs.Operator.Indexing

/-!
# Runs of registrations

A builder takes registrations in any order, goes on after those it refuses, and keeps its entries in
order all the while: a refused call changes nothing, an operator has one entry, and a signature that
is stored suits its operator. What the entries are after a run is told by the accepted calls alone.
-/

namespace EntityQuery

/-! ### Signatures that suit an operator -/

/-- A signature with a parameter and without system types, that takes as many operands as its
operator. -/
structure Signature.Suits (s : Signature) (op : Operator) : Prop where
  parameters_ne : s.parameters ≠ []
  parameters : ∀ t ∈ s.parameters, t.isSystem = false
  result : s.result.isSystem = false
  binary : ∀ o, op = .binary o → s.parameters.length = 2 ∧ s.variadic = false
  unary : ∀ o, op = .unary o → s.parameters.length = 1 ∧ s.variadic = false

namespace Signatures

theorem append_nil (signatures : Signatures) : signatures.append [] = signatures := by
  cases signatures with
  | declared list => exact congrArg declared (List.append_nil list)
  | lastParameter => rfl

theorem append_append (signatures : Signatures) (first second : List Signature) :
    (signatures.append first).append second = signatures.append (first ++ second) := by
  cases signatures with
  | declared list => exact congrArg declared (List.append_assoc list first second)
  | lastParameter => rfl

end Signatures

namespace TableBuilder

private theorem filter_arity?_eq_none_iff {op : Operator} {s : Signature} :
    ((arity? op).filter fun n => s.parameters.length != n || s.variadic) = none ↔
      (∀ o, op = .binary o → s.parameters.length = 2 ∧ s.variadic = false) ∧
        ∀ o, op = .unary o → s.parameters.length = 1 ∧ s.variadic = false := by
  cases op <;> simp [arity?, Option.filter]

/-- The checks let pass the signatures that suit the operator. -/
theorem checkSignature_eq_ok_iff {op : Operator} {s : Signature} :
    checkSignature op s = .ok () ↔ s.Suits op := by
  unfold checkSignature
  simp only
  constructor
  · intro h
    split at h
    · cases h
    · next harity =>
      obtain ⟨hbinary, hunary⟩ := filter_arity?_eq_none_iff.mp harity
      split at h
      · cases h
      · next hempty =>
        split at h
        · cases h
        · next hfind =>
          have hpublic (t : SimpleType) (ht : t ∈ s.parameters ++ [s.result]) :
              t.isSystem = false :=
            Bool.eq_false_iff.mpr (List.find?_eq_none.mp hfind t ht)
          refine ⟨?_, ?_, ?_, hbinary, hunary⟩
          · simpa using hempty
          · exact fun t ht => hpublic t (List.mem_append_left _ ht)
          · exact hpublic s.result (List.mem_append_right _ (List.mem_singleton_self _))
  · intro h
    have harity := filter_arity?_eq_none_iff.mpr ⟨h.binary, h.unary⟩
    have hfind : (s.parameters ++ [s.result]).find? SimpleType.isSystem = none := by
      rw [List.find?_eq_none]
      intro t ht
      rw [Bool.not_eq_true]
      rcases List.mem_append.mp ht with ht | ht
      · exact h.parameters t ht
      · rw [List.mem_singleton.mp ht]
        exact h.result
    rw [harity, hfind]
    simp [h.parameters_ne]

/-! ### Calls -/

/-- The calls that change a builder. -/
inductive Call where
  | operator (op : Operator) (surface : String) (category : OperatorCategory) (precedence : Nat)
  | lastParameter (op : Operator) (surface : String) (category : OperatorCategory)
      (precedence : Nat)
  | signature (op : Operator) (parameters : List SimpleType) (result : SimpleType)
  | variadicSignature (op : Operator) (parameters : List SimpleType) (result : SimpleType)
  deriving DecidableEq, Repr

namespace Call

/-- The change that a call makes. -/
def change : Call → Change
  | .operator op surface category precedence => addOperator op surface category precedence
  | .lastParameter op surface category precedence => addLastParameter op surface category precedence
  | .signature op parameters result => addSignature op ⟨parameters, result, false⟩
  | .variadicSignature op parameters result => addSignature op ⟨parameters, result, true⟩

/-- The entry of an operator that is registered by a call. -/
def entry? : Call → Option Descriptor
  | .operator op surface category precedence =>
    some ⟨op, op.keyword, surface, category, precedence, .declared []⟩
  | .lastParameter op surface category precedence =>
    some ⟨op, op.keyword, surface, category, precedence, .lastParameter⟩
  | _ => none

/-- The signature that a call gives to an operator. -/
def signatureFor? (op : Operator) : Call → Option Signature
  | .signature op' parameters result => if op' = op then some ⟨parameters, result, false⟩ else none
  | .variadicSignature op' parameters result =>
    if op' = op then some ⟨parameters, result, true⟩ else none
  | _ => none

end Call

/-- The builder that a call leaves, whether it is refused or not. -/
def after (b : TableBuilder) (c : Call) : TableBuilder :=
  match c.change.run b with
  | .ok _ b' => b'
  | .error _ b' => b'

/-- Whether a call is accepted. -/
def isAccepted (b : TableBuilder) (c : Call) : Bool :=
  match c.change.run b with
  | .ok _ _ => true
  | .error _ _ => false

/-- The builder after a run of calls. -/
def afterAll (b : TableBuilder) (calls : List Call) : TableBuilder := calls.foldl after b

/-- The calls of a run that are accepted. -/
def accepted (b : TableBuilder) : List Call → List Call
  | [] => []
  | c :: rest =>
    if b.isAccepted c then c :: (b.after c).accepted rest else (b.after c).accepted rest

/-! ### What a call does -/

/-- What an accepted call makes of a builder: it registers an operator that has no entry, or it
gives an operator that declares its signatures another one that suits it. -/
inductive Accepts (b : TableBuilder) (c : Call) : TableBuilder → Prop
  | register {d : Descriptor} (hentry : c.entry? = some d)
      (hother : ∀ op, c.signatureFor? op = none) (hnew : b.find? d.operator = none) :
      Accepts b c (b.push d)
  | extend {op : Operator} {s : Signature} {d : Descriptor} {list : List Signature}
      (hother : c.entry? = none)
      (hsignature : ∀ op', c.signatureFor? op' = if op = op' then some s else none)
      (hsuits : s.Suits op)
      (hfind : b.find? op = some d) (hdeclared : d.signatures = .declared list) :
      Accepts b c (b.extend op s)

/-- A change that begins by looking at the builder looks at the one that it is run on. -/
private theorem run_get_bind (b : TableBuilder) (f : TableBuilder → Change) :
    EStateM.run (get >>= f) b = (f b).run b := rfl

private theorem run_register (b : TableBuilder) (op : Operator) (surface : String)
    (category : OperatorCategory) (precedence : Nat) (signatures : Signatures) :
    (∃ e, (register op surface category precedence signatures).run b = .error e b) ∨
    (b.find? op = none ∧ (register op surface category precedence signatures).run b =
      .ok () (b.push ⟨op, op.keyword, surface, category, precedence, signatures⟩)) := by
  rw [register, run_get_bind]
  cases b.find? op with
  | none => exact .inr ⟨rfl, rfl⟩
  | some d => exact .inl ⟨_, rfl⟩

private theorem run_addSignature (b : TableBuilder) (op : Operator) (s : Signature) :
    (∃ e, (addSignature op s).run b = .error e b) ∨
    ∃ d list, s.Suits op ∧ b.find? op = some d ∧ d.signatures = .declared list ∧
      (addSignature op s).run b = .ok () (b.extend op s) := by
  rw [addSignature, run_get_bind]
  cases b.find? op with
  | none => exact .inl ⟨_, rfl⟩
  | some d =>
    cases hcheck : checkSignature op s with
    | error e => exact .inl ⟨_, rfl⟩
    | ok u =>
      cases hsignatures : d.signatures with
      | lastParameter =>
        refine .inl ⟨.lastParameterSignature op, ?_⟩
        simp only [hsignatures]
        rfl
      | declared list =>
        refine .inr ⟨d, list, checkSignature_eq_ok_iff.mp hcheck, rfl, hsignatures, ?_⟩
        simp only [hsignatures]
        rfl

/-- A call is refused and leaves the builder as it is, or it is accepted. -/
theorem run_cases (b : TableBuilder) (c : Call) :
    (∃ e, c.change.run b = .error e b) ∨ ∃ b', c.change.run b = .ok () b' ∧ b.Accepts c b' := by
  cases c with
  | operator op surface category precedence =>
    rcases run_register b op surface category precedence (.declared []) with h | ⟨hnew, h⟩
    · exact .inl h
    · exact .inr ⟨_, h, .register rfl (fun _ => rfl) hnew⟩
  | lastParameter op surface category precedence =>
    rcases run_register b op surface category precedence .lastParameter with h | ⟨hnew, h⟩
    · exact .inl h
    · exact .inr ⟨_, h, .register rfl (fun _ => rfl) hnew⟩
  | signature op parameters result =>
    rcases run_addSignature b op ⟨parameters, result, false⟩ with h |
      ⟨d, list, hsuits, hfind, hdeclared, h⟩
    · exact .inl h
    · exact .inr ⟨_, h, .extend rfl (fun _ => rfl) hsuits hfind hdeclared⟩
  | variadicSignature op parameters result =>
    rcases run_addSignature b op ⟨parameters, result, true⟩ with h |
      ⟨d, list, hsuits, hfind, hdeclared, h⟩
    · exact .inl h
    · exact .inr ⟨_, h, .extend rfl (fun _ => rfl) hsuits hfind hdeclared⟩

/-- A refused call leaves the builder as it is. -/
theorem eq_of_run_eq_error {b b' : TableBuilder} {c : Call} {e : TableError}
    (h : c.change.run b = .error e b') : b' = b := by
  rcases run_cases b c with ⟨_, hrun⟩ | ⟨_, hrun, _⟩
  · rw [h] at hrun
    cases hrun
    rfl
  · rw [h] at hrun
    cases hrun

theorem after_cases (b : TableBuilder) (c : Call) :
    (b.isAccepted c = false ∧ b.after c = b) ∨
      (b.isAccepted c = true ∧ b.Accepts c (b.after c)) := by
  unfold isAccepted after
  rcases run_cases b c with ⟨e, hrun⟩ | ⟨b', hrun, haccepts⟩
  · rw [hrun]
    exact .inl ⟨rfl, rfl⟩
  · rw [hrun]
    exact .inr ⟨rfl, haccepts⟩

/-! ### The invariant -/

/-- An operator has one entry, which has its keyword and only signatures that suit it. -/
structure Invariant (b : TableBuilder) : Prop where
  distinct : b.entries.Pairwise fun d e => d.operator ≠ e.operator
  keyword : ∀ d ∈ b.entries, d.keyword = d.operator.keyword
  suits : ∀ d ∈ b.entries, ∀ list, d.signatures = .declared list → ∀ s ∈ list, s.Suits d.operator

theorem find?_eq_none_iff {b : TableBuilder} {op : Operator} :
    b.find? op = none ↔ ∀ d ∈ b.entries, d.operator ≠ op := by
  unfold find?
  rw [List.find?_eq_none]
  simp

theorem Call.keyword_of_entry? {c : Call} {d : Descriptor} (h : c.entry? = some d) :
    d.keyword = d.operator.keyword := by
  cases c <;> cases h <;> rfl

theorem Call.signatures_of_entry? {c : Call} {d : Descriptor} (h : c.entry? = some d)
    {list : List Signature} (hlist : d.signatures = .declared list) : list = [] := by
  cases c with
  | operator =>
    cases h
    cases hlist
    rfl
  | lastParameter =>
    cases h
    cases hlist
  | signature => cases h
  | variadicSignature => cases h

/-- The operator of an entry stays when a signature is added. -/
private theorem operator_extended (op : Operator) (s : Signature) (d : Descriptor) :
    (if d.operator = op then { d with signatures := d.signatures.append [s] } else d).operator =
      d.operator := by
  split <;> rfl

namespace Invariant

variable {b : TableBuilder}

theorem empty : Invariant empty :=
  ⟨.nil, fun _ hd => absurd hd List.not_mem_nil, fun _ hd => absurd hd List.not_mem_nil⟩

private theorem push (h : Invariant b) {c : Call} {d : Descriptor} (hentry : c.entry? = some d)
    (hnew : b.find? d.operator = none) : Invariant (b.push d) := by
  have hne := find?_eq_none_iff.mp hnew
  refine ⟨?_, ?_, ?_⟩
  · apply List.pairwise_append.mpr
    refine ⟨h.distinct, List.pairwise_singleton _ _, ?_⟩
    intro e he d' hd'
    rw [List.mem_singleton.mp hd']
    exact hne e he
  · intro e he
    rcases List.mem_append.mp he with he | he
    · exact h.keyword e he
    · rw [List.mem_singleton.mp he]
      exact c.keyword_of_entry? hentry
  · intro e he list hlist
    rcases List.mem_append.mp he with he | he
    · exact h.suits e he list hlist
    · rw [List.mem_singleton.mp he] at hlist
      rw [c.signatures_of_entry? hentry hlist]
      exact fun _ hs => absurd hs List.not_mem_nil

private theorem extend (h : Invariant b) {op : Operator} {s : Signature} (hsuits : s.Suits op) :
    Invariant (b.extend op s) := by
  refine ⟨?_, ?_, ?_⟩
  · apply List.pairwise_map.mpr
    simp only [operator_extended]
    exact h.distinct
  · intro e he
    obtain ⟨d, hd, rfl⟩ := List.mem_map.mp he
    rw [operator_extended]
    split
    · exact h.keyword d hd
    · exact h.keyword d hd
  · intro e he list hlist
    obtain ⟨d, hd, rfl⟩ := List.mem_map.mp he
    rw [operator_extended]
    split at hlist
    · next hop =>
      cases hsignatures : d.signatures with
      | lastParameter =>
        rw [hsignatures] at hlist
        cases hlist
      | declared old =>
        rw [hsignatures] at hlist
        cases hlist
        intro t ht
        rcases List.mem_append.mp ht with ht | ht
        · exact h.suits d hd old hsignatures t ht
        · rw [List.mem_singleton.mp ht, hop]
          exact hsuits
    · exact h.suits d hd list hlist

/-- An accepted call keeps the invariant. -/
theorem accepts (h : Invariant b) {c : Call} {b' : TableBuilder} (hb' : b.Accepts c b') :
    Invariant b' := by
  cases hb' with
  | register hentry _ hnew => exact h.push hentry hnew
  | extend _ _ hsuits _ _ => exact h.extend hsuits

/-- The invariant holds after every call, accepted or not. -/
theorem after (h : Invariant b) (c : Call) : Invariant (b.after c) := by
  rcases after_cases b c with ⟨_, hafter⟩ | ⟨_, haccepts⟩
  · rw [hafter]
    exact h
  · exact h.accepts haccepts

/-- The invariant holds after every run. -/
theorem afterAll (h : Invariant b) (calls : List Call) : Invariant (b.afterAll calls) := by
  induction calls generalizing b with
  | nil => exact h
  | cons c rest ih => exact ih (h.after c)

/-- An entry is the one that is found under its operator. -/
theorem find?_eq (h : Invariant b) {d : Descriptor} (hd : d ∈ b.entries) :
    b.find? d.operator = some d := by
  obtain ⟨before, after, hentries⟩ := List.append_of_mem hd
  have hdistinct := h.distinct
  rw [hentries, List.pairwise_append] at hdistinct
  unfold find?
  rw [List.find?_eq_some_iff_append]
  refine ⟨beq_self_eq_true _, before, after, hentries, ?_⟩
  intro e he
  simpa using hdistinct.2.2 e he d List.mem_cons_self

end Invariant

/-! ### The entries after a run -/

/-- The entries that accepted calls make: one for each operator that they register, with the
signatures that they give to it, in their order. -/
def described (calls : List Call) : List Descriptor :=
  (calls.filterMap Call.entry?).map fun d =>
    { d with signatures := d.signatures.append (calls.filterMap (Call.signatureFor? d.operator)) }

/-- The entries are those of the accepted calls, none of which gives a signature to an operator
without an entry, or to one that has the type of its last operand. -/
structure Records (b : TableBuilder) (calls : List Call) : Prop where
  entries : b.entries = described calls
  unknown : ∀ op, b.find? op = none → calls.filterMap (Call.signatureFor? op) = []
  lastParameter : ∀ d ∈ b.entries, d.signatures = .lastParameter →
    calls.filterMap (Call.signatureFor? d.operator) = []

private theorem filterMap_concat_of_none {β : Type} {f : Call → Option β} {c : Call}
    (h : f c = none) (calls : List Call) : (calls ++ [c]).filterMap f = calls.filterMap f := by
  rw [List.filterMap_append, List.filterMap_cons_none h, List.filterMap_nil, List.append_nil]

private theorem filterMap_concat_of_some {β : Type} {f : Call → Option β} {c : Call} {x : β}
    (h : f c = some x) (calls : List Call) :
    (calls ++ [c]).filterMap f = calls.filterMap f ++ [x] := by
  rw [List.filterMap_append, List.filterMap_cons_some h, List.filterMap_nil]

namespace Records

variable {b : TableBuilder} {calls : List Call}

theorem empty : Records empty [] :=
  ⟨rfl, fun _ _ => rfl, fun _ hd => absurd hd List.not_mem_nil⟩

private theorem push (h : Records b calls) {c : Call} {d : Descriptor} (hentry : c.entry? = some d)
    (hother : ∀ op, c.signatureFor? op = none) (hnew : b.find? d.operator = none) :
    Records (b.push d) (calls ++ [c]) := by
  have hsignatures (op : Operator) :
      (calls ++ [c]).filterMap (Call.signatureFor? op) = calls.filterMap (Call.signatureFor? op) :=
    filterMap_concat_of_none (hother op) calls
  refine ⟨?_, ?_, ?_⟩
  · unfold described
    simp only [hsignatures]
    rw [filterMap_concat_of_some hentry, List.map_append, List.map_singleton,
      h.unknown d.operator hnew, Signatures.append_nil]
    exact congrArg (· ++ [d]) h.entries
  · intro op hop
    rw [hsignatures]
    apply h.unknown
    rw [find?_eq_none_iff] at hop ⊢
    exact fun e he => hop e (List.mem_append_left _ he)
  · intro e he hlast
    rw [hsignatures]
    rcases List.mem_append.mp he with he | he
    · exact h.lastParameter e he hlast
    · rw [List.mem_singleton.mp he]
      exact h.unknown d.operator hnew

private theorem extend (h : Records b calls) (hb : Invariant b) {c : Call} {op : Operator}
    {s : Signature} {d : Descriptor} {list : List Signature} (hother : c.entry? = none)
    (hsignature : ∀ op', c.signatureFor? op' = if op = op' then some s else none)
    (hfind : b.find? op = some d) (hdeclared : d.signatures = .declared list) :
    Records (b.extend op s) (calls ++ [c]) := by
  have hsame : (calls ++ [c]).filterMap (Call.signatureFor? op) =
      calls.filterMap (Call.signatureFor? op) ++ [s] :=
    filterMap_concat_of_some (by rw [hsignature, if_pos rfl]) calls
  have hapart {op' : Operator} (hne : op' ≠ op) :
      (calls ++ [c]).filterMap (Call.signatureFor? op') =
        calls.filterMap (Call.signatureFor? op') :=
    filterMap_concat_of_none (by rw [hsignature, if_neg (Ne.symm hne)]) calls
  refine ⟨?_, ?_, ?_⟩
  · show b.entries.map _ = _
    rw [h.entries]
    unfold described
    rw [filterMap_concat_of_none hother, List.map_map]
    apply List.map_congr_left
    intro e _
    by_cases hop : e.operator = op
    · rw [Function.comp_apply, if_pos hop, hop, hsame, Signatures.append_append]
    · rw [Function.comp_apply, if_neg hop, hapart hop]
  · intro op' hop'
    have hnone : b.find? op' = none := by
      rw [find?_eq_none_iff] at hop' ⊢
      intro e he
      have := hop' _ (List.mem_map_of_mem he)
      rwa [operator_extended] at this
    have hne : op' ≠ op := by
      rintro rfl
      rw [hnone] at hfind
      cases hfind
    rw [hapart hne]
    exact h.unknown op' hnone
  · intro e' he' hlast
    obtain ⟨e, he, rfl⟩ := List.mem_map.mp he'
    rw [operator_extended]
    by_cases hop : e.operator = op
    · -- the operator declares its signatures, so its entry is no such entry
      have hed : e = d := by
        have := hb.find?_eq he
        rw [hop, hfind] at this
        exact (Option.some.inj this).symm
      rw [if_pos hop, hed, hdeclared] at hlast
      cases hlast
    · rw [if_neg hop] at hlast
      rw [hapart hop]
      exact h.lastParameter e he hlast

/-- An accepted call is recorded behind those before it. -/
theorem accepts (h : Records b calls) (hb : Invariant b) {c : Call} {b' : TableBuilder}
    (hb' : b.Accepts c b') : Records b' (calls ++ [c]) := by
  cases hb' with
  | register hentry hother hnew => exact h.push hentry hother hnew
  | extend hother hsignature _ hfind hdeclared =>
    exact h.extend hb hother hsignature hfind hdeclared

/-- The entries after a run are those of the calls that it accepted. -/
theorem afterAll (h : Records b calls) (hb : Invariant b) (more : List Call) :
    Records (b.afterAll more) (calls ++ b.accepted more) := by
  induction more generalizing b calls with
  | nil =>
    rw [accepted, List.append_nil]
    exact h
  | cons c rest ih =>
    show Records ((b.after c).afterAll rest) _
    rw [accepted]
    rcases after_cases b c with ⟨hrefused, hafter⟩ | ⟨haccepted, haccepts⟩
    · rw [hrefused, if_neg Bool.false_ne_true, hafter]
      exact ih h hb
    · rw [haccepted, if_pos rfl, List.append_cons]
      exact ih (h.accepts hb haccepts) (hb.after c)

end Records

/-! ### Tables -/

/-- A table is built exactly if no entry declares its signatures and has none, and has all
entries. -/
theorem build_eq_ok_iff {b : TableBuilder} {table : OperatorTable} :
    b.build = .ok table ↔ (∀ d ∈ b.entries, d.signatures ≠ .declared []) ∧ table = ⟨b.entries⟩ := by
  unfold build
  split
  · next d hfind =>
    have hempty : d.signatures = .declared [] := by simpa using List.find?_some hfind
    constructor
    · exact fun h => by cases h
    · exact fun h => absurd hempty (h.1 d (List.mem_of_find?_eq_some hfind))
  · next hfind =>
    rw [List.find?_eq_none] at hfind
    constructor
    · intro h
      cases h
      exact ⟨fun d hd => by simpa using hfind d hd, rfl⟩
    · intro h
      rw [h.2]

/-- A new builder after calls. -/
def registered (calls : List Call) : TableBuilder := empty.afterAll calls

/-- After any calls on a new builder, in any order and refused ones among them: a call that is
refused leaves the entries as they are; an entry is found under its operator and has its keyword,
and only signatures that suit it; the entries are those of the accepted calls; a table is built
exactly if every operator that declares its signatures has one; and on that table the types of any
operands are resolved without an index that fails. -/
theorem registrations_keep_invariant (calls : List Call) :
    (∀ (c : Call) (e : TableError) (b : TableBuilder),
      c.change.run (registered calls) = .error e b → b.entries = (registered calls).entries) ∧
    Invariant (registered calls) ∧
    (∀ d ∈ (registered calls).entries, (registered calls).find? d.operator = some d) ∧
    Records (registered calls) (empty.accepted calls) ∧
    ((∃ table, (registered calls).build = .ok table) ↔
      ∀ d ∈ (registered calls).entries, d.signatures ≠ .declared []) ∧
    ∀ table, (registered calls).build = .ok table → table.entries = (registered calls).entries ∧
      ∀ d ∈ table.entries, ∀ operands, ∃ type?, d.resolve operands = .ok type? := by
  have hinvariant : Invariant (registered calls) := Invariant.empty.afterAll calls
  refine ⟨?_, hinvariant,
    fun d => hinvariant.find?_eq, Records.empty.afterAll Invariant.empty calls, ?_, ?_⟩
  · intro c e b h
    rw [eq_of_run_eq_error h]
  · constructor
    · rintro ⟨table, h⟩
      exact (build_eq_ok_iff.mp h).1
    · exact fun h => ⟨_, build_eq_ok_iff.mpr ⟨h, rfl⟩⟩
  · intro table htable
    rw [(build_eq_ok_iff.mp htable).2]
    refine ⟨rfl, fun d hd operands => Descriptor.exists_resolve ?_ operands⟩
    exact fun list hlist s hs _ => (hinvariant.suits d hd list hlist s hs).parameters_ne

/-- Calls of which all but three are refused: for an operator that is not registered yet, for one
that is already, with one operand too few, with a system type, with any number of operands, and for
the access to a member. -/
def mixedCalls : List Call :=
  [.signature (.binary .eq) [.int32, .int32] .boolean, .operator (.binary .eq) "=" .comparison 3,
    .operator (.binary .eq) "==" .comparison 4, .signature (.binary .eq) [.int32] .boolean,
    .signature (.binary .eq) [.bit, .bit] .boolean,
    .variadicSignature (.binary .eq) [.int32, .int32] .boolean,
    .signature (.binary .eq) [.int32, .int32] .boolean, .lastParameter .member "." .member 8,
    .signature .member [.string] .string]

/-- The entries that these calls leave. -/
def mixedEntries : List Descriptor :=
  [⟨.binary .eq, "eq", "=", .comparison, 3, .declared [.fixed [.int32, .int32] .boolean]⟩,
    ⟨.member, "/", ".", .member, 8, .lastParameter⟩]

theorem registrations_keep_invariant_mixedCalls :
    (registered mixedCalls).build = .ok ⟨mixedEntries⟩ ∧
    Call.change (.signature .member [.string] .string) (registered mixedCalls) =
      .error (.lastParameterSignature .member) (registered mixedCalls) ∧
    Invariant (registered mixedCalls) ∧ Records (registered mixedCalls)
    (empty.accepted mixedCalls) ∧
    (empty.accepted mixedCalls).length = 3 ∧
    ∀ d ∈ mixedEntries, ∀ operands, ∃ type?, d.resolve operands = .ok type? := by
  obtain ⟨_, hinvariant, _, hrecords, _, hresolve⟩ := registrations_keep_invariant mixedCalls
  have hbuild : (registered mixedCalls).build = .ok ⟨mixedEntries⟩ := rfl
  exact ⟨hbuild, rfl, hinvariant, hrecords, rfl, (hresolve _ hbuild).2⟩

end TableBuilder

end EntityQuery
