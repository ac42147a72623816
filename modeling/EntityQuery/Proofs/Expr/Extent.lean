import EntityQuery.Proofs.Expr.Forms

/-!
# The tokens of a tree

A tree is read from tokens of its own. It starts where the first of them does, and it is read from
them again wherever they are moved to and whatever follows, as long as that does not go on with the
last name of the tree. The readers look at one token behind a tree and no further.
-/

namespace EntityQuery

/-- A check does not depend on the position that an error would name. -/
theorem Operator.check_elsewhere {op : Operator} {position : Nat} {operands : List ValueType}
    {type : ValueType} (h : op.check position operands = .ok type) (position' : Nat) :
    op.check position' operands = .ok type :=
  check_eq_ok_iff.mpr (check_eq_ok_iff.mp h)

/-! ### Moving tokens and trees -/

/-- The token with its position changed. -/
def Token.relocate (f : Nat → Nat) (t : Token) : Token := { t with position := f t.position }

namespace Expr

mutual

/-- The tree with all positions changed. -/
def relocate (f : Nat → Nat) : Expr → Expr
  | .literal a value => .literal ⟨a.type, f a.position⟩ value
  | .property a ref => .property ⟨a.type, f a.position⟩ ref
  | .member a path target => .member ⟨a.type, f a.position⟩ (path.relocate f) (target.relocate f)
  | .unary a op operand => .unary ⟨a.type, f a.position⟩ op (operand.relocate f)
  | .binary a op left right =>
    .binary ⟨a.type, f a.position⟩ op (left.relocate f) (right.relocate f)
  | .call a method arguments => .call ⟨a.type, f a.position⟩ method (relocateAll f arguments)

/-- The trees with all positions changed. -/
def relocateAll (f : Nat → Nat) : List Expr → List Expr
  | [] => []
  | e :: rest => e.relocate f :: relocateAll f rest

end

@[simp]
theorem type_relocate (f : Nat → Nat) (e : Expr) : (e.relocate f).type = e.type := by
  cases e <;> rfl

@[simp]
theorem position_relocate (f : Nat → Nat) (e : Expr) : (e.relocate f).position = f e.position := by
  cases e <;> rfl

theorem relocate_moveTo (f : Nat → Nat) (e : Expr) (position : Nat) :
    (e.moveTo position).relocate f = (e.relocate f).moveTo (f position) := by
  cases e <;> rfl

@[simp]
theorem map_type_relocateAll (f : Nat → Nat) (es : List Expr) :
    (relocateAll f es).map Expr.type = es.map Expr.type := by
  induction es with
  | nil => rfl
  | cons e rest ih => simp [relocateAll, ih]

mutual

theorem relocate_id : (e : Expr) → e.relocate id = e
  | .literal _ _ => rfl
  | .property _ _ => rfl
  | .member _ path target => by rw [relocate, relocate_id path, relocate_id target]; rfl
  | .unary _ _ operand => by rw [relocate, relocate_id operand]; rfl
  | .binary _ _ left right => by rw [relocate, relocate_id left, relocate_id right]; rfl
  | .call _ _ arguments => by rw [relocate, relocateAll_id arguments]; rfl

theorem relocateAll_id : (es : List Expr) → relocateAll id es = es
  | [] => rfl
  | e :: rest => by rw [relocateAll, relocate_id e, relocateAll_id rest]

end

end Expr

namespace Scope

/-- The scope of an input of another size. -/
def resized (s : Scope) (size : Nat) : Scope := { s with inputSize := size }

variable {s : Scope}

/-! ### What may follow -/

section

variable {least : Nat} {tokens rest next : List Token}

/-- What follows goes on a path, or makes a name the name of a call, only if `rest` does so. -/
def Fits (next rest : List Token) : Prop :=
  ∀ t ∈ next.head?, t.kind = .openParen ∨ t.isPathSeparator = true →
    ∃ u ∈ rest.head?, u.kind = t.kind

theorem fits_nil (rest : List Token) : Fits [] rest :=
  fun _ ht => by cases ht

theorem fits_of_head (h : next.head? = rest.head?) : Fits next rest :=
  fun t ht _ => ⟨t, h ▸ ht, rfl⟩

theorem fits_cons (f : Nat → Nat) (t : Token) (next rest : List Token) :
    Fits (t.relocate f :: next) (t :: rest) := by
  intro u hu _
  cases hu
  exact ⟨t, rfl, rfl⟩

/-- The same tokens stand before both. -/
theorem Fits.append (h : Fits next rest) (f : Nat → Nat) (taken : List Token) :
    Fits (taken.map (Token.relocate f) ++ next) (taken ++ rest) := by
  cases taken with
  | nil => exact h
  | cons u taken => exact fits_cons f u _ _

theorem Fits.not_openParen (h : Fits next rest) (hrest : ∀ u ∈ rest.head?, u.kind ≠ .openParen) :
    ∀ u ∈ next.head?, u.kind ≠ .openParen := by
  intro u hu hopen
  obtain ⟨v, hv, hkind⟩ := h u hu (.inl hopen)
  exact hrest v hv (hkind.trans hopen)

theorem Fits.not_separator (h : Fits next rest)
    (hrest : ∀ u ∈ rest.head?, u.isPathSeparator = false) :
    ∀ u ∈ next.head?, u.isPathSeparator = false := by
  intro u hu
  rw [← Bool.not_eq_true]
  intro hseparator
  obtain ⟨v, hv, hkind⟩ := h u hu (.inr hseparator)
  have hfalse := hrest v hv
  rw [Token.isPathSeparator, hkind] at hfalse
  rw [Token.isPathSeparator, hfalse] at hseparator
  cases hseparator

theorem Stops.mono {least' : Nat} (h : Stops least tokens) (hle : least ≤ least') :
    Stops least' tokens :=
  fun t ht op hop => Nat.lt_of_lt_of_le (h t ht op hop) hle

theorem Stops.append {taken : List Token} (h : Stops least (taken ++ rest))
    (hnext : Stops least next) (f : Nat → Nat) :
    Stops least (taken.map (Token.relocate f) ++ next) := by
  cases taken with
  | nil => exact hnext
  | cons u taken =>
    intro t ht op hop
    cases ht
    exact h u rfl op hop

end

/-! ### Reading elsewhere -/

/-- A path is read on from its own tokens elsewhere. -/
theorem readPath_elsewhere {start : Nat} {node e : Expr} {tokens rest : List Token}
    (h : plain (s.readPath start node tokens) = .ok (e, rest)) :
    ∃ taken, tokens = taken ++ rest ∧ (node.position = start → e.position = start) ∧
      ∀ (f : Nat → Nat) (size : Nat) (next : List Token), Fits next rest →
        plain ((s.resized size).readPath (f start) (node.relocate f)
          (taken.map (Token.relocate f) ++ next)) =
          .ok (e.relocate f, next) := by
  cases readPath_iff.mp h with
  | stop hstop =>
    exact ⟨[], rfl, id,
      fun f size next hfits => readPath_iff.mpr (.stop (hfits.not_separator hstop))⟩
  | @step separator segment middle _ _ _ _ htokens hseparator hsegment hstructural hnames hpath =>
    have hlt : middle.length < tokens.length := by
      rw [htokens, List.length_cons, List.length_cons]
      omega
    obtain ⟨taken, rfl, hposition, hread⟩ := readPath_elsewhere hpath
    refine ⟨separator :: segment :: taken, htokens,
      fun _ => hposition rfl, fun f size next hfits => ?_⟩
    rw [← Expr.type_relocate f node] at hstructural hnames
    exact readPath_iff.mpr
      (.step rfl hseparator hsegment hstructural hnames (hread f size next hfits))
termination_by tokens.length

/-- A chain that left `rest` is read from its own tokens elsewhere, also where looser operators may
follow. -/
def ReadsElsewhere (s : Scope) (least : Nat) (taken : List Token) (e : Expr) (rest : List Token) :
    Prop :=
  ∀ (f : Nat → Nat) (size least' : Nat) (next : List Token), least' ≤ least → Fits next rest →
    Stops least' next →
    plain ((s.resized size).readBinary least' (taken.map (Token.relocate f) ++ next)) =
      .ok (e.relocate f, next)

/-- No operator is a parenthesis or a comma, so a chain before one of them ends there elsewhere,
too. -/
theorem ReadsElsewhere.before {taken rest : List Token} {t : Token} {e : Expr}
    (h : ReadsElsewhere s 0 taken e (t :: rest)) (ht : t.kind ≠ .identifier) (f : Nat → Nat)
    (size : Nat) (next : List Token) :
    plain ((s.resized size).readBinary 0 (taken.map (Token.relocate f) ++ t.relocate f :: next)) =
      .ok (e.relocate f, t.relocate f :: next) :=
  h f size 0 _ (Nat.le_refl 0) (fits_cons f t next rest)
    (stops_of_kind (show (t.relocate f).kind ≠ .identifier from ht) 0)

mutual

/-- A chain starts where its first token does and is read from its own tokens elsewhere. -/
theorem readBinary_elsewhere {least : Nat} {e : Expr} {tokens rest : List Token}
    (h : plain (s.readBinary least tokens) = .ok (e, rest)) :
    ∃ taken, tokens = taken ++ rest ∧ taken.head?.map Token.position = some e.position ∧
      ReadsElsewhere s least taken e rest := by
  obtain ⟨left, middle, hunary, htail⟩ := readBinary_iff.mp h
  -- the recursion ends because of this bound and of those like it below
  have hlt : middle.length < tokens.length := bound_of_plain hunary
  obtain ⟨first, htokens, hfirst, hread⟩ := readUnary_elsewhere hunary
  obtain ⟨more, rfl, hposition, hmore⟩ := readTail_elsewhere htail
  refine ⟨first ++ more, by rw [htokens, List.append_assoc], ?_,
    fun f size least' next hle hfits hstops => ?_⟩
  · rw [List.head?_append, hposition]
    cases first with
    | nil => cases hfirst
    | cons t first => exact hfirst
  · rw [List.map_append, List.append_assoc]
    exact readBinary_iff.mpr ⟨_, _, hread f size _ (hfits.append f more),
      hmore f size least' next hle hfits hstops⟩
termination_by 4 * tokens.length + 2

/-- The operators and right operands behind a tree are read from their own tokens elsewhere. -/
theorem readTail_elsewhere {least : Nat} {left e : Expr} {tokens rest : List Token}
    (h : plain (s.readTail least left tokens) = .ok (e, rest)) :
    ∃ taken, tokens = taken ++ rest ∧ e.position = left.position ∧
      ∀ (f : Nat → Nat) (size least' : Nat) (next : List Token), least' ≤ least → Fits next rest →
        Stops least' next →
        plain ((s.resized size).readTail least' (left.relocate f)
          (taken.map (Token.relocate f) ++ next)) =
          .ok (e.relocate f, next) := by
  cases readTail_iff.mp h with
  | stop hstops =>
    exact ⟨[], rfl, rfl, fun f size least' next _ _ hstops' => readTail_iff.mpr (.stop hstops')⟩
  | @fold t after middle _ op right _ type htokens hop hle hright hcheck htail =>
    have hlength : tokens.length = after.length + 1 := congrArg List.length htokens
    have hlt : middle.length < after.length := bound_of_plain hright
    have hmiddle := stops_of_readBinary hright
    obtain ⟨operand, hoperand, _, hread⟩ := readBinary_elsewhere hright
    obtain ⟨more, rfl, hposition, hmore⟩ := readTail_elsewhere htail
    refine ⟨t :: (operand ++ more), by rw [htokens, hoperand]; simp, hposition,
      fun f size least' next hle' hfits hstops => ?_⟩
    have hle'' : least' ≤ op.precedence := Nat.le_trans hle' hle
    -- the operand ends before the same token as here, or before `next` where it was the last one
    have hright' := hread f size (op.precedence + 1) (more.map (Token.relocate f) ++ next)
      (Nat.le_refl _)
      (hfits.append f more) (hmiddle.append (hstops.mono (Nat.le_succ_of_le hle'')) f)
    have hcheck' : (Operator.binary op).check (t.relocate f).position
        [(left.relocate f).type, (right.relocate f).type] = .ok type := by
      rw [Expr.type_relocate, Expr.type_relocate]
      exact Operator.check_elsewhere hcheck _
    have htail' := hmore f size least' next hle' hfits hstops
    rw [Expr.relocate, ← Expr.position_relocate f left] at htail'
    rw [List.map_cons, List.map_append, List.cons_append, List.append_assoc]
    exact readTail_iff.mpr (.fold rfl hop hle'' hright' hcheck' htail')
termination_by 4 * tokens.length

/-- An operand starts where its first token does and is read from its own tokens elsewhere. -/
theorem readUnary_elsewhere {e : Expr} {tokens rest : List Token}
    (h : plain (s.readUnary tokens) = .ok (e, rest)) :
    ∃ taken, tokens = taken ++ rest ∧ taken.head?.map Token.position = some e.position ∧
      ∀ (f : Nat → Nat) (size : Nat) (next : List Token), Fits next rest →
        plain ((s.resized size).readUnary (taken.map (Token.relocate f) ++ next)) =
          .ok (e.relocate f, next) := by
  cases readUnary_iff.mp h with
  | @primary t after _ _ htokens hoperator hprimary =>
    have hlength : tokens.length = after.length + 1 := congrArg List.length htokens
    obtain ⟨taken, rfl, hposition, hread⟩ := readPrimary_elsewhere hprimary
    exact ⟨t :: taken, htokens, congrArg some hposition.symm, fun f size next hfits =>
      readUnary_iff.mpr (.primary rfl hoperator (hread f size next hfits))⟩
  | @operator t after _ op operand type htokens hoperator hoperand hcheck =>
    have hlength : tokens.length = after.length + 1 := congrArg List.length htokens
    obtain ⟨taken, rfl, _, hread⟩ := readUnary_elsewhere hoperand
    refine ⟨t :: taken, htokens, rfl, fun f size next hfits => ?_⟩
    have hcheck' : (Operator.unary op).check (t.relocate f).position [(operand.relocate f).type] =
        .ok type := by
      rw [Expr.type_relocate]
      exact Operator.check_elsewhere hcheck _
    exact readUnary_iff.mpr (.operator rfl hoperator (hread f size next hfits) hcheck')
termination_by 4 * tokens.length + 1

/-- What starts with a token is read from its own tokens elsewhere. -/
theorem readPrimary_elsewhere {e : Expr} {t : Token} {tokens rest : List Token}
    (h : plain (s.readPrimary t tokens) = .ok (e, rest)) :
    ∃ taken, tokens = taken ++ rest ∧ e.position = t.position ∧
      ∀ (f : Nat → Nat) (size : Nat) (next : List Token), Fits next rest →
        plain ((s.resized size).readPrimary (t.relocate f) (taken.map (Token.relocate f) ++ next)) =
          .ok (e.relocate f, next) := by
  cases readPrimary_iff.mp h with
  | literal hcontent =>
    exact ⟨[], rfl, rfl, fun f size next _ => readPrimary_iff.mpr (.literal hcontent)⟩
  | @paren closing _ inner hcontent hinner hclosing =>
    obtain ⟨taken, htokens, _, hread⟩ := readBinary_elsewhere hinner
    refine ⟨taken ++ [closing], by rw [htokens]; simp, by simp, fun f size next _ => ?_⟩
    have hinner' := hread.before (by simp [hclosing]) f size next
    rw [List.map_append, List.append_assoc, Expr.relocate_moveTo]
    exact readPrimary_iff.mpr (.paren hcontent hinner' hclosing)
  | path hcontent hopen hnames hpath =>
    obtain ⟨taken, rfl, hposition, hread⟩ := readPath_elsewhere hpath
    exact ⟨taken, rfl, hposition rfl, fun f size next hfits => readPrimary_iff.mpr
      (.path hcontent ((hfits.append f taken).not_openParen hopen) hnames
        (hread f size next hfits))⟩
  | @call opening inside _ method arguments type hcontent htokens hopening hmethod harguments
      hcheck =>
    have hlength : tokens.length = inside.length + 1 := congrArg List.length htokens
    obtain ⟨taken, rfl, hread⟩ := readArguments_elsewhere harguments
    refine ⟨opening :: taken, htokens, rfl, fun f size next _ => ?_⟩
    have hcheck' : (Operator.method method).check (t.relocate f).position
        ((Expr.relocateAll f arguments).map Expr.type) = .ok type := by
      rw [Expr.map_type_relocateAll]
      exact Operator.check_elsewhere hcheck _
    exact readPrimary_iff.mpr (.call hcontent rfl hopening hmethod (hread f size next) hcheck')
termination_by 4 * tokens.length + 4

/-- The arguments of a call are read from their own tokens elsewhere, whatever follows. -/
theorem readArguments_elsewhere {es : List Expr} {tokens rest : List Token}
    (h : plain (s.readArguments tokens) = .ok (es, rest)) :
    ∃ taken, tokens = taken ++ rest ∧ ∀ (f : Nat → Nat) (size : Nat) (next : List Token),
      plain ((s.resized size).readArguments (taken.map (Token.relocate f) ++ next)) =
        .ok (Expr.relocateAll f es, next) := by
  cases readArguments_iff.mp h with
  | @none closing _ htokens hclosing =>
    exact ⟨[closing], htokens, fun f size next => readArguments_iff.mpr (.none rfl hclosing)⟩
  | items hhead hitems =>
    have hlt : rest.length < tokens.length := bound_of_plain hitems
    obtain ⟨taken, rfl, hread⟩ := readItems_elsewhere hitems
    refine ⟨taken, rfl, fun f size next => readArguments_iff.mpr (.items ?_ (hread f size next))⟩
    cases taken with
    | nil => exact absurd hlt (Nat.lt_irrefl _)
    | cons t taken =>
      intro u hu
      cases hu
      exact hhead t rfl
termination_by 4 * tokens.length + 4

theorem readItems_elsewhere {es : List Expr} {tokens rest : List Token}
    (h : plain (s.readItems tokens) = .ok (es, rest)) :
    ∃ taken, tokens = taken ++ rest ∧ ∀ (f : Nat → Nat) (size : Nat) (next : List Token),
      plain ((s.resized size).readItems (taken.map (Token.relocate f) ++ next)) =
        .ok (Expr.relocateAll f es, next) := by
  cases readItems_iff.mp h with
  | @last argument closing _ hargument hclosing =>
    obtain ⟨first, htokens, _, hread⟩ := readBinary_elsewhere hargument
    refine ⟨first ++ [closing], by rw [htokens]; simp, fun f size next => ?_⟩
    have hargument' := hread.before (by simp [hclosing]) f size next
    rw [List.map_append, List.append_assoc]
    exact readItems_iff.mpr (.last hargument' hclosing)
  | @more argument comma after _ arguments hargument hcomma hmore =>
    have hlt : after.length < tokens.length := Nat.lt_of_succ_lt (bound_of_plain hargument)
    obtain ⟨first, htokens, _, hread⟩ := readBinary_elsewhere hargument
    obtain ⟨others, rfl, hothers⟩ := readItems_elsewhere hmore
    refine ⟨first ++ comma :: others, by rw [htokens]; simp, fun f size next => ?_⟩
    have hargument' :=
      hread.before (by simp [hcomma]) f size (others.map (Token.relocate f) ++ next)
    rw [List.map_append, List.append_assoc]
    exact readItems_iff.mpr (.more hargument' hcomma (hothers f size next))
termination_by 4 * tokens.length + 3

end

/-! ### Whole expressions -/

/-- A tree starts where its first token does. -/
theorem head_of_readExpression {tokens : List Token} {e : Expr}
    (h : s.readExpression tokens = .ok e) :
    tokens.head?.map Token.position = some e.position := by
  obtain ⟨taken, htokens, hposition, _⟩ := readBinary_elsewhere (readExpression_eq_ok_iff.mp h)
  rw [htokens, List.append_nil]
  exact hposition

/-- Tokens that are moved to other places are read as the tree that is moved with them. -/
theorem readExpression_relocate {tokens : List Token} {e : Expr}
    (h : s.readExpression tokens = .ok e) (f : Nat → Nat) (size : Nat) :
    (s.resized size).readExpression (tokens.map (Token.relocate f)) = .ok (e.relocate f) := by
  obtain ⟨taken, htokens, _, hread⟩ := readBinary_elsewhere (readExpression_eq_ok_iff.mp h)
  rw [List.append_nil] at htokens
  have hmoved := hread f size 0 [] (Nat.le_refl 0) (fits_nil []) (fun _ ht => by cases ht)
  rw [List.append_nil, ← htokens] at hmoved
  exact readExpression_eq_ok_iff.mpr hmoved

/-! ### Texts that break off -/

/-- The text breaks off or goes on with the same token. -/
def BreaksOff (next rest : List Token) : Prop :=
  next = [] ∨ next.head? = rest.head?

section

variable {next rest : List Token}

theorem BreaksOff.fits (h : BreaksOff next rest) : Fits next rest := by
  rcases h with rfl | hhead
  · exact fits_nil rest
  · exact fits_of_head hhead

theorem BreaksOff.append (h : BreaksOff next rest) (taken : List Token) :
    BreaksOff (taken ++ next) (taken ++ rest) := by
  cases taken with
  | nil => exact h
  | cons t taken => exact .inr rfl

theorem BreaksOff.stops {least : Nat} (h : BreaksOff next rest) (hstops : Stops least rest) :
    Stops least next := by
  rcases h with rfl | hhead
  · exact fun _ ht => by cases ht
  · exact fun t ht => hstops t (hhead ▸ ht)

end

theorem map_relocate_id (tokens : List Token) : tokens.map (Token.relocate id) = tokens :=
  List.map_id tokens

/-- A chain is read from its own tokens when the text breaks off behind them. -/
theorem readBinary_breaksOff {least least' : Nat} {e : Expr} {taken rest next : List Token}
    (h : plain (s.readBinary least (taken ++ rest)) = .ok (e, rest)) (hle : least' ≤ least)
    (hnext : BreaksOff next rest) (hstops : Stops least' next) :
    plain (s.readBinary least' (taken ++ next)) = .ok (e, next) := by
  obtain ⟨taken', htaken, _, hread⟩ := readBinary_elsewhere h
  obtain rfl := List.append_cancel_right htaken
  have hagain := hread id s.inputSize least' next hle hnext.fits hstops
  rwa [map_relocate_id, Expr.relocate_id] at hagain

theorem readUnary_breaksOff {e : Expr} {taken rest next : List Token}
    (h : plain (s.readUnary (taken ++ rest)) = .ok (e, rest)) (hnext : BreaksOff next rest) :
    plain (s.readUnary (taken ++ next)) = .ok (e, next) := by
  obtain ⟨taken', htaken, _, hread⟩ := readUnary_elsewhere h
  obtain rfl := List.append_cancel_right htaken
  have hagain := hread id s.inputSize next hnext.fits
  rwa [map_relocate_id, Expr.relocate_id] at hagain

/-- A direction takes one token or none, and is read from it wherever the text breaks off behind. -/
theorem readOrder_breaksOff (tokens : List Token) :
    ∃ word, tokens = word ++ (readOrder tokens).2.val ∧
    ∀ next, BreaksOff next (readOrder tokens).2.val →
      (readOrder (word ++ next)).1 = (readOrder tokens).1 ∧
        (readOrder (word ++ next)).2.val = next := by
  cases tokens with
  | nil =>
    refine ⟨[], rfl, fun next hnext => ?_⟩
    obtain rfl : next = [] := hnext.elim id List.head?_eq_none_iff.mp
    exact ⟨rfl, rfl⟩
  | cons t rest =>
    by_cases hdesc : t.isWord "desc" = true
    · exact ⟨[t], by simp [readOrder_cons, hdesc], fun next _ => by simp [readOrder_cons, hdesc]⟩
    by_cases hasc : t.isWord "asc" = true
    · exact ⟨[t], by simp [readOrder_cons, hdesc, hasc],
        fun next _ => by simp [readOrder_cons, hdesc, hasc]⟩
    · refine ⟨[], by simp [readOrder_cons, hdesc, hasc], fun next hnext => ?_⟩
      simp only [readOrder_cons, hdesc, hasc] at hnext
      rcases hnext with rfl | hhead
      · simp [readOrder_nil, readOrder_cons, hdesc, hasc]
      · cases next with
        | nil => cases hhead
        | cons u next =>
          obtain rfl : u = t := Option.some.inj hhead
          simp [readOrder_cons, hdesc, hasc]

/-- The first sort key is read from its own tokens, wherever the text breaks off behind them. -/
theorem exists_item_of_readBinary {e : Expr} {tokens rest : List Token}
    (h : plain (s.readBinary 0 tokens) = .ok (e, rest)) :
    ∃ own last item, tokens = own ++ last ∧ last.length < tokens.length ∧
      ∀ next, BreaksOff next last → s.readOrderBy (own ++ next) = s.readMore item next := by
  have hlt : rest.length < tokens.length := bound_of_plain h
  obtain ⟨taken, htokens, _⟩ := readBinary_elsewhere h
  obtain ⟨word, hword, horder⟩ := readOrder_breaksOff rest
  generalize hlast : (readOrder rest).2.val = last at hword horder
  have hle : last.length ≤ rest.length := hlast ▸ (readOrder rest).2.property
  refine ⟨taken ++ word, last, ⟨e, (readOrder rest).1⟩, ?_, Nat.lt_of_le_of_lt hle hlt,
    fun next hnext => ?_⟩
  · rw [htokens, hword, List.append_assoc]
  · have hstops := stops_of_readBinary h
    have hbreaks : BreaksOff (word ++ next) rest := by
      rw [hword]
      exact hnext.append word
    rw [htokens] at h
    rw [List.append_assoc, readOrderBy_eq,
      readBinary_breaksOff h (Nat.le_refl 0) hbreaks (hbreaks.stops hstops)]
    simp only [Except.bind, horder next hnext]

end Scope

end EntityQuery
