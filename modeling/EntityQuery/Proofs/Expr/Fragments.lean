import EntityQuery.Proofs.Expr.Extent
import EntityQuery.Proofs.Expr.Typing
import EntityQuery.Proofs.Token.Runs

/-!
# The text of a node

Every node of a tree that was read, members of paths apart, has a text of its own in the input: one
that starts at the position of the node and is read as this node alone. Parentheses belong to the
text of what they enclose, and a chain of operators that is cut off behind one of its operands is a
chain again.
-/

namespace EntityQuery

theorem Expr.nodes_eq_cons (place : NodePlace) (e : Expr) :
    e.nodes place = (place, e) :: (e.nodes .root).tail := by
  cases e <;> rfl

namespace Scope

variable {s : Scope}

/-! ### Nodes and their tokens -/

/-- Each node below the root, members of paths apart, is read alone from tokens that stand side by
side among these. -/
def Contains (s : Scope) (tokens : List Token) (e : Expr) : Prop :=
  ∀ x ∈ (e.nodes .root).tail, (∀ owner, x.1 ≠ .target owner) →
    ∃ own, own <:+: tokens ∧ s.readExpression own = .ok x.2

/-- The tree is read from these tokens, and each of its nodes from some of them. -/
structure ReadFrom (s : Scope) (tokens : List Token) (e : Expr) : Prop where
  whole : s.readExpression tokens = .ok e
  parts : Contains s tokens e

section

variable {tokens own : List Token} {e : Expr}

theorem Contains.mono (h : Contains s own e) (hown : own <:+: tokens) : Contains s tokens e := by
  intro x hx hplace
  obtain ⟨inner, hinner, hread⟩ := h x hx hplace
  exact ⟨inner, hinner.trans hown, hread⟩

theorem ReadFrom.exists_own (h : ReadFrom s own e) (hown : own <:+: tokens) {place : NodePlace}
    {x : NodePlace × Expr} (hx : x ∈ e.nodes place) (hplace : ∀ owner, x.1 ≠ .target owner) :
    ∃ own, own <:+: tokens ∧ s.readExpression own = .ok x.2 := by
  rw [Expr.nodes_eq_cons] at hx
  rcases List.mem_cons.mp hx with rfl | hx
  · exact ⟨own, hown, h.whole⟩
  · exact h.parts.mono hown x hx hplace

theorem contains_moveTo (h : Contains s tokens e) (position : Nat) :
    Contains s tokens (e.moveTo position) := by
  have htail : ((e.moveTo position).nodes .root).tail = (e.nodes .root).tail := by cases e <;> rfl
  rw [Contains, htail]
  exact h

theorem contains_member {note note' : Annotation} {ref : PropertyRef} (h : ReadFrom s own e)
    (hown : own <:+: tokens) : Contains s tokens (.member note e (.property note' ref)) := by
  intro x hx hplace
  rcases List.mem_append.mp hx with hx | hx
  · exact h.exists_own hown hx hplace
  · obtain rfl := List.mem_singleton.mp hx
    exact absurd rfl (hplace e.type)

theorem contains_unary {note : Annotation} {op : UnaryOperator} (h : ReadFrom s own e)
    (hown : own <:+: tokens) : Contains s tokens (.unary note op e) :=
  fun _ hx hplace => h.exists_own hown hx hplace

theorem contains_binary {note : Annotation} {op : BinaryOperator} {left right : Expr}
    {before after : List Token} (hleft : ReadFrom s before left) (hbefore : before <:+: tokens)
    (hright : ReadFrom s after right) (hafter : after <:+: tokens) :
    Contains s tokens (.binary note op left right) := by
  intro x hx hplace
  rcases List.mem_append.mp hx with hx | hx
  · exact hleft.exists_own hbefore hx hplace
  · exact hright.exists_own hafter hx hplace

theorem contains_call {note : Annotation} {method : Method} {arguments : List Expr}
    (h : ∀ e ∈ arguments, ∃ own, own <:+: tokens ∧ ReadFrom s own e) :
    Contains s tokens (.call note method arguments) := by
  intro x hx hplace
  obtain ⟨e, he, hx⟩ := Expr.exists_of_mem_argumentNodes hx
  obtain ⟨own, hown, hread⟩ := h e he
  exact hread.exists_own hown hx hplace

end

/-! ### Readers -/

theorem readTail_nil {least : Nat} {left : Expr} :
    plain (s.readTail least left []) = .ok (left, []) :=
  readTail_iff.mpr (.stop fun _ ht => by cases ht)

theorem readExpression_of_readUnary {tokens : List Token} {e : Expr}
    (h : plain (s.readUnary tokens) = .ok (e, [])) : s.readExpression tokens = .ok e :=
  readExpression_eq_ok_iff.mpr (readBinary_iff.mpr ⟨e, [], h, readTail_nil⟩)

/-- A path that is read on from a node keeps the tokens of each of its beginnings. The tokens before
are read as the node, whether the text breaks off behind them or goes on. -/
theorem readFrom_of_readPath {start : Nat} {node e : Expr} {before tokens rest : List Token}
    (h : plain (s.readPath start node tokens) = .ok (e, rest)) (hnode : Contains s before node)
    (hread : ∀ next e' rest', BreaksOff next tokens →
      plain (s.readPath start node next) = .ok (e', rest') →
      plain (s.readUnary (before ++ next)) = .ok (e', rest')) :
    ∃ more, tokens = more ++ rest ∧ ReadFrom s (before ++ more) e := by
  have hwhole : s.readExpression before = .ok node := by
    have halone := hread [] node [] (.inl rfl) (readPath_iff.mpr (.stop fun _ hu => by cases hu))
    rw [List.append_nil] at halone
    exact readExpression_of_readUnary halone
  cases readPath_iff.mp h with
  | stop _ =>
    refine ⟨[], rfl, ?_⟩
    rw [List.append_nil]
    exact ⟨hwhole, hnode⟩
  | @step separator segment middle _ ref type _ htokens hseparator hsegment hstructural hnames
      hpath =>
    have hlt : middle.length < tokens.length := by
      rw [htokens, List.length_cons, List.length_cons]
      omega
    have hmember : Contains s (before ++ [separator, segment])
        (.member ⟨type, start⟩ node (.property ⟨type, segment.position⟩ ref)) :=
      contains_member ⟨hwhole, hnode⟩ (List.prefix_append _ _).isInfix
    obtain ⟨more, rfl, hfrom⟩ := readFrom_of_readPath hpath hmember fun next e' rest' _ hnext => by
      rw [List.append_assoc]
      exact hread (separator :: segment :: next) e' rest' (.inr (by rw [htokens]; rfl))
        (readPath_iff.mpr (.step rfl hseparator hsegment hstructural hnames hnext))
    rw [List.append_assoc] at hfrom
    exact ⟨separator :: segment :: more, htokens, hfrom⟩
termination_by tokens.length

mutual

/-- A chain and each of its nodes are read from the tokens that it takes. -/
theorem readFrom_of_readBinary {least : Nat} {e : Expr} {tokens rest : List Token}
    (h : plain (s.readBinary least tokens) = .ok (e, rest)) :
    ∃ taken, tokens = taken ++ rest ∧ ReadFrom s taken e := by
  obtain ⟨left, middle, hunary, htail⟩ := readBinary_iff.mp h
  have hlt : middle.length < tokens.length := bound_of_plain hunary
  obtain ⟨first, htokens, hfirst⟩ := readFrom_of_readUnary hunary
  obtain ⟨more, rfl, hfrom⟩ :=
    readFrom_of_readTail htail hfirst.parts fun next e' rest' hbreaks hnext => by
    rw [htokens] at hunary
    exact readBinary_iff.mpr ⟨left, next, readUnary_breaksOff hunary hbreaks, hnext⟩
  exact ⟨first ++ more, by rw [htokens, List.append_assoc], hfrom⟩
termination_by 4 * tokens.length + 2

/-- Operands that are read on from a tree keep the tokens of each chain that ends behind one of
them. The tokens before are read as the tree, whether the text breaks off behind them or goes on. -/
theorem readFrom_of_readTail {least : Nat} {left e : Expr} {before tokens rest : List Token}
    (h : plain (s.readTail least left tokens) = .ok (e, rest)) (hleft : Contains s before left)
    (hread : ∀ next e' rest', BreaksOff next tokens →
      plain (s.readTail 0 left next) = .ok (e', rest') →
      plain (s.readBinary 0 (before ++ next)) = .ok (e', rest')) :
    ∃ more, tokens = more ++ rest ∧ ReadFrom s (before ++ more) e := by
  have hwhole : s.readExpression before = .ok left := by
    have halone := hread [] left [] (.inl rfl) readTail_nil
    rw [List.append_nil] at halone
    exact readExpression_eq_ok_iff.mpr halone
  cases readTail_iff.mp h with
  | stop _ =>
    refine ⟨[], rfl, ?_⟩
    rw [List.append_nil]
    exact ⟨hwhole, hleft⟩
  | @fold t after middle _ op right _ type htokens hop _ hright hcheck htail =>
    have hlength : tokens.length = after.length + 1 := congrArg List.length htokens
    have hlt : middle.length < after.length := bound_of_plain hright
    obtain ⟨operand, hoperand, hfrom⟩ := readFrom_of_readBinary hright
    have hafter : operand <:+: before ++ t :: operand :=
      ((List.suffix_cons t operand).trans (List.suffix_append _ _)).isInfix
    have hbinary : Contains s (before ++ t :: operand)
        (.binary ⟨type, left.position⟩ op left right) :=
      contains_binary ⟨hwhole, hleft⟩ (List.prefix_append _ _).isInfix hfrom hafter
    -- what the chain was asked for does not matter here: its own tokens are read as a whole
    -- expression
    obtain ⟨more, rfl, hfrom⟩ :=
      readFrom_of_readTail htail hbinary fun next e' rest' hbreaks hnext => by
      have hstops := hbreaks.stops (stops_of_readBinary hright)
      rw [hoperand] at hright
      have hright' := readBinary_breaksOff hright (Nat.le_refl _) hbreaks hstops
      rw [List.append_assoc]
      exact hread (t :: (operand ++ next)) e' rest' (.inr (by rw [htokens]; rfl))
        (readTail_iff.mpr (.fold rfl hop (Nat.zero_le _) hright' hcheck hnext))
    rw [List.append_assoc] at hfrom
    exact ⟨t :: (operand ++ more), by rw [htokens, hoperand]; simp, hfrom⟩
termination_by 4 * tokens.length

/-- An operand and each of its nodes are read from the tokens that it takes. -/
theorem readFrom_of_readUnary {e : Expr} {tokens rest : List Token}
    (h : plain (s.readUnary tokens) = .ok (e, rest)) :
    ∃ taken, tokens = taken ++ rest ∧ ReadFrom s taken e := by
  have hwhole (taken : List Token) (htokens : tokens = taken ++ rest) :
      s.readExpression taken = .ok e := by
    rw [htokens] at h
    have halone := readUnary_breaksOff h (.inl rfl)
    rw [List.append_nil] at halone
    exact readExpression_of_readUnary halone
  cases readUnary_iff.mp h with
  | @primary t after _ _ htokens hoperator hprimary =>
    have hlength : tokens.length = after.length + 1 := congrArg List.length htokens
    obtain ⟨taken, rfl, hparts⟩ := contains_of_readPrimary hoperator hprimary
    exact ⟨t :: taken, htokens, hwhole _ htokens, hparts⟩
  | @operator t after _ op operand type htokens _ hoperand _ =>
    have hlength : tokens.length = after.length + 1 := congrArg List.length htokens
    obtain ⟨taken, rfl, hfrom⟩ := readFrom_of_readUnary hoperand
    exact ⟨t :: taken, htokens, hwhole _ htokens,
      contains_unary hfrom (List.suffix_cons t taken).isInfix⟩
termination_by 4 * tokens.length + 1

/-- Each node of what starts with a token is read from the tokens that are taken. -/
theorem contains_of_readPrimary {e : Expr} {t : Token} {tokens rest : List Token}
    (hoperator : t.unaryOperator? = none) (h : plain (s.readPrimary t tokens) = .ok (e, rest)) :
    ∃ taken, tokens = taken ++ rest ∧ Contains s (t :: taken) e := by
  cases readPrimary_iff.mp h with
  | literal _ => exact ⟨[], rfl, fun _ hx => by cases hx⟩
  | @paren closing _ inner _ hinner _ =>
    obtain ⟨taken, htokens, hfrom⟩ := readFrom_of_readBinary hinner
    refine ⟨taken ++ [closing], by rw [htokens]; simp, contains_moveTo ?_ t.position⟩
    exact hfrom.parts.mono ⟨[t], [closing], rfl⟩
  | @path _ ref type _ hcontent hopen hnames hpath =>
    have hname : Contains s [t] (.property ⟨type, t.position⟩ ref) := fun _ hx => by cases hx
    obtain ⟨more, hmore, hfrom⟩ :=
      readFrom_of_readPath hpath hname fun next e' rest' hbreaks hnext =>
      readUnary_iff.mpr (.primary rfl hoperator
        (readPrimary_iff.mpr (.path hcontent (hbreaks.fits.not_openParen hopen) hnames hnext)))
    exact ⟨more, hmore, hfrom.parts⟩
  | @call opening inside _ method arguments type _ htokens _ _ harguments _ =>
    have hlength : tokens.length = inside.length + 1 := congrArg List.length htokens
    obtain ⟨taken, rfl, hfrom⟩ := readFrom_of_readArguments harguments
    refine ⟨opening :: taken, htokens, contains_call fun e he => ?_⟩
    obtain ⟨own, hown, hread⟩ := hfrom e he
    exact ⟨own, hown.trans (List.suffix_append [t, opening] taken).isInfix, hread⟩
termination_by 4 * tokens.length + 4

/-- Each argument of a call and each of its nodes are read from tokens among those that the
arguments take. -/
theorem readFrom_of_readArguments {es : List Expr} {tokens rest : List Token}
    (h : plain (s.readArguments tokens) = .ok (es, rest)) :
    ∃ taken, tokens = taken ++ rest ∧ ∀ e ∈ es, ∃ own, own <:+: taken ∧ ReadFrom s own e := by
  cases readArguments_iff.mp h with
  | @none closing _ htokens _ => exact ⟨[closing], htokens, fun _ he => by cases he⟩
  | items _ hitems => exact readFrom_of_readItems hitems
termination_by 4 * tokens.length + 4

theorem readFrom_of_readItems {es : List Expr} {tokens rest : List Token}
    (h : plain (s.readItems tokens) = .ok (es, rest)) :
    ∃ taken, tokens = taken ++ rest ∧ ∀ e ∈ es, ∃ own, own <:+: taken ∧ ReadFrom s own e := by
  cases readItems_iff.mp h with
  | @last argument closing _ hargument _ =>
    obtain ⟨first, htokens, hfirst⟩ := readFrom_of_readBinary hargument
    refine ⟨first ++ [closing], by rw [htokens]; simp, fun e he => ?_⟩
    obtain rfl := List.mem_singleton.mp he
    exact ⟨first, (List.prefix_append _ _).isInfix, hfirst⟩
  | @more argument comma after _ arguments hargument _ hmore =>
    have hlt : after.length < tokens.length := Nat.lt_of_succ_lt (bound_of_plain hargument)
    obtain ⟨first, htokens, hfirst⟩ := readFrom_of_readBinary hargument
    obtain ⟨others, rfl, hothers⟩ := readFrom_of_readItems hmore
    refine ⟨first ++ comma :: others, by rw [htokens]; simp, fun e he => ?_⟩
    rcases List.mem_cons.mp he with rfl | he
    · exact ⟨first, (List.prefix_append _ _).isInfix, hfirst⟩
    · obtain ⟨own, hown, hread⟩ := hothers e he
      have hothers' : others <:+: first ++ comma :: others :=
        ((List.suffix_cons comma others).trans (List.suffix_append _ _)).isInfix
      exact ⟨own, hown.trans hothers', hread⟩
termination_by 4 * tokens.length + 3

end

/-! ### Positions -/

/-- Tokens that are read behind a number of bytes are read without them. -/
theorem exists_of_readExpression_shift {tokens : List Token} {e : Expr} {offset : Nat}
    (h : s.readExpression (tokens.map (Token.shift offset)) = .ok e) (size : Nat) :
    ∃ alone, (s.resized size).readExpression tokens = .ok alone ∧
      alone.relocate (· + offset) = e := by
  have hback : (tokens.map (Token.shift offset)).map (Token.relocate (· - offset)) = tokens := by
    rw [List.map_map]
    refine List.map_id'' (fun t => ?_) tokens
    simp [Token.shift, Token.relocate]
  have halone := readExpression_relocate h (· - offset) size
  rw [hback] at halone
  have hagain := readExpression_relocate halone (· + offset) s.inputSize
  exact ⟨_, halone, Except.ok.inj (hagain.symm.trans h)⟩

end Scope

/-! ### Texts -/

/-- A tree that is read from tokens side by side is read from their text alone. -/
theorem exists_text_of_readExpression {s : Scope} {input : String} {tokens own : List Token}
    {part : Expr} (htokens : tokenize input = .ok tokens) (hown : own <:+: tokens)
    (hread : s.readExpression own = .ok part) :
    ∃ (before text after : String) (alone : Expr), input = before ++ text ++ after ∧
      before.utf8ByteSize = part.position ∧ parseExpression s.model s.entityType text = .ok alone ∧
      alone.relocate (· + part.position) = part := by
  have hhead := Scope.head_of_readExpression hread
  have hne : own ≠ [] := by
    rintro rfl
    cases hhead
  obtain ⟨before, text, after, ownTokens, hinput, hfirst, htext, rfl⟩ :=
    tokenize_slice htokens hown hne
  have hposition : before.utf8ByteSize = part.position := Option.some.inj (hfirst.symm.trans hhead)
  rw [hposition] at hread
  obtain ⟨alone, halone, hmoved⟩ :=
    Scope.exists_of_readExpression_shift hread (utf8Size text.toList)
  exact ⟨before, text, after, alone, hinput, hposition,
    (parseExpression_eq_ok_iff htext).mpr halone, hmoved⟩

/-- Each node of a tree that was read, members of paths apart, has its own text in the input. The
text starts at the position of the node and is read as the node with all positions less by this one.
The tree itself starts at the first token. -/
theorem parseExpression_node_text (model : Model) (entityType : EntityType) (input : String)
    (e : Expr) (h : parseExpression model entityType input = .ok e) :
    (∃ t tokens, tokenize input = .ok (t :: tokens) ∧ e.position = t.position) ∧
    ∀ node ∈ e.nodes .root, (∀ owner, node.1 ≠ .target owner) →
      ∃ (before text after : String) (alone : Expr), input = before ++ text ++ after ∧
        before.utf8ByteSize = node.2.position ∧ parseExpression model entityType text = .ok alone ∧
        alone.relocate (· + node.2.position) = node.2 := by
  cases htokens : tokenize input with
  | error err => simp [parseExpression, readText_eq, htokens] at h
  | ok tokens =>
    rw [parseExpression_eq_ok_iff htokens] at h
    constructor
    · have hhead := Scope.head_of_readExpression h
      cases tokens with
      | nil => cases hhead
      | cons t tokens => exact ⟨t, tokens, rfl, (Option.some.inj hhead).symm⟩
    · intro node hnode hplace
      obtain ⟨taken, htaken, hfrom⟩ :=
        Scope.readFrom_of_readBinary (Scope.readExpression_eq_ok_iff.mp h)
      rw [List.append_nil] at htaken
      subst htaken
      obtain ⟨own, hown, hread⟩ := hfrom.exists_own (List.infix_refl _) hnode hplace
      exact exists_text_of_readExpression htokens hown hread

/-- A condition with a group in a group, a path and a call, behind a letter of two bytes. -/
def groupedText : String := "'é' ne (host/address.city) and ((home add 1) mul 2 gt length('é'))"

/-- The outer one of the groups. -/
theorem parseExpression_node_text_groupedText : ∃ e,
    parseExpression leagueModel sampleType groupedText = .ok e ∧
    (∃ t tokens, tokenize groupedText = .ok (t :: tokens) ∧ e.position = t.position) ∧
    ∃ node ∈ e.nodes .root, node.1 = .operand ∧ node.2.position = 32 ∧
      ∃ (before text after : String) (alone : Expr), groupedText = before ++ text ++ after ∧
        before.utf8ByteSize = node.2.position ∧
          parseExpression leagueModel sampleType text = .ok alone ∧
        alone.relocate (· + node.2.position) = node.2 := by
  obtain ⟨e, he, hany⟩ := @exists_ok_of_any _ _ (parseExpression leagueModel sampleType groupedText)
    (fun e => (e.nodes .root).any fun node => node.1 == .operand && node.2.position == 32)
      (by decide +kernel)
  obtain ⟨node, hnode, hgroup⟩ := List.any_eq_true.mp hany
  rw [Bool.and_eq_true, beq_iff_eq, beq_iff_eq] at hgroup
  have htexts := parseExpression_node_text leagueModel sampleType groupedText e he
  exact ⟨e, he, htexts.1, node, hnode, hgroup.1, hgroup.2, htexts.2 node hnode (by simp [hgroup.1])⟩

end EntityQuery
