import EntityQuery.Proofs.Expr.Recognition
import EntityQuery.Proofs.Jpql.Spelling
import EntityQuery.Proofs.Model.Declarations
import EntityQuery.Proofs.Token.Runs

/-!
# Paths of names

A path names a property of the entity type, then one of the type that this leads to, and so on.
Types may lead back to themselves, so paths have any length. Reading a path follows its names
through the model, whatever separators stand between them, and the text of the path in JPQL is the
flat chain of the store's names.
-/

namespace EntityQuery

/-! ### Walking through a model -/

namespace Model

/-- What a type of the model declares under a name, with the store's name of it and the type it
leads to: a property, or else, on entity types only, a navigation property to at most one entity. -/
inductive Declares (model : Model) : ValueType → String → String → ValueType → Prop
  | property {typeName name : String} {t : EntityType} {p : Property}
    (ht : model.entityType? typeName = some t) (hp : t.property? name = some p) :
    Declares model (.entity typeName) name p.internalName p.type.valueType
  | component {typeName name : String} {t : ComplexType} {p : Property}
    (ht : model.complexType? typeName = some t) (hp : t.property? name = some p) :
    Declares model (.complex typeName) name p.internalName p.type.valueType
  | navigation {typeName name : String} {t : EntityType} {n : NavigationProperty}
    (ht : model.entityType? typeName = some t) (hp : t.property? name = none)
    (hn : t.navigationProperty? name = some n) (hs : n.multiplicity.isSingle = true) :
    Declares model (.entity typeName) name n.internalName (.entity n.targetType)

/-- Names lead from a type to another one, each declared by the type that is reached before it; with
the store's names of them. Simple types declare nothing, so they are only reached at the end. -/
inductive Reaches (model : Model) : ValueType → List String → List String → ValueType → Prop
  | here (type : ValueType) : Reaches model type [] [] type
  | step {owner middle type : ValueType} {name internal : String} {names internals : List String}
    (h : model.Declares owner name internal middle)
    (later : Reaches model middle names internals type) :
    Reaches model owner (name :: names) (internal :: internals) type

variable {model : Model} {owner type : ValueType} {name internal : String}

theorem Declares.isStructural (h : model.Declares owner name internal type) :
    owner.isStructural = true := by
  cases h <;> rfl

theorem declares_iff : model.Declares owner name internal type ↔
    ∃ ref, Names model owner name ref type ∧ ref.internalName = internal := by
  constructor
  · intro h
    cases h with
    | property ht hp => exact ⟨_, .property (by simp [Scope.property?, ht, hp]), rfl⟩
    | component ht hp => exact ⟨_, .property (by simp [Scope.property?, ht, hp]), rfl⟩
    | navigation ht hp hn hs =>
      exact ⟨_, .navigation (by simp [Scope.property?, ht, hp])
        (by simp [Scope.navigation?, ht, hn]) hs, rfl⟩
  · rintro ⟨ref, h, rfl⟩
    cases h with
    | property hp =>
      cases owner with
      | simple t => cases hp
      | complex typeName =>
        obtain ⟨t, ht, hp⟩ := Option.bind_eq_some_iff.mp hp
        exact .component ht hp
      | entity typeName =>
        obtain ⟨t, ht, hp⟩ := Option.bind_eq_some_iff.mp hp
        exact .property ht hp
    | navigation hp hn hs =>
      cases owner with
      | simple t => cases hn
      | complex typeName => cases hn
      | entity typeName =>
        obtain ⟨t, ht, hn⟩ := Option.bind_eq_some_iff.mp hn
        rw [Scope.property?, ht, Option.bind_some] at hp
        exact .navigation ht hp hn hs

end Model

/-! ### Written paths -/

/-- A word that is no literal. -/
def Text.isIdentifier (name : String) : Bool :=
  Text.isPlainName name && !(["null", "true", "false"].contains name)

/-- What stands between two names of a path. -/
inductive PathSeparator where
  | slash
  | dot
  deriving DecidableEq, Repr

namespace PathSeparator

def text : PathSeparator → String
  | .slash => "/"
  | .dot => "."

def content : PathSeparator → TokenContent
  | .slash => .slash
  | .dot => .dot

end PathSeparator

/-- A path as it is written: a name, and other names with the separators before them. -/
structure MemberPath where
  head : String
  steps : List (PathSeparator × String)
  isIdentifier : ∀ name ∈ head :: steps.map Prod.snd, Text.isIdentifier name = true
  head_ne_not : head ≠ "not"

/-- Names with the separators before them. -/
def PathSeparator.chain (steps : List (PathSeparator × String)) : String :=
  String.join (steps.map fun step => step.1.text ++ step.2)

namespace MemberPath

def names (path : MemberPath) : List String := path.head :: path.steps.map Prod.snd

def text (path : MemberPath) : String := path.head ++ PathSeparator.chain path.steps

end MemberPath

/-! ### The tokens of a path -/

/-- No word goes on, and no quoted text starts. -/
def EndsWord (rest : List Char) : Prop := ∀ d ∈ rest.head?, Text.isWordPart d = false ∧ d ≠ '\''

theorem Piece.wordContent_of_isIdentifier {name : String} (h : Text.isIdentifier name = true) :
    wordContent name.toList = .identifier := by
  simp only [Text.isIdentifier, Bool.and_eq_true, Bool.not_eq_true', List.contains_eq_mem,
    List.mem_cons, List.not_mem_nil, or_false, not_or, decide_eq_false_iff_not] at h
  obtain ⟨_, hnull, htrue, hfalse⟩ := h
  unfold wordContent
  rw [if_neg (hnull ∘ String.toList_inj.mp), if_neg (htrue ∘ String.toList_inj.mp),
    if_neg (hfalse ∘ String.toList_inj.mp)]

/-- An identifier is a token where its word ends. -/
theorem tokensFrom_identifier {name : String} {rest : List Char} {position : Nat}
    {tokens : List Token} (h : Text.isIdentifier name = true) (hrest : EndsWord rest)
    (htokens : tokensFrom (position + name.utf8ByteSize) rest = .ok tokens) :
    tokensFrom position (name.toList ++ rest) = .ok (⟨.identifier, position, name⟩ :: tokens) := by
  have hcontent := Piece.wordContent_of_isIdentifier h
  simp only [Text.isIdentifier, Text.isPlainName, Bool.and_eq_true, List.all_eq_true] at h
  obtain ⟨⟨hstart, hparts⟩, _⟩ := h
  rw [← utf8Size_toList] at htokens
  cases hname : name.toList with
  | nil => simp [hname] at hstart
  | cons c tail =>
    rw [hname] at hstart hparts htokens hcontent
    have hc : Text.isWordStart c = true := hstart
    have hblank : Text.isBlank c = false := by
      rw [← Bool.not_eq_true]
      intro hblank
      have hpart := Text.isWordPart_of_isWordStart hc
      rw [Text.isWordPart_of_isBlank hblank] at hpart
      cases hpart
    have hpiece := Piece.first_word hc (fun d hd => hparts d (List.mem_cons_of_mem c hd)) hrest
    rw [hcontent] at hpiece
    rw [List.cons_append, tokensFrom_of_first hblank hpiece (by simpa using htokens),
      List.take_left, ← hname, String.ofList_toList]

namespace PathSeparator

/-- The tokens of names with the separators before them, the first of which stands at a position. -/
def tokens : (position : Nat) → List (PathSeparator × String) → List Token
  | _, [] => []
  | position, (separator, name) :: steps =>
    ⟨separator.content, position, separator.text⟩ :: ⟨.identifier, position + 1, name⟩ ::
      tokens (position + 1 + name.utf8ByteSize) steps

theorem toList_chain_cons (separator : PathSeparator) (name : String)
    (steps : List (PathSeparator × String)) :
    (chain ((separator, name) :: steps)).toList =
      separator.text.toList ++ (name.toList ++ (chain steps).toList) := by
  simp [chain]

theorem endsWord_chain (steps : List (PathSeparator × String)) : EndsWord (chain steps).toList := by
  cases steps with
  | nil => simp [EndsWord, chain]
  | cons step steps =>
    obtain ⟨separator, name⟩ := step
    intro d hd
    rw [toList_chain_cons] at hd
    cases separator with
    | slash => cases hd; exact ⟨by decide, by decide⟩
    | dot => cases hd; exact ⟨by decide, by decide⟩

/-- A separator is a token whatever follows. -/
theorem tokensFrom_separator (separator : PathSeparator) {position : Nat} {rest : List Char}
    {tokens : List Token} (h : tokensFrom (position + 1) rest = .ok tokens) :
    tokensFrom position (separator.text.toList ++ rest) =
      .ok (⟨separator.content, position, separator.text⟩ :: tokens) := by
  cases separator with
  | slash => exact @tokensFrom_of_first position '/' rest .slash 0 tokens (by decide) rfl h
  | dot => exact @tokensFrom_of_first position '.' rest .dot 0 tokens (by decide) rfl h

theorem tokensFrom_chain {steps : List (PathSeparator × String)}
    (h : ∀ name ∈ steps.map Prod.snd, Text.isIdentifier name = true) (position : Nat) :
    tokensFrom position (chain steps).toList = .ok (tokens position steps) := by
  induction steps generalizing position with
  | nil => exact tokensFrom_nil position
  | cons step steps ih =>
    obtain ⟨separator, name⟩ := step
    have hlater := ih (fun name hmem => h name (List.mem_cons_of_mem _ hmem))
      (position + 1 + name.utf8ByteSize)
    rw [toList_chain_cons]
    exact tokensFrom_separator separator
      (tokensFrom_identifier (h name List.mem_cons_self) (endsWord_chain steps) hlater)

end PathSeparator

theorem MemberPath.tokenize_text (path : MemberPath) :
    tokenize path.text =
      .ok (⟨.identifier, 0, path.head⟩ :: PathSeparator.tokens path.head.utf8ByteSize
        path.steps) := by
  have hlater := PathSeparator.tokensFrom_chain
    (fun name hmem => path.isIdentifier name (List.mem_cons_of_mem _ hmem))
      (0 + path.head.utf8ByteSize)
  rw [tokenize, text, String.toList_append,
    tokensFrom_identifier (path.isIdentifier _ List.mem_cons_self)
    (PathSeparator.endsWord_chain path.steps) hlater, Nat.zero_add]

/-! ### Following names -/

namespace Scope

/-- The path that goes on from a node by names, the first of which stands at a position. -/
def followNames (model : Model) (start : Nat) :
    (position : Nat) → Expr → List String → Except ParseError Expr
  | _, node, [] => .ok node
  | position, node, name :: names =>
    if node.type.isStructural then
      (resolve model node.type name position).bind fun property =>
        followNames model start (position + name.utf8ByteSize + 1)
        (.member ⟨property.type, start⟩ node property)
          names
    else .error (.pathNotStructural position name node.type)

/-- What a path is read as depends on its names only. -/
theorem plain_readPath_tokens (s : Scope) (start position : Nat) (node : Expr)
    (steps : List (PathSeparator × String)) :
    plain (s.readPath start node (PathSeparator.tokens position steps)) =
      (followNames s.model start (position + 1) node (steps.map Prod.snd)).map fun e =>
        (e, []) := by
  induction steps generalizing position node with
  | nil => exact plain_readPath_of_stop (by simp [PathSeparator.tokens])
  | cons step steps ih =>
    obtain ⟨separator, name⟩ := step
    have hseparator : (Token.mk separator.content position separator.text).isPathSeparator =
        true := by
      cases separator <;> rfl
    have hname : plain (s.expect .identifier (⟨.identifier, position + 1, name⟩ ::
        PathSeparator.tokens (position + 1 + name.utf8ByteSize) steps)) =
        .ok (⟨.identifier, position + 1, name⟩, _) := plain_expect_eq_ok_iff.mpr ⟨rfl, rfl⟩
    rw [PathSeparator.tokens, plain_readPath_cons hseparator, hname, List.map_cons, followNames]
    simp only [Except.bind]
    by_cases hstructural : node.type.isStructural = true
    · rw [if_pos hstructural, if_pos hstructural]
      cases resolve s.model node.type name (position + 1) with
      | error e => rfl
      | ok property => exact ih _ _
    · rw [if_neg hstructural, if_neg hstructural]
      rfl

end Scope

section

variable {model : Model} {entityType : EntityType}

/-- Reading a path resolves its first name for the entity type and follows the other ones. -/
theorem parseExpression_path (path : MemberPath) :
    parseExpression model entityType path.text =
      ((Scope.resolve model (.entity entityType.name) path.head 0).bind fun node =>
        Scope.followNames model 0 (path.head.utf8ByteSize + 1) node
          (path.steps.map Prod.snd)).mapError
          .parse := by
  have hunary : (Token.mk .identifier 0 path.head).unaryOperator? = none :=
    Token.unaryOperator?_eq_none_iff.mpr ⟨fun h => path.head_ne_not h.2, TokenKind.noConfusion⟩
  have hopen : ∀ u ∈ (PathSeparator.tokens path.head.utf8ByteSize path.steps).head?,
      u.kind ≠ .openParen := by
    cases path.steps with
    | nil => simp [PathSeparator.tokens]
    | cons step steps =>
      intro u hu
      cases hu
      rcases step with ⟨_ | _, name⟩ <;> exact TokenKind.noConfusion
  rw [parseExpression, readText_eq]
  simp only [path.tokenize_text]
  rw [Scope.readExpression_eq, Scope.plain_readBinary, Scope.plain_readUnary_of_none hunary,
    Scope.plain_readPrimary_path rfl hopen]
  simp only [Scope.plain_readPath_tokens, Scope.root]
  cases Scope.resolve model (.entity entityType.name) path.head 0 with
  | error e => rfl
  | ok node =>
    simp only [Except.bind]
    cases Scope.followNames model 0 (path.head.utf8ByteSize + 1) node (path.steps.map Prod.snd) with
    | error e => rfl
    | ok e =>
      have htail :=
        @Scope.plain_readTail_of_stops ⟨model, entityType, utf8Size path.text.toList⟩ 0 e []
        fun _ ht => by cases ht
      simp only [Except.map, htail, Scope.finish]

/-- A path that is followed to its end leads through declared names. -/
theorem exists_reaches_of_followNames {start position : Nat} {node e : Expr} {names : List String}
    (h : Scope.followNames model start position node names = .ok e) :
    ∃ internals, model.Reaches node.type names internals e.type := by
  induction names generalizing position node with
  | nil =>
    cases h
    exact ⟨[], .here _⟩
  | cons name names ih =>
    rw [Scope.followNames] at h
    split at h
    · rw [bind_eq_ok_iff] at h
      obtain ⟨property, hresolve, hlater⟩ := h
      obtain ⟨ref, type, hnames, rfl⟩ := Scope.resolve_eq_ok_iff.mp hresolve
      obtain ⟨internals, hreaches⟩ := ih hlater
      exact ⟨_, .step (Model.declares_iff.mpr ⟨ref, hnames, rfl⟩) hreaches⟩
    · cases h

/-- Declared names are followed to the type that they lead to, by a path of the store's names. -/
theorem followNames_of_reaches {owner type : ValueType} {names internals : List String}
    (h : model.Reaches owner names internals type) {node : Expr} (hnode : node.type = owner)
    (hpath : node.isPath = true) (start position : Nat) :
    ∃ e, Scope.followNames model start position node names = .ok e ∧ e.type = type ∧
      e.isPath = true ∧
      ∀ qualifier, e.pathText qualifier =
        ".".intercalate (node.pathText qualifier :: internals) := by
  induction h generalizing node position with
  | here type => exact ⟨node, rfl, hnode, hpath, fun qualifier => String.intercalate_singleton.symm⟩
  | @step owner middle type name internal names internals hdeclares _ ih =>
    subst hnode
    obtain ⟨ref, hnames, rfl⟩ := Model.declares_iff.mp hdeclares
    have hresolve : Scope.resolve model node.type name position =
        .ok (.property ⟨middle, position⟩ ref) :=
      Scope.resolve_eq_ok_iff.mpr ⟨ref, middle, hnames, rfl⟩
    obtain ⟨e, hfollow, htype, he, htext⟩ :=
      @ih (.member ⟨middle, start⟩ node (.property ⟨middle, position⟩ ref))
      rfl hpath (position + name.utf8ByteSize + 1)
    refine ⟨e, ?_, htype, he, fun qualifier => ?_⟩
    · rw [Scope.followNames, if_pos hdeclares.isStructural, hresolve]
      exact hfollow
    · rw [htext, Expr.pathText, String.intercalate_cons_append, ← String.intercalate_cons_cons]

/-- A path of names that lead through the model is read, as a path of the store's names. -/
theorem parseExpression_of_reaches {path : MemberPath} {internals : List String} {type : ValueType}
    (h : model.Reaches (.entity entityType.name) path.names internals type) :
    ∃ e, parseExpression model entityType path.text = .ok e ∧ e.type = type ∧ e.isPath = true ∧
      ∀ qualifier, e.pathText qualifier = ".".intercalate (qualifier :: internals) := by
  cases h with
  | @step _ middle _ _ _ _ internals hdeclares hlater =>
    obtain ⟨ref, hnames, rfl⟩ := Model.declares_iff.mp hdeclares
    obtain ⟨e, hfollow, htype, he, htext⟩ := @followNames_of_reaches _ _ _ _ _ hlater
      (.property ⟨middle, 0⟩ ref) rfl rfl 0 (path.head.utf8ByteSize + 1)
    refine ⟨e, ?_, htype, he, fun qualifier => ?_⟩
    · rw [parseExpression_path, mapError_eq_ok_iff, bind_eq_ok_iff]
      exact ⟨_, Scope.resolve_eq_ok_iff.mpr ⟨ref, middle, hnames, rfl⟩, hfollow⟩
    · rw [htext, Expr.pathText, String.intercalate_cons_append, ← String.intercalate_cons_cons]

theorem exists_reaches_of_parseExpression {path : MemberPath} {e : Expr}
    (h : parseExpression model entityType path.text = .ok e) :
    ∃ internals, model.Reaches (.entity entityType.name) path.names internals e.type := by
  rw [parseExpression_path, mapError_eq_ok_iff, bind_eq_ok_iff] at h
  obtain ⟨node, hresolve, hfollow⟩ := h
  obtain ⟨ref, type, hnames, rfl⟩ := Scope.resolve_eq_ok_iff.mp hresolve
  obtain ⟨internals, hlater⟩ := exists_reaches_of_followNames hfollow
  exact ⟨_, .step (Model.declares_iff.mpr ⟨ref, hnames, rfl⟩) hlater⟩

end

/-- The city of the host's address. -/
def hostCity (first second : PathSeparator) : MemberPath where
  head := "host"
  steps := [(first, "address"), (second, "city")]
  isIdentifier :=
    List.all_eq_true.mp (by decide : ["host", "address", "city"].all Text.isIdentifier = true)
  head_ne_not := by decide

end EntityQuery
