import EntityQuery.Proofs.Statement.Direct

/-!
# Aliases never collide

Valid settings have alias prefixes that consist of letters and differ, case aside. The prefix and
the number can then be told from an alias, and no alias comes twice, in whatever order aliases are
taken from a supply. A statement binds the aliases of such a supply, and each of its joins starts at
an alias that is bound before it.
-/

namespace EntityQuery

/-! ### Numbered texts -/

namespace Text

/-- The small form of a letter is a letter. -/
theorem isAlpha_toLower {c : Char} (h : c.isAlpha = true) : c.toLower.isAlpha = true := by
  unfold Char.toLower
  split
  · next hupper =>
    have hl : 65 ≤ c.toNat := hupper.1
    have hh : c.toNat ≤ 90 := hupper.2
    have hsmall : (c.val + ('a'.val - 'A'.val)).toNat = c.toNat + 32 := by
      rw [UInt32.toNat_add]
      exact Nat.mod_eq_of_lt (show c.toNat + 32 < 4294967296 by omega)
    apply isAlpha_iff.mpr
    right
    show 97 ≤ (c.val + ('a'.val - 'A'.val)).toNat ∧ (c.val + ('a'.val - 'A'.val)).toNat ≤ 122
    omega
  · exact h

theorem toLower_of_isDigit {c : Char} (h : c.isDigit = true) : c.toLower = c := by
  obtain ⟨_, hh⟩ := isDigit_iff.mp h
  have hsmall : ¬ 65 ≤ c.toNat := by omega
  exact dif_neg fun hupper => hsmall hupper.1

theorem isDigit_of_isAlpha {c : Char} (h : c.isAlpha = true) : c.isDigit = false := by
  rw [← Bool.not_eq_true]
  intro hdigit
  rw [isAlpha_of_isDigit hdigit] at h
  cases h

/-- The case of the letters before a number does not concern the number. -/
theorem map_toLower_numbered (letters : String) (n : Nat) :
    (letters ++ n.repr).toList.map Char.toLower = letters.toList.map Char.toLower ++
      n.repr.toList := by
  have hnumber : n.repr.toList.map Char.toLower = n.repr.toList := by
    rw [List.map_congr_left fun c hc => toLower_of_isDigit (isDigit_of_mem_repr hc), List.map_id']
  rw [String.toList_append, List.map_append, hnumber]

section

variable {letters : String}

theorem isAlpha_of_mem_toLower (h : isLetters letters = true) :
    ∀ c ∈ letters.toList.map Char.toLower, c.isAlpha = true := by
  intro c hc
  obtain ⟨d, hd, rfl⟩ := List.mem_map.mp hc
  simp only [isLetters, Bool.and_eq_true, List.all_eq_true] at h
  exact isAlpha_toLower (h.2 d hd)

/-- The letters of a numbered text are those before its number. -/
theorem filter_isAlpha_numbered (h : isLetters letters = true) (n : Nat) :
    ((letters ++ n.repr).toList.map Char.toLower).filter Char.isAlpha =
      letters.toList.map Char.toLower := by
  have hnumber : n.repr.toList.filter Char.isAlpha = [] := by
    apply List.filter_eq_nil_iff.mpr
    intro c hc
    simp [isAlpha_of_isDigit (isDigit_of_mem_repr hc)]
  rw [map_toLower_numbered, List.filter_append, hnumber, List.append_nil]
  exact List.filter_eq_self.mpr (isAlpha_of_mem_toLower h)

/-- The digits of a numbered text are those of its number. -/
theorem filter_isDigit_numbered (h : isLetters letters = true) (n : Nat) :
    ((letters ++ n.repr).toList.map Char.toLower).filter Char.isDigit = n.repr.toList := by
  have hletters : (letters.toList.map Char.toLower).filter Char.isDigit = [] := by
    apply List.filter_eq_nil_iff.mpr
    intro c hc
    simp [isDigit_of_isAlpha (isAlpha_of_mem_toLower h c hc)]
  rw [map_toLower_numbered, List.filter_append, hletters, List.nil_append]
  exact List.filter_eq_self.mpr fun c hc => isDigit_of_mem_repr hc

end

/-- Numbered texts that are equal, case aside, have equal letters and equal numbers. -/
theorem of_equalIgnoringCase_numbered {p q : String} (hp : isLetters p = true)
    (hq : isLetters q = true) {m n : Nat}
    (h : equalIgnoringCase (p ++ m.repr) (q ++ n.repr) = true) :
    equalIgnoringCase p q = true ∧ m = n := by
  have h := beq_iff_eq.mp h
  constructor
  · have hletters := congrArg (List.filter Char.isAlpha) h
    rw [filter_isAlpha_numbered hp, filter_isAlpha_numbered hq] at hletters
    exact beq_iff_eq.mpr hletters
  · have hdigits := congrArg (List.filter Char.isDigit) h
    rw [filter_isDigit_numbered hp, filter_isDigit_numbered hq] at hdigits
    rw [← digitsValue_repr m, hdigits, digitsValue_repr]

/-- The texts differ in more than the case of their letters. -/
def Differ (a b : String) : Prop := equalIgnoringCase a b = false

theorem Differ.symm {a b : String} (h : Differ a b) : Differ b a := by
  rw [Differ, equalIgnoringCase, BEq.comm]
  exact h

end Text

/-! ### Supplies -/

namespace AliasSupply

/-- The next alias of a kind. -/
def next (s : AliasSupply) : AliasKind → String × AliasSupply
  | .entity => s.nextEntity
  | .relationship => s.nextRelationship

/-- The aliases that a supply gives for kinds, one after the other. -/
def draw (s : AliasSupply) : List AliasKind → List String
  | [] => []
  | kind :: rest => (s.next kind).1 :: (s.next kind).2.draw rest

/-- The letters before the numbers of a kind. -/
def letters (s : AliasSupply) : AliasKind → String
  | .entity => s.entityPrefix
  | .relationship => s.relationshipPrefix

/-- How many aliases of a kind are used. -/
def used (s : AliasSupply) : AliasKind → Nat
  | .entity => s.entities
  | .relationship => s.relationships

/-- The prefixes consist of letters, and those of different kinds differ. -/
structure IsSound (s : AliasSupply) : Prop where
  letters (kind : AliasKind) : Text.isLetters (s.letters kind) = true
  differ : Text.Differ s.entityPrefix s.relationshipPrefix

section

variable (s : AliasSupply) (kind : AliasKind)

theorem fst_next : (s.next kind).1 = s.letters kind ++ (s.used kind + 1).repr := by
  cases kind <;> rfl

@[simp]
theorem letters_next (other : AliasKind) : (s.next kind).2.letters other = s.letters other := by
  cases kind <;> cases other <;> rfl

theorem used_next (other : AliasKind) :
    (s.next kind).2.used other = if other = kind then s.used other + 1 else s.used other := by
  cases kind <;> cases other <;> rfl

end

variable {s : AliasSupply}

theorem IsSound.next (h : s.IsSound) (kind : AliasKind) : (s.next kind).2.IsSound := by
  constructor
  · intro other
    rw [letters_next]
    exact h.letters other
  · cases kind <;> exact h.differ

/-- Kinds with equal prefixes, case aside, are the same. -/
theorem IsSound.kind_eq (h : s.IsSound) {kind other : AliasKind}
    (he : Text.equalIgnoringCase (s.letters kind) (s.letters other) = true) : kind = other := by
  cases kind with
  | entity =>
    cases other with
    | entity => rfl
    | relationship => exact Bool.noConfusion (he.symm.trans h.differ)
  | relationship =>
    cases other with
    | entity => exact Bool.noConfusion (he.symm.trans h.differ.symm)
    | relationship => rfl

/-- Every alias that is drawn has a number of its kind that is not used yet. -/
theorem of_mem_draw {kinds : List AliasKind} {drawn : String} (h : drawn ∈ s.draw kinds) :
    ∃ kind n, s.used kind < n ∧ drawn = s.letters kind ++ n.repr := by
  induction kinds generalizing s with
  | nil => cases h
  | cons first rest ih =>
    rcases List.mem_cons.mp h with h | h
    · exact ⟨first, s.used first + 1, Nat.lt_succ_self _, h.trans (s.fst_next first)⟩
    · obtain ⟨kind, n, hn, hdrawn⟩ := ih h
      rw [letters_next] at hdrawn
      rw [used_next] at hn
      exact ⟨kind, n, by split at hn <;> omega, hdrawn⟩

/-- No alias comes twice. -/
theorem IsSound.pairwise_draw (h : s.IsSound) (kinds : List AliasKind) :
    (s.draw kinds).Pairwise Text.Differ := by
  induction kinds generalizing s with
  | nil => exact .nil
  | cons kind rest ih =>
    refine .cons ?_ (ih (h.next kind))
    intro drawn hdrawn
    obtain ⟨other, n, hn, rfl⟩ := of_mem_draw hdrawn
    rw [fst_next, letters_next, Text.Differ, ← Bool.not_eq_true]
    intro hequal
    obtain ⟨hletters, hnumber⟩ :=
      Text.of_equalIgnoringCase_numbered (h.letters kind) (h.letters other) hequal
    obtain rfl := h.kind_eq hletters
    -- The number of the first alias is used from then on.
    rw [used_next, if_pos rfl] at hn
    omega

end AliasSupply

/-- The supply that the settings start with. -/
def Config.supply (config : Config) : AliasSupply :=
  .start config.entityAliasPrefix config.relationshipAliasPrefix

theorem Config.isSound_supply {config : Config} (h : config.validate = .ok ()) :
    config.supply.IsSound := by
  obtain ⟨hentity, hrelationship, hdiffer⟩ := of_validate h
  constructor
  · intro kind
    cases kind with
    | entity => exact hentity
    | relationship => exact hrelationship
  · exact hdiffer

/-! ### Clauses -/

/-- A join follows a relationship from its anchor and binds an alias. -/
structure Join where
  kind : JoinKind
  anchor : String
  relationship : String
  bound : String
  deriving DecidableEq, Repr

/-- What a statement selects from: an entity by an alias, and what the joins bind one after the
other. -/
structure FromClause where
  entity : String
  root : String
  joins : List Join
  deriving DecidableEq, Repr

def Join.text (j : Join) : String :=
  " " ++ j.kind.keyword ++ " " ++ j.anchor ++ "." ++ j.relationship ++ " " ++ j.bound

/-- Each join starts at an alias that is bound before it, where some are bound already. -/
def Join.Anchored (bound : List String) : List Join → Prop
  | [] => True
  | j :: rest => j.anchor ∈ bound ∧ Anchored (j.bound :: bound) rest

namespace FromClause

def text (c : FromClause) : String :=
  c.entity ++ " " ++ c.root ++ String.join (c.joins.map Join.text)

/-- The aliases that the clause binds, in their order. -/
def aliases (c : FromClause) : List String := c.root :: c.joins.map Join.bound

/-- Each join starts at the root or at an alias of a join before it. -/
def IsAnchored (c : FromClause) : Prop := Join.Anchored [c.root] c.joins

end FromClause

/-- The join of a hop, from the alias after `i` hops. -/
def Hop.join (config : Config) (hop : Hop) (i : Nat) : Join :=
  ⟨config.joinKind, config.aliasAt i, hop.navigation.internalName, config.aliasAt (i + 1)⟩

namespace ResolvedRequest

/-- The clause of a request, with one join for each hop. -/
def fromClause (config : Config) (r : ResolvedRequest) : FromClause where
  entity := r.start.internalName
  root := config.aliasAt 0
  joins := r.hops.zipIdx.map fun (hop, i) => hop.join config i

variable (config : Config) (r : ResolvedRequest)

theorem text_fromClause : (r.fromClause config).text = r.source config := by
  rw [FromClause.text, fromClause, List.map_map]
  rfl

theorem isAnchored_fromClause : (r.fromClause config).IsAnchored := by
  have hanchored (hops : List Hop) (n : Nat) {bound : List String} (h : config.aliasAt n ∈ bound) :
      Join.Anchored bound ((hops.zipIdx n).map fun (hop, i) => hop.join config i) := by
    induction hops generalizing n bound with
    | nil => trivial
    | cons hop rest ih => exact ⟨h, ih (n + 1) List.mem_cons_self⟩
  exact hanchored r.hops 0 List.mem_cons_self

@[simp]
theorem length_joins_fromClause : (r.fromClause config).joins.length = r.hops.length := by
  rw [fromClause, List.length_map, List.length_zipIdx]

/-- The aliases of the clause come from the supply: one of an entity, then one for each hop. -/
theorem aliases_fromClause : (r.fromClause config).aliases =
    config.supply.draw (.entity :: List.replicate r.hops.length .relationship) := by
  have hdraw (hops : List Hop) (entities n : Nat) :
      (hops.zipIdx n).map (fun x => config.aliasAt (x.2 + 1)) =
        (AliasSupply.mk config.entityAliasPrefix config.relationshipAliasPrefix entities n).draw
          (List.replicate hops.length .relationship) := by
    induction hops generalizing n with
    | nil => rfl
    | cons hop rest ih =>
      rw [List.zipIdx_cons, List.map_cons, ih (n + 1)]
      rfl
  have hroot : config.entityAliasPrefix ++ (0 + 1).repr = config.aliasAt 0 := rfl
  have hnext : config.supply.next .entity = (config.entityAliasPrefix ++ (0 + 1).repr,
      ⟨config.entityAliasPrefix, config.relationshipAliasPrefix, 1, 0⟩) := rfl
  rw [AliasSupply.draw, hnext, hroot, ← hdraw, FromClause.aliases, fromClause, List.map_map]
  rfl

variable {config r}

/-- The direct text has the clause of the request behind its `FROM`, and then its conditions and
sort keys. -/
theorem exists_texts_of_directStatement {text : String} (h : r.directStatement config = .ok text) :
    ∃ filter sorting, r.filterTexts config = .ok filter ∧ r.sortTexts config = .ok sorting ∧
      text = r.textWith config ((r.keyTests config).map Jpql.text ++ filter) sorting := by
  simp only [directStatement, Bind.bind, bind_eq_ok_iff] at h
  obtain ⟨filter, hfilter, sorting, hsorting, htext⟩ := h
  exact ⟨filter, sorting, hfilter, hsorting, (Except.ok.inj htext).symm⟩

end ResolvedRequest

/-- With valid settings no two aliases of a supply can be taken for each other, case aside. So it is
with those that a statement binds in its `FROM` clause, one for the start and one for each segment
of the path, and each join starts at one that is bound before it. -/
theorem aliases_differ_of_validate (config : Config) (hv : config.validate = .ok ()) :
    (∀ kinds, (config.supply.draw kinds).Pairwise Text.Differ) ∧
    ∀ m request text skip top,
      Compiler.compile ⟨config, hv⟩ m request = .ok (.statement text skip top) →
      ∃ r context filter sorting, m.resolve request = .ok r ∧
        StatementContext.ofRequest? config r = .ok (some context) ∧ context.statement = .ok text ∧
        context.source = .ok (r.fromClause config).text ∧
        r.filterTexts config = .ok filter ∧ r.sortTexts config = .ok sorting ∧
        text = "SELECT " ++ r.selection config ++ " FROM " ++ (r.fromClause config).text ++
          (if ((r.keyTests config).map Jpql.text ++ filter).isEmpty then ""
            else " WHERE " ++ " AND ".intercalate ((r.keyTests config).map Jpql.text ++ filter)) ++
          (if sorting.isEmpty then "" else " ORDER BY " ++ ", ".intercalate sorting) ∧
        (r.fromClause config).joins.length = request.navigation.length ∧
        (r.fromClause config).aliases.Pairwise Text.Differ ∧ (r.fromClause config).IsAnchored := by
  have hsupply := (Config.isSound_supply hv).pairwise_draw
  refine ⟨hsupply, ?_⟩
  intro m request text skip top h
  obtain ⟨r, context, hr, _, hcontext, hstatement⟩ := Compiler.exists_context_of_compile h
  obtain ⟨r', hr', hdirect⟩ := Compiler.directStatement_of_compile h
  obtain rfl : r' = r := Except.ok.inj (hr'.symm.trans hr)
  obtain ⟨filter, sorting, hfilter, hsorting, htext⟩ :=
    ResolvedRequest.exists_texts_of_directStatement hdirect
  refine ⟨r', context, filter, sorting, hr, hcontext, hstatement, ?_, hfilter, hsorting, ?_, ?_, ?_,
    r'.isAnchored_fromClause config⟩
  · rw [r'.text_fromClause config]
    exact StatementContext.source_of_ofRequest? hcontext
  · rw [r'.text_fromClause config]
    exact htext
  · rw [ResolvedRequest.length_joins_fromClause]
    exact Model.length_of_resolveHops (Model.comesFrom_of_resolve hr).hops
  · rw [r'.aliases_fromClause config]
    exact hsupply _

/-- Settings with one prefix that begins like the other, case aside. -/
def nestedPrefixes : Config := { Config.standard with relationshipAliasPrefix := "eE" }

/-- What the statement for the host of a match selects from with these settings. -/
def nestedClause : FromClause :=
  ⟨"TeamEntity", "E1", [⟨.inner, "E1", "hosted", "eE1"⟩, ⟨.inner, "eE1", "host", "eE2"⟩]⟩

/-- The statement for the host of a match with these settings. -/
def nestedStatement : String :=
  "SELECT eE2 FROM TeamEntity E1 JOIN E1.hosted eE1 JOIN eE1.host eE2 " ++
    "WHERE E1.name = 'it''s' AND eE1.id = 7 AND (eE2.name = 'a' OR eE2.address.town = 'b') " ++
    "ORDER BY eE2.address.town DESC, eE2.name ASC"

/-- Two hops from `E1`, over `eE1` to `eE2`. -/
theorem aliases_differ_nestedPrefixes : ∃ hv : nestedPrefixes.validate = .ok (),
    (nestedPrefixes.supply.draw [.relationship, .entity, .entity, .relationship]).Pairwise
      Text.Differ ∧
    Compiler.compile ⟨nestedPrefixes, hv⟩ leagueModel hostRequest =
      .ok (.statement nestedStatement none none) ∧
    (∃ rest, nestedStatement = "SELECT eE2 FROM " ++ nestedClause.text ++ rest) ∧
    nestedClause.aliases = ["E1", "eE1", "eE2"] ∧ nestedClause.aliases.Pairwise Text.Differ ∧
    nestedClause.IsAnchored := by
  obtain ⟨plan, hplan, htest⟩ := @exists_ok_of_any _ _
    (Compiler.compile ⟨nestedPrefixes, rfl⟩ leagueModel hostRequest)
    (fun plan => plan == .statement nestedStatement none none) (by decide +kernel)
  rw [beq_iff_eq.mp htest] at hplan
  obtain ⟨r', hr', hpinned⟩ := @exists_ok_of_any _ _ (leagueModel.resolve hostRequest)
    (fun r => r.fromClause nestedPrefixes == nestedClause && r.selection nestedPrefixes == "eE2")
    (by decide +kernel)
  simp only [Bool.and_eq_true, beq_iff_eq] at hpinned
  obtain ⟨hclause, hselection⟩ := hpinned
  obtain ⟨hsupply, hbound⟩ := aliases_differ_of_validate nestedPrefixes rfl
  obtain ⟨r, context, filter, sorting, hr, _, _, _, _, _, htext, _, hdiffer, hanchored⟩ :=
    hbound leagueModel hostRequest nestedStatement none none hplan
  obtain rfl : r = r' := Except.ok.inj (hr.symm.trans hr')
  rw [hclause] at htext hdiffer hanchored
  rw [hselection, String.append_assoc] at htext
  exact ⟨rfl, hsupply _, hplan, ⟨_, htext⟩, rfl, hdiffer, hanchored⟩

end EntityQuery
