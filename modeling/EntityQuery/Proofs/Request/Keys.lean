import EntityQuery.Proofs.Expr.Steps
import EntityQuery.Proofs.Token.Literals
import EntityQuery.Request.Key
import Mathlib.Data.List.Forall2

/-!
# Keys that predicates give

Where key predicates address an entity, each key property gets one value, in the order of the key,
and all values are well-formed literals. Predicates never give an empty key.
-/

namespace EntityQuery

/-! ### Values of key properties -/

/-- A text that is cut into a literal and nothing else. -/
def IsLiteralText (text : String) (l : Literal) : Prop :=
  ∃ t, tokenize text = .ok [t] ∧ t.content = .literal l

theorem IsLiteralText.isWellFormed {text : String} {l : Literal} (h : IsLiteralText text l) :
    l.value.isWellFormed = true := by
  obtain ⟨t, ht, hcontent⟩ := h
  exact isWellFormed_of_tokenize ht (List.mem_singleton_self t) hcontent

/-- A primitive property can hold null if it is nullable, and any other literal if its type accepts
it and it is not longer than the property allows. -/
def Property.CanHold (p : Property) (l : Literal) : Prop :=
  ∃ type, p.type = .simple type ∧
    ((l.isNull = true ∧ p.facets.isNullable = true) ∨
      (l.isNull = false ∧ type.accepts l.type = true ∧ ∀ maxLength length,
        p.facets.maxLength = some maxLength → l.length? = some length → length ≤ maxLength.toNat))

namespace KeySlot

theorem readLiteral_eq_ok_iff {text : String} {l : Literal} :
    readLiteral text = .ok l ↔ IsLiteralText text l := by
  unfold readLiteral IsLiteralText
  cases tokenize text with
  | error e => simp
  | ok tokens =>
    match tokens with
    | [] => simp
    | [⟨content, position, text⟩] => cases content <;> simp [Token.literal?]
    | _ :: _ :: _ => simp

theorem check_eq_ok_iff {p : Property} {l : Literal} {text : String} :
    check p l text = .ok () ↔ p.CanHold l := by
  unfold check Property.CanHold
  cases p.type with
  | complex name => simp
  | simple type =>
    simp only [PropertyType.simple.injEq, exists_eq_left']
    by_cases hnull : l.isNull = true
    · by_cases hnullable : p.facets.isNullable = true <;> simp [hnull, hnullable]
    · by_cases haccepts : type.accepts l.type = true
      · cases p.facets.maxLength with
        | none => simp [hnull, haccepts]
        | some maxLength =>
          cases l.length? with
          | none => simp [hnull, haccepts]
          | some length => simp [hnull, haccepts]
      · simp [hnull, haccepts]

/-- A slot gives a key exactly if its text is a literal that its property can hold. -/
theorem resolve_eq_ok_iff {slot : KeySlot} {key : ResolvedKey} :
    slot.resolve = .ok key ↔ key.property = slot.property ∧ key.property.CanHold key.value ∧
      ∃ text, slot.text = some text ∧ IsLiteralText text key.value := by
  obtain ⟨property, text⟩ := slot
  cases text with
  | none => simp [resolve]
  | some text =>
    simp only [resolve, Option.some.injEq, exists_eq_left', ← readLiteral_eq_ok_iff]
    cases readLiteral text with
    | error e => simp
    | ok value =>
      rw [map_eq_ok_iff]
      constructor
      · rintro ⟨_, hcheck, rfl⟩
        exact ⟨rfl, check_eq_ok_iff.mp hcheck, rfl⟩
      · rintro ⟨rfl, hholds, hvalue⟩
        cases hvalue
        exact ⟨(), check_eq_ok_iff.mpr hholds, rfl⟩

/-- Slots give keys exactly if each slot gives the key in its place. -/
theorem resolveAll_eq_ok_iff {slots : List KeySlot} {keys : List ResolvedKey} :
    resolveAll slots = .ok keys ↔
      List.Forall₂ (fun slot key => resolve slot = .ok key) slots keys := by
  induction slots generalizing keys with
  | nil => simp [resolveAll, eq_comm]
  | cons slot rest ih =>
    rw [resolveAll, List.forall₂_cons_left_iff]
    cases slot.resolve with
    | error e => simp
    | ok key =>
      rw [map_eq_ok_iff]
      constructor
      · rintro ⟨others, hothers, rfl⟩
        exact ⟨key, others, rfl, ih.mp hothers, rfl⟩
      · rintro ⟨_, others, hkey, hothers, rfl⟩
        cases hkey
        exact ⟨others, ih.mpr hothers, rfl⟩

/-- The keys of slots have their properties and well-formed values. -/
theorem of_forall₂_resolve {slots : List KeySlot} {keys : List ResolvedKey}
    (h : List.Forall₂ (fun slot key => resolve slot = .ok key) slots keys) :
    keys.map ResolvedKey.property = slots.map KeySlot.property ∧
      ∀ key ∈ keys, key.value.value.isWellFormed = true := by
  induction h with
  | nil => exact ⟨rfl, fun _ hk => absurd hk List.not_mem_nil⟩
  | cons hkey _ ih =>
    obtain ⟨hproperty, _, text, _, hliteral⟩ := resolve_eq_ok_iff.mp hkey
    refine ⟨?_, List.forall_mem_cons.mpr ⟨hliteral.isWellFormed, ih.2⟩⟩
    rw [List.map_cons, List.map_cons, hproperty, ih.1]

/-! ### Slots -/

/-- A text goes into the first slot of its name, which must be blank. -/
theorem fill_eq_ok_iff {name text : String} {slots slots' : List KeySlot} :
    fill name text slots = .ok slots' ↔ ∃ before slot after, slots = before ++ slot :: after ∧
      (∀ s ∈ before, s.property.name ≠ name) ∧ slot.property.name = name ∧ slot.text = none ∧
      slots' = before ++ { slot with text := some text } :: after := by
  constructor
  · intro h
    induction slots generalizing slots' with
    | nil => cases h
    | cons slot rest ih =>
      rw [fill] at h
      split at h
      · next hname =>
        split at h
        · next hblank =>
          cases h
          exact ⟨[], slot, rest, rfl, by simp, hname, hblank, rfl⟩
        · cases h
      · next hname =>
        obtain ⟨filled, hrest, rfl⟩ := map_eq_ok_iff.mp h
        obtain ⟨before, found, after, rfl, hbefore, hfound⟩ := ih hrest
        exact ⟨slot :: before, found, after, rfl, List.forall_mem_cons.mpr ⟨hname, hbefore⟩,
          hfound.1, hfound.2.1, by rw [hfound.2.2, List.cons_append]⟩
  · rintro ⟨before, slot, after, rfl, hbefore, hname, hblank, rfl⟩
    induction before with
    | nil => simp [fill, hname, hblank]
    | cons first rest ih =>
      obtain ⟨hfirst, hrest⟩ := List.forall_mem_cons.mp hbefore
      rw [List.cons_append, fill, if_neg hfirst, ih hrest]
      rfl

/-- Filling a slot changes no property, and there must be a slot to fill. -/
private theorem property_of_fill {name text : String} {slots slots' : List KeySlot}
    (h : fill name text slots = .ok slots') :
    slots'.map KeySlot.property = slots.map KeySlot.property ∧ slots ≠ [] := by
  obtain ⟨before, slot, after, rfl, _, _, _, rfl⟩ := fill_eq_ok_iff.mp h
  constructor
  · rw [List.map_append, List.map_append, List.map_cons, List.map_cons]
  · exact List.append_ne_nil_of_right_ne_nil _ (List.cons_ne_nil _ _)

private theorem property_of_fillAll {predicates : List KeyPredicate} {slots slots' : List KeySlot}
    (h : fillAll slots predicates = .ok slots') :
    slots'.map KeySlot.property = slots.map KeySlot.property ∧ (predicates ≠ [] → slots ≠ []) := by
  induction predicates generalizing slots with
  | nil =>
    cases h
    exact ⟨rfl, fun hne => absurd rfl hne⟩
  | cons predicate rest ih =>
    obtain ⟨name, text⟩ := predicate
    cases name with
    | none => cases h
    | some name =>
      rw [fillAll] at h
      split at h
      · cases h
      · next filled hfill =>
        obtain ⟨hproperty, hne⟩ := property_of_fill hfill
        exact ⟨(ih h).1.trans hproperty, fun _ => hne⟩

/-- The slots that predicates fill are those of the key properties, of which there is at least
one. -/
theorem property_of_assign {properties : List Property} {predicates : List KeyPredicate}
    {slots : List KeySlot} (h : assign properties predicates = .ok slots) :
    slots.map KeySlot.property = properties ∧ (predicates ≠ [] → properties ≠ []) := by
  unfold assign at h
  split at h
  · split at h
    · cases h
      exact ⟨rfl, fun _ => List.cons_ne_nil _ _⟩
    · cases h
  · obtain ⟨hproperty, hne⟩ := property_of_fillAll h
    rw [List.map_map] at hproperty
    refine ⟨hproperty.trans (List.map_id' properties), fun hp he => hne hp ?_⟩
    rw [he, List.map_nil]

end KeySlot

/-! ### Keys -/

section

variable {t : EntityType} {predicates : List KeyPredicate} {keys : List ResolvedKey}

/-- Predicates give keys exactly if every name of the key is declared and all slots of its
properties, as the predicates fill them, give their keys. -/
theorem resolveKeys_eq_ok_iff_assign (hne : predicates ≠ []) :
    resolveKeys t predicates = .ok keys ↔ (∀ name ∈ t.key, (t.property? name).isSome = true) ∧
      ∃ slots, KeySlot.assign t.keyProperties predicates = .ok slots ∧
        List.Forall₂ (fun slot key => KeySlot.resolve slot = .ok key) slots keys := by
  have hdeclared : t.keyProperties.length = t.key.length ↔
      ∀ name ∈ t.key, (t.property? name).isSome = true := List.filterMap_length_eq_length
  rw [resolveKeys, if_neg (by simpa using hne), ← hdeclared]
  by_cases hlength : t.keyProperties.length = t.key.length
  · rw [if_neg (not_not_intro hlength)]
    cases KeySlot.assign t.keyProperties predicates with
    | error e => simp
    | ok slots => simp [hlength, KeySlot.resolveAll_eq_ok_iff]
  · simp [hlength]

/-- Predicates give each key property of the type a well-formed value. -/
theorem of_resolveKeys (h : resolveKeys t predicates = .ok keys) (hne : predicates ≠ []) :
    keys.map ResolvedKey.property = t.keyProperties ∧ t.keyProperties ≠ [] ∧
      ∀ key ∈ keys, key.value.value.isWellFormed = true := by
  obtain ⟨_, slots, hslots, hkeys⟩ := (resolveKeys_eq_ok_iff_assign hne).mp h
  obtain ⟨hassigned, hproperties⟩ := KeySlot.property_of_assign hslots
  obtain ⟨hresolved, hvalues⟩ := KeySlot.of_forall₂_resolve hkeys
  exact ⟨hresolved.trans hassigned, hproperties hne, hvalues⟩

/-- The key that predicates give is not empty. -/
theorem ne_nil_of_resolveKeys (h : resolveKeys t predicates = .ok keys) (hne : predicates ≠ []) :
    keys ≠ [] := by
  rintro rfl
  obtain ⟨hproperties, hkey, _⟩ := of_resolveKeys h hne
  exact hkey hproperties.symm

/-- A key has properties of its type and well-formed values. -/
theorem mem_of_resolveKeys (h : resolveKeys t predicates = .ok keys) {key : ResolvedKey}
    (hk : key ∈ keys) : key.property ∈ t.properties ∧ key.value.value.isWellFormed = true := by
  cases predicates with
  | nil =>
    cases h
    cases hk
  | cons predicate rest =>
    obtain ⟨hproperties, _, hvalues⟩ := of_resolveKeys h (List.cons_ne_nil _ _)
    have hmem : key.property ∈ t.keyProperties := hproperties ▸ List.mem_map_of_mem hk
    obtain ⟨name, _, hname⟩ := List.mem_filterMap.mp hmem
    exact ⟨List.mem_of_find?_eq_some hname, hvalues key hk⟩

end

end EntityQuery
