import EntityQuery.Expr.Scope
import EntityQuery.Model.Document

/-!
# Declarations of a model

What a name of an expression finds is declared in the model, so whatever holds of all declarations
holds of it: a condition on the names that the store knows, or that no property has a system type.
The latter holds of every model that was read from a document. There the name of a primitive type
starts with `Edm.`, and no system type has such a name.
-/

namespace EntityQuery

/-! ### What names find -/

namespace Scope

variable {model : Model} {owner : ValueType} {name : String}

/-- A property that a name finds is declared by an entity type or a complex type, under this
name. -/
theorem of_property? {p : Property} (h : property? model owner name = some p) :
    p.name = name ∧ ((∃ t ∈ model.entityTypes, p ∈ t.properties) ∨
      ∃ t ∈ model.complexTypes, p ∈ t.properties) := by
  cases owner with
  | simple t => cases h
  | complex typeName =>
    obtain ⟨t, ht, hp⟩ := Option.bind_eq_some_iff.mp h
    refine ⟨by simpa using List.find?_some hp, .inr ⟨t, List.mem_of_find?_eq_some ht, ?_⟩⟩
    exact List.mem_of_find?_eq_some hp
  | entity typeName =>
    obtain ⟨t, ht, hp⟩ := Option.bind_eq_some_iff.mp h
    refine ⟨by simpa using List.find?_some hp, .inl ⟨t, List.mem_of_find?_eq_some ht, ?_⟩⟩
    exact List.mem_of_find?_eq_some hp

/-- A navigation property that a name finds is declared by an entity type, under this name. -/
theorem of_navigation? {n : NavigationProperty} (h : navigation? model owner name = some n) :
    n.name = name ∧ ∃ t ∈ model.entityTypes, n ∈ t.navigationProperties := by
  cases owner with
  | simple t => cases h
  | complex typeName => cases h
  | entity typeName =>
    obtain ⟨t, ht, hn⟩ := Option.bind_eq_some_iff.mp h
    refine ⟨by simpa using List.find?_some hn, t, List.mem_of_find?_eq_some ht, ?_⟩
    exact List.mem_of_find?_eq_some hn

end Scope

/-! ### Names -/

/-- Whether all names by which the store knows properties and navigation properties pass a test. -/
def Model.allNames (test : String → Bool) (m : Model) : Bool :=
  m.entityTypes.all (fun t => t.properties.all (fun p => test p.internalName) &&
    t.navigationProperties.all fun p => test p.internalName) &&
  m.complexTypes.all fun t => t.properties.all fun p => test p.internalName

namespace Model

variable {m : Model} {test : String → Bool}

theorem allNames_property (h : m.allNames test = true) {t : EntityType} (ht : t ∈ m.entityTypes)
    {p : Property} (hp : p ∈ t.properties) : test p.internalName = true := by
  simp only [allNames, Bool.and_eq_true, List.all_eq_true] at h
  exact (h.1 t ht).1 p hp

theorem allNames_navigation (h : m.allNames test = true) {t : EntityType} (ht : t ∈ m.entityTypes)
    {n : NavigationProperty} (hn : n ∈ t.navigationProperties) : test n.internalName = true := by
  simp only [allNames, Bool.and_eq_true, List.all_eq_true] at h
  exact (h.1 t ht).2 n hn

theorem allNames_complex (h : m.allNames test = true) {t : ComplexType} (ht : t ∈ m.complexTypes)
    {p : Property} (hp : p ∈ t.properties) : test p.internalName = true := by
  simp only [allNames, Bool.and_eq_true, List.all_eq_true] at h
  exact h.2 t ht p hp

end Model

/-! ### Public types -/

/-- A type that a model may declare: any but the system types. -/
def PropertyType.isPublic : PropertyType → Bool
  | .simple t => !t.isSystem
  | .complex _ => true

/-- Whether no property is declared with a system type. -/
def Model.hasPublicTypes (m : Model) : Bool :=
  m.entityTypes.all (fun t => t.properties.all fun p => p.type.isPublic) &&
  m.complexTypes.all fun t => t.properties.all fun p => p.type.isPublic

/-- A property that a name finds is declared with a public type. -/
theorem Model.isPublic_of_property? {m : Model} (h : m.hasPublicTypes = true) {owner : ValueType}
    {name : String} {p : Property} (hp : Scope.property? m owner name = some p) :
    p.type.isPublic = true := by
  simp only [hasPublicTypes, Bool.and_eq_true, List.all_eq_true] at h
  rcases (Scope.of_property? hp).2 with ⟨t, ht, hmem⟩ | ⟨t, ht, hmem⟩
  · exact h.1 t ht p hmem
  · exact h.2 t ht p hmem

/-! ### Documents -/

namespace Json

variable {α : Type} {read : Json → Option α}

private theorem exists_of_each? {vs : List Json} {as : List α} (h : each? read vs = some as) :
    ∀ a ∈ as, ∃ v, read v = some a := by
  induction vs generalizing as with
  | nil =>
    cases h
    exact fun _ ha => absurd ha List.not_mem_nil
  | cons v vs ih =>
    rw [each?] at h
    split at h
    · next a rest hv hrest =>
      cases h
      intro b hb
      rcases List.mem_cons.mp hb with rfl | hb
      · exact ⟨v, hv⟩
      · exact ih hrest b hb
    · cases h

/-- Whatever a list field holds was read from a value. -/
theorem exists_of_defaulted_list {field : Option Json} {as : List α}
    (h : defaulted [] (list? read) field = some as) : ∀ a ∈ as, ∃ v, read v = some a := by
  unfold defaulted at h
  split at h
  · cases h
    exact fun _ ha => absurd ha List.not_mem_nil
  · unfold list? at h
    split at h
    · exact exists_of_each? h
    · cases h

end Json

theorem PropertyType.isPublic_of_ofName? {name : String} {type : PropertyType}
    (h : PropertyType.ofName? name = some type) : type.isPublic = true := by
  unfold PropertyType.ofName? at h
  split at h
  · next hprefix =>
    obtain ⟨t, ht, rfl⟩ := Option.map_eq_some_iff.mp h
    have hname : t.name = name := by simpa using List.find?_some ht
    subst hname
    revert hprefix
    cases t <;> decide
  · cases h
    rfl

/-- The type of a property from a document is the one of a name. -/
theorem Property.exists_name_of_ofJson? {j : Json} {p : Property}
    (h : Property.ofJson? j = some p) :
    ∃ name, PropertyType.ofName? name = some p.type := by
  simp only [Property.ofJson?, Option.bind_eq_bind, Option.bind_eq_some_iff] at h
  obtain ⟨fields, _, h⟩ := h
  split at h
  · simp only [Option.pure_def, Option.some.injEq, Option.bind_eq_some_iff] at h
    obtain ⟨name, _, type, ht, facets, _, mapping, _, rfl⟩ := h
    unfold Json.required at ht
    split at ht
    · cases ht
    · obtain ⟨text, _, htext⟩ := Option.bind_eq_some_iff.mp ht
      exact ⟨text, htext⟩
  · cases h

private theorem Property.isPublic_of_ofJson? {j : Json} {p : Property}
    (h : Property.ofJson? j = some p) : p.type.isPublic = true := by
  obtain ⟨name, hname⟩ := Property.exists_name_of_ofJson? h
  exact PropertyType.isPublic_of_ofName? hname

/-- The properties of an entity type from a document are read from it, too. -/
theorem EntityType.exists_of_mem_properties {j : Json} {t : EntityType}
    (h : EntityType.ofJson? j = some t) {p : Property} (hp : p ∈ t.properties) :
    ∃ v, Property.ofJson? v = some p := by
  simp only [EntityType.ofJson?, Option.bind_eq_bind, Option.bind_eq_some_iff] at h
  obtain ⟨fields, _, h⟩ := h
  split at h
  · simp only [Option.pure_def, Option.some.injEq, Option.bind_eq_some_iff] at h
    obtain ⟨name, _, mapping, _, key, _, properties, hproperties, navigation, _, rfl⟩ := h
    exact Json.exists_of_defaulted_list hproperties p hp
  · cases h

/-- The properties of a complex type from a document are read from it, too. -/
theorem ComplexType.exists_of_mem_properties {j : Json} {t : ComplexType}
    (h : ComplexType.ofJson? j = some t) {p : Property} (hp : p ∈ t.properties) :
    ∃ v, Property.ofJson? v = some p := by
  simp only [ComplexType.ofJson?, Option.bind_eq_bind, Option.bind_eq_some_iff] at h
  obtain ⟨fields, _, h⟩ := h
  split at h
  · simp only [Option.pure_def, Option.some.injEq, Option.bind_eq_some_iff] at h
    obtain ⟨name, _, properties, hproperties, rfl⟩ := h
    exact Json.exists_of_defaulted_list hproperties p hp
  · cases h

/-- The types of a model from a document are read from it, too. -/
theorem Model.exists_of_mem_types {j : Json} {m : Model} (h : Model.ofJson? j = some m) :
    (∀ t ∈ m.entityTypes, ∃ v, EntityType.ofJson? v = some t) ∧
      ∀ t ∈ m.complexTypes, ∃ v, ComplexType.ofJson? v = some t := by
  simp only [Model.ofJson?, Option.bind_eq_bind, Option.bind_eq_some_iff] at h
  obtain ⟨fields, _, h⟩ := h
  split at h
  · simp only [Option.pure_def, Option.some.injEq, Option.bind_eq_some_iff] at h
    obtain ⟨schema, _, sets, _, entities, hentities, complexes, hcomplexes, rfl⟩ := h
    exact ⟨Json.exists_of_defaulted_list hentities, Json.exists_of_defaulted_list hcomplexes⟩
  · cases h

/-- A model that was read from a document declares no system type. -/
theorem Model.hasPublicTypes_of_ofJson? {j : Json} {m : Model} (h : Model.ofJson? j = some m) :
    m.hasPublicTypes = true := by
  obtain ⟨hentities, hcomplexes⟩ := exists_of_mem_types h
  simp only [hasPublicTypes, Bool.and_eq_true, List.all_eq_true]
  constructor
  · intro t ht p hp
    obtain ⟨v, hv⟩ := hentities t ht
    obtain ⟨w, hw⟩ := EntityType.exists_of_mem_properties hv hp
    exact Property.isPublic_of_ofJson? hw
  · intro t ht p hp
    obtain ⟨v, hv⟩ := hcomplexes t ht
    obtain ⟨w, hw⟩ := ComplexType.exists_of_mem_properties hv hp
    exact Property.isPublic_of_ofJson? hw

/-! ### A league -/

/-- A team has its name as key, an address and the matches that it hosts. -/
def teamType : EntityType where
  name := "Team"
  mapping := some "TeamEntity"
  key := ["name"]
  properties :=
    [⟨"name", .simple .string, Facets.none, none⟩,
      ⟨"address", .complex "Address", Facets.none, none⟩]
  navigationProperties := [⟨"matches", "Hosting", "Match", .many, some "hosted"⟩]

/-- A match leads to its host, a team with an address. -/
def leagueModel : Model where
  schema := "League"
  entitySets := [⟨"Matches", "Match"⟩, ⟨"Teams", "Team"⟩]
  entityTypes :=
    [⟨"Match", none, ["id"],
      [⟨"id", .simple .int32, Facets.none, none⟩,
      ⟨"home", .simple .int32, Facets.none, some "goals"⟩],
      [⟨"host", "Hosting", "Team", .one, none⟩]⟩, teamType]
  complexTypes := [⟨"Address", [⟨"city", .simple .string, Facets.none, some "town"⟩]⟩]

end EntityQuery
