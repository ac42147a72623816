import EntityQuery.Config.Document
import EntityQuery.Proofs.Model.Declarations
import EntityQuery.Request.Document

/-!
# Documents that are read back

What was read from a document, however it was written there, is written in one way, and read back
from that it is the same again. Readers accept more than writers write: arrays in place of objects,
members in any order, unknown members, names of values in two forms, null for what is left out. A
field is read back by a lemma for its kind, and a record by the lemma that its fields are found
under their names.
-/

namespace EntityQuery

namespace Json

/-! ### Members and fields -/

/-- The members that are present. -/
private def present (members : List (String × Option Json)) : List (String × Json) :=
  members.filterMap fun (name, value?) => value?.map fun value => (name, value)

private theorem present_cons_none (name : String) (members : List (String × Option Json)) :
    present ((name, none) :: members) = present members := rfl

private theorem present_cons_some (name : String) (value : Json)
    (members : List (String × Option Json)) :
    present ((name, some value) :: members) = (name, value) :: present members := rfl

private theorem mem_of_mem_present {members : List (String × Option Json)} {m : String × Json}
    (h : m ∈ present members) : m.1 ∈ members.map Prod.fst := by
  obtain ⟨⟨name, value?⟩, hmem, hvalue⟩ := List.mem_filterMap.mp h
  obtain ⟨value, _, rfl⟩ := Option.map_eq_some_iff.mp hvalue
  exact List.mem_map_of_mem hmem

private theorem memberCount_eq_zero {name : String} {members : List (String × Option Json)}
    (h : name ∉ members.map Prod.fst) : memberCount name (present members) = 0 := by
  unfold memberCount
  rw [List.length_eq_zero_iff, List.filter_eq_nil_iff]
  intro m hm hname
  exact h (beq_iff_eq.mp hname ▸ mem_of_mem_present hm)

private theorem member?_eq_none {name : String} {members : List (String × Json)}
    (h : ∀ m ∈ members, m.1 ≠ name) : member? name members = none := by
  induction members with
  | nil => rfl
  | cons m ms ih =>
    obtain ⟨hm, hms⟩ := List.forall_mem_cons.mp h
    rw [member?, if_neg hm]
    exact ih hms

variable {members : List (String × Option Json)}

private theorem memberCount_le_one (h : (members.map Prod.fst).Nodup) (name : String) :
    memberCount name (present members) ≤ 1 := by
  induction members with
  | nil => exact Nat.zero_le 1
  | cons m ms ih =>
    obtain ⟨first, value?⟩ := m
    obtain ⟨hfirst, hms⟩ := List.nodup_cons.mp h
    cases value? with
    | none => exact ih hms
    | some value =>
      rw [present_cons_some]
      unfold memberCount
      by_cases hname : first = name
      · have hzero := memberCount_eq_zero (hname ▸ hfirst)
        unfold memberCount at hzero
        rw [List.filter_cons_of_pos (by simp [hname]), List.length_cons]
        exact Nat.le_of_eq (congrArg (· + 1) hzero)
      · rw [List.filter_cons_of_neg (by simp [hname])]
        exact ih hms

private theorem map_member? (h : (members.map Prod.fst).Nodup) :
    (members.map Prod.fst).map (fun name => member? name (present members)) =
      members.map Prod.snd := by
  induction members with
  | nil => rfl
  | cons m ms ih =>
    obtain ⟨first, value?⟩ := m
    obtain ⟨hfirst, hms⟩ := List.nodup_cons.mp h
    have habsent : member? first (present ms) = none :=
      member?_eq_none fun m hm hname => hfirst (hname ▸ mem_of_mem_present hm)
    rw [List.map_cons, List.map_cons, List.map_cons, ← ih hms]
    cases value? with
    | none => rw [present_cons_none, habsent]
    | some value =>
      rw [present_cons_some, member?, if_pos rfl]
      congr 1
      apply List.map_congr_left
      intro name hname
      have hne : first ≠ name := fun heq => hfirst (heq ▸ hname)
      rw [member?, if_neg hne]

/-- The fields of a written record are the values under its names. -/
theorem fields?_ofMembers {names : List String} {values : List (Option Json)}
    (hnames : members.map Prod.fst = names) (hvalues : members.map Prod.snd = values)
    (h : names.Nodup) :
    (ofMembers members).fields? names = some values := by
  subst hnames hvalues
  have hcount : (members.map Prod.fst).all
      (fun name => decide (memberCount name (present members) ≤ 1)) =
      true := by
    rw [List.all_eq_true]
    exact fun name _ => decide_eq_true (memberCount_le_one h name)
  have hobject : ofMembers members = .object (present members) := rfl
  rw [hobject, fields?, if_pos hcount, map_member? h]

/-- The same where every member is present. -/
theorem fields?_object {members : List (String × Json)} {names : List String}
    {values : List (Option Json)} (hnames : members.map Prod.fst = names)
    (hvalues : members.map (some ·.2) = values) (h : names.Nodup) :
    (Json.object members).fields? names = some values := by
  have hobject : Json.object members = ofMembers (members.map fun m => (m.1, some m.2)) := by
    unfold ofMembers
    rw [List.filterMap_map]
    exact congrArg Json.object List.filterMap_some.symm
  rw [hobject]
  apply fields?_ofMembers _ _ h
  · rw [List.map_map]
    exact hnames
  · rw [List.map_map]
    exact hvalues

/-! ### Kinds of fields -/

theorem optional_string (s : Option String) : optional string? (s.map .string) = some s := by
  cases s <;> rfl

theorem optional_bool (b : Option Bool) : optional bool? (b.map .bool) = some b := by
  cases b <;> rfl

theorem uint32?_ofUInt32 (n : UInt32) : uint32? (ofUInt32 n) = some n := by
  have hn : n.toNat ≤ Text.maxUInt32 := Nat.le_of_lt_succ n.toNat_lt
  show (if n.toNat ≤ Text.maxUInt32 then some (UInt32.ofNat n.toNat) else none) = some n
  rw [if_pos hn, UInt32.ofNat_toNat]

theorem optional_uint32 (n : Option UInt32) : optional uint32? (n.map ofUInt32) = some n := by
  cases n with
  | none => rfl
  | some n =>
    show (uint32? (ofUInt32 n)).map some = _
    rw [uint32?_ofUInt32]
    rfl

section

variable {α : Type} {read : Json → Option α} {write : α → Json} {as : List α}

theorem list?_map (h : ∀ a ∈ as, read (write a) = some a) :
    list? read (.array (as.map write)) = some as := by
  show each? read (as.map write) = some as
  induction as with
  | nil => rfl
  | cons a as ih =>
    obtain ⟨ha, has⟩ := List.forall_mem_cons.mp h
    rw [List.map_cons, each?, ha, ih has]

theorem defaulted_map (h : ∀ a ∈ as, read (write a) = some a) :
    defaulted [] (list? read) (some (.array (as.map write))) = some as := list?_map h

/-- A list that is left out where it is empty is read back, too. -/
theorem defaulted_nonEmpty (h : ∀ a ∈ as, read (write a) = some a) :
    defaulted [] (list? read) (nonEmpty (as.map write)) = some as := by
  cases as with
  | nil => rfl
  | cons a as => exact list?_map h

end

theorem string?_string (s : String) : string? (.string s) = some s := rfl

end Json

open Json

/-! ### Requests -/

theorem KeyPredicate.ofJson?_toJson (k : KeyPredicate) : ofJson? k.toJson = some k := by
  have hfields : k.toJson.fields? ["property", "value"] =
      some [k.property.map .string, some (.string k.value)] := fields?_ofMembers rfl rfl (by decide)
  unfold ofJson?
  rw [hfields]
  simp only [Option.bind_eq_bind, Option.bind_some, optional_string]
  rfl

theorem NavigationSegment.ofJson?_toJson (s : NavigationSegment) : ofJson? s.toJson = some s := by
  have hfields : s.toJson.fields? ["property", "keyPredicates"] =
      some [some (.string s.property), nonEmpty (s.keyPredicates.map KeyPredicate.toJson)] :=
    fields?_ofMembers rfl rfl (by decide)
  have hkeys := defaulted_nonEmpty fun k (_ : k ∈ s.keyPredicates) => k.ofJson?_toJson
  unfold ofJson?
  rw [hfields]
  simp only [Option.bind_eq_bind, Option.bind_some, hkeys]
  rfl

theorem Request.ofJson?_toJson (r : Request) : ofJson? r.toJson = some r := by
  have hfields : r.toJson.fields? ["entitySet", "keyPredicates", "navigation", "filter", "orderBy",
      "select", "skip", "top", "count"] =
      some [some (.string r.entitySet), nonEmpty (r.keyPredicates.map KeyPredicate.toJson),
        nonEmpty (r.navigation.map NavigationSegment.toJson), r.filter.map .string,
        r.orderBy.map .string,
        nonEmpty (r.select.map .string), r.skip.map ofUInt32, r.top.map ofUInt32,
        some (.bool r.count)] :=
    fields?_ofMembers rfl rfl (by decide)
  have hkeys := defaulted_nonEmpty fun k (_ : k ∈ r.keyPredicates) => k.ofJson?_toJson
  have hsegments := defaulted_nonEmpty fun s (_ : s ∈ r.navigation) => s.ofJson?_toJson
  have hselect := defaulted_nonEmpty fun s (_ : s ∈ r.select) => string?_string s
  unfold ofJson?
  rw [hfields]
  simp only [Option.bind_eq_bind, Option.bind_some, hkeys, hsegments, hselect, optional_string,
    optional_uint32]
  rfl

/-! ### Configurations -/

theorem JoinKind.ofJson?_name (k : JoinKind) : ofJson? (.string k.name) = some k := by
  cases k <;> rfl

theorem Config.ofJson?_toJson (c : Config) : ofJson? c.toJson = some c := by
  have hfields : c.toJson.fields? fieldNames =
      some [some (.string c.entityAliasPrefix), some (.string c.relationshipAliasPrefix),
        some ((c.maxPageSize.map ofUInt32).getD .null), some (.string c.joinKind.name),
        some (.string c.logLevel)] :=
    fields?_object rfl rfl (by decide)
  have hpage : optional uint32? (some ((c.maxPageSize.map ofUInt32).getD .null)) =
      some c.maxPageSize := by
    cases c.maxPageSize with
    | none => rfl
    | some n => exact optional_uint32 (some n)
  unfold ofJson?
  rw [hfields]
  simp only [Option.bind_eq_bind, Option.bind_some, hpage, required, JoinKind.ofJson?_name]
  rfl

/-! ### Models -/

theorem EntitySet.ofJson?_toJson (s : EntitySet) : ofJson? s.toJson = some s := by
  have hfields : s.toJson.fields? ["name", "entityType"] =
      some [some (.string s.name), some (.string s.entityType)] :=
      fields?_object rfl rfl (by decide)
  unfold ofJson?
  rw [hfields]
  rfl

theorem Facets.ofJson?_toJson (f : Facets) : ofJson? f.toJson = some f := by
  have hfields : f.toJson.fields? ["nullable", "maxLength", "precision", "scale"] =
      some [f.nullable.map .bool, f.maxLength.map ofUInt32, f.precision.map ofUInt32,
      f.scale.map ofUInt32] :=
    fields?_ofMembers rfl rfl (by decide)
  unfold ofJson?
  rw [hfields]
  simp only [Option.bind_eq_bind, Option.bind_some, optional_bool, optional_uint32]
  rfl

/-- The type of a name has this name, whether it starts with `Edm.` or not. -/
theorem PropertyType.text_of_ofName? {name : String} {type : PropertyType}
    (h : ofName? name = some type) :
    type.text = name := by
  unfold ofName? at h
  split at h
  · obtain ⟨t, ht, rfl⟩ := Option.map_eq_some_iff.mp h
    have hname : t.name = name := by simpa using List.find?_some ht
    exact hname
  · cases h
    rfl

/-- A property is read back if its type is the one of its name, as no system type is. -/
theorem Property.ofJson?_toJson {p : Property}
    (h : PropertyType.ofName? p.type.text = some p.type) :
    ofJson? p.toJson = some p := by
  have hfields : p.toJson.fields? ["name", "type", "facets", "mapping"] =
      some [some (.string p.name), some (.string p.type.text), some p.facets.toJson,
      p.mapping.map .string] :=
    fields?_ofMembers rfl rfl (by decide)
  have htype : required PropertyType.ofJson? (some (.string p.type.text)) = some p.type := h
  have hfacets : defaulted Facets.none Facets.ofJson? (some p.facets.toJson) = some p.facets :=
    p.facets.ofJson?_toJson
  unfold ofJson?
  rw [hfields]
  simp only [Option.bind_eq_bind, Option.bind_some, htype, hfacets, optional_string]
  rfl

/-- A property from a document is read back. -/
theorem Property.ofJson?_toJson_of_ofJson? {j : Json} {p : Property} (h : ofJson? j = some p) :
    ofJson? p.toJson = some p := by
  obtain ⟨name, hname⟩ := exists_name_of_ofJson? h
  apply ofJson?_toJson
  rw [PropertyType.text_of_ofName? hname, hname]

theorem Multiplicity.ofJson?_name (m : Multiplicity) : ofJson? (.string m.name) = some m := by
  cases m <;> rfl

theorem NavigationProperty.ofJson?_toJson (p : NavigationProperty) : ofJson? p.toJson = some p := by
  have hfields : p.toJson.fields? ["name", "relationship", "targetType", "multiplicity",
      "mapping"] =
      some [some (.string p.name), some (.string p.relationship), some (.string p.targetType),
        some (.string p.multiplicity.name), p.mapping.map .string] := fields?_ofMembers rfl rfl
          (by decide)
  unfold ofJson?
  rw [hfields]
  simp only [Option.bind_eq_bind, Option.bind_some, required, Multiplicity.ofJson?_name,
    optional_string]
  rfl

/-- An entity type from a document is read back. -/
theorem EntityType.ofJson?_toJson_of_ofJson? {j : Json} {t : EntityType} (h : ofJson? j = some t) :
    ofJson? t.toJson = some t := by
  have hfields : t.toJson.fields? ["name", "mapping", "key", "properties", "navigationProperties"] =
      some [some (.string t.name), t.mapping.map .string, some (ofStrings t.key),
        some (.array (t.properties.map Property.toJson)),
        some (.array (t.navigationProperties.map NavigationProperty.toJson))] :=
    fields?_ofMembers rfl rfl (by decide)
  have hkey : required (list? string?) (some (ofStrings t.key)) = some t.key :=
    list?_map fun s _ => string?_string s
  have hproperties := defaulted_map fun p hp => by
    obtain ⟨v, hv⟩ := exists_of_mem_properties h hp
    exact Property.ofJson?_toJson_of_ofJson? hv
  have hnavigation := defaulted_map fun p (_ : p ∈ t.navigationProperties) => p.ofJson?_toJson
  unfold ofJson?
  rw [hfields]
  simp only [Option.bind_eq_bind, Option.bind_some, optional_string, hkey, hproperties, hnavigation]
  rfl

/-- A complex type from a document is read back. -/
theorem ComplexType.ofJson?_toJson_of_ofJson? {j : Json} {t : ComplexType}
    (h : ofJson? j = some t) :
    ofJson? t.toJson = some t := by
  have hfields : t.toJson.fields? ["name", "properties"] =
      some [some (.string t.name), some (.array (t.properties.map Property.toJson))] :=
    fields?_object rfl rfl (by decide)
  have hproperties := defaulted_map fun p hp => by
    obtain ⟨v, hv⟩ := exists_of_mem_properties h hp
    exact Property.ofJson?_toJson_of_ofJson? hv
  unfold ofJson?
  rw [hfields]
  simp only [Option.bind_eq_bind, Option.bind_some, hproperties]
  rfl

/-- A model from a document is read back. -/
theorem Model.ofJson?_toJson_of_ofJson? {j : Json} {m : Model} (h : ofJson? j = some m) :
    ofJson? m.toJson = some m := by
  have hfields : m.toJson.fields? ["namespace", "entitySets", "entityTypes", "complexTypes"] =
      some [some (.string m.schema), some (.array (m.entitySets.map EntitySet.toJson)),
        some (.array (m.entityTypes.map EntityType.toJson)),
        some (.array (m.complexTypes.map ComplexType.toJson))] := fields?_object rfl rfl (by decide)
  obtain ⟨hentities, hcomplexes⟩ := exists_of_mem_types h
  have hschema : defaulted "" string? (some (.string m.schema)) = some m.schema := rfl
  have hsets := defaulted_map fun s (_ : s ∈ m.entitySets) => s.ofJson?_toJson
  have hentities := defaulted_map fun t ht => by
    obtain ⟨v, hv⟩ := hentities t ht
    exact EntityType.ofJson?_toJson_of_ofJson? hv
  have hcomplexes := defaulted_map fun t ht => by
    obtain ⟨v, hv⟩ := hcomplexes t ht
    exact ComplexType.ofJson?_toJson_of_ofJson? hv
  unfold ofJson?
  rw [hfields]
  simp only [Option.bind_eq_bind, Option.bind_some, hschema, hsets, hentities, hcomplexes]
  rfl

/-! ### All documents -/

/-- A value that is read back from its document, and written there as before. -/
def Json.Survives {α : Type} (read : Json → Option α) (write : α → Json) (a : α) : Prop :=
  ∃ b, read (write a) = some b ∧ b = a ∧ write b = write a

/-- Whatever is read as a model, a request or a configuration survives a round trip. -/
theorem documents_survive (j : Json) :
    (∀ m, Model.ofJson? j = some m → Survives Model.ofJson? Model.toJson m) ∧
    (∀ r, Request.ofJson? j = some r → Survives Request.ofJson? Request.toJson r) ∧
    ∀ c, Config.ofJson? j = some c → Survives Config.ofJson? Config.toJson c := by
  refine ⟨?_, ?_, ?_⟩
  · intro m h
    exact ⟨m, Model.ofJson?_toJson_of_ofJson? h, rfl, rfl⟩
  · intro r _
    exact ⟨r, r.ofJson?_toJson, rfl, rfl⟩
  · intro c _
    exact ⟨c, c.ofJson?_toJson, rfl, rfl⟩

/-- A model with a member that no field has and one type, written as an array: its property has a
complex type that is named like a system type, and its navigation property a multiplicity in its
longer form. -/
def unevenModel : Json :=
  .object [("version", .natural 3), ("entityTypes", .array [.array [.string "Thing", .null,
    .array [.string "id"],
    .array [.object [("type", .string "System.Bit"), ("name", .string "id"),
      ("facets", .array [.null, .natural 8])]],
    .array [.array [.string "whole", .string "Parts", .string "Thing",
      .object [("0..1", .null)]]]]])]

/-- The model that the document says. -/
def thingModel : Model where
  schema := ""
  entitySets := []
  entityTypes := [⟨"Thing", none, ["id"],
    [⟨"id", .complex "System.Bit", ⟨none, some 8, none, none⟩, none⟩],
    [⟨"whole", "Parts", "Thing", .zeroOrOne, none⟩]⟩]
  complexTypes := []

/-- A request as an array, with a null for what it does not say. -/
def unevenRequest : Json :=
  .array [.string "Things", .array [.object [("value", .string "1"), ("property", .null)]],
    .array [], .null]

/-- The request that the document says. -/
def thingRequest : Request where
  entitySet := "Things"
  keyPredicates := [⟨none, "1"⟩]
  navigation := []
  filter := none
  orderBy := none
  select := []
  skip := none
  top := none
  count := false

/-- A configuration without a limit for pages. -/
def unevenConfig : Json :=
  .object [("joinKind", .object [("left", .null)]), ("entityAliasPrefix", .string "E"),
    ("logLevel", .string "info"), ("relationshipAliasPrefix", .string "R")]

theorem documents_survive_uneven :
    (Model.ofJson? unevenModel = some thingModel ∧
      Survives Model.ofJson? Model.toJson thingModel) ∧
    (Request.ofJson? unevenRequest = some thingRequest ∧
      Survives Request.ofJson? Request.toJson thingRequest) ∧
    Config.ofJson? unevenConfig = some ⟨"E", "R", none, .left, "info"⟩ ∧
      Survives Config.ofJson? Config.toJson ⟨"E", "R", none, .left, "info"⟩ := by
  refine ⟨⟨rfl, ?_⟩, ⟨rfl, ?_⟩, rfl, ?_⟩
  · exact (documents_survive unevenModel).1 _ rfl
  · exact (documents_survive unevenRequest).2.1 _ rfl
  · exact (documents_survive unevenConfig).2.2 _ rfl

end EntityQuery
