import EntityQuery.Proofs.Request.Keys
import Mathlib.Data.List.Nodup
import Mathlib.Data.List.Perm.Subperm

/-!
# Predicates for a whole key

Key predicates address an entity exactly if they give each key property one value that it can hold:
one value without a name where there is one key property, else as many values under as many names of
the key. The order of the predicates does not matter, since the values end up in the order of the
key.
-/

namespace EntityQuery

/-! ### Predicates that fill a key -/

/-- A predicate gives a value to the property that it names, and to any property if it has no
name. -/
def KeyPredicate.IsFor (k : KeyPredicate) (name : String) : Prop :=
  k.property = none ∨ k.property = some name

/-- Predicates that give each name of a key one value. -/
def FillKey (key : List String) (predicates : List KeyPredicate) : Prop :=
  (∃ text, predicates = [⟨none, text⟩] ∧ key.length = 1) ∨
    ((∀ k ∈ predicates, ∃ name ∈ key, k.property = some name) ∧
      (predicates.map KeyPredicate.property).Nodup ∧ predicates.length = key.length)

namespace FillKey

variable {key : List String} {predicates : List KeyPredicate}

theorem length_eq (h : FillKey key predicates) : predicates.length = key.length := by
  obtain ⟨text, rfl, hlength⟩ | ⟨_, _, hlength⟩ := h
  · rw [hlength, List.length_singleton]
  · exact hlength

/-- The predicate for a name is unique. -/
theorem eq_of_isFor (h : FillKey key predicates) {k k' : KeyPredicate} (hk : k ∈ predicates)
    (hk' : k' ∈ predicates) {name : String} (hname : k.IsFor name) (hname' : k'.IsFor name) :
    k = k' := by
  obtain ⟨text, rfl, _⟩ | ⟨hnamed, hdistinct, _⟩ := h
  · rw [List.mem_singleton.mp hk, List.mem_singleton.mp hk']
  · have property_eq {k : KeyPredicate} (hk : k ∈ predicates) (hname : k.IsFor name) :
        k.property = some name := by
      obtain ⟨_, _, hsome⟩ := hnamed k hk
      exact hname.resolve_left (by simp [hsome])
    apply List.inj_on_of_nodup_map hdistinct hk hk'
    rw [property_eq hk hname, property_eq hk' hname']

theorem of_perm (h : FillKey key predicates) {permuted : List KeyPredicate}
    (hperm : predicates.Perm permuted) : FillKey key permuted := by
  obtain ⟨text, rfl, hlength⟩ | ⟨hnamed, hdistinct, hlength⟩ := h
  · exact .inl ⟨text, List.singleton_perm.mp hperm |>.symm, hlength⟩
  · refine .inr ⟨fun k hk => hnamed k (hperm.mem_iff.mpr hk), ?_, ?_⟩
    · exact (hperm.map KeyPredicate.property).nodup_iff.mp hdistinct
    · rw [← hperm.length_eq, hlength]

/-- The names of a key that named predicates fill are distinct: there are no more of them than
predicates. -/
theorem nodup (hnamed : ∀ k ∈ predicates, ∃ name ∈ key, k.property = some name)
    (hdistinct : (predicates.map KeyPredicate.property).Nodup)
    (hlength : predicates.length = key.length) :
    key.Nodup := by
  have hsubset : predicates.map KeyPredicate.property ⊆ key.map some := by
    intro property hproperty
    obtain ⟨k, hk, rfl⟩ := List.mem_map.mp hproperty
    obtain ⟨name, hname, hsome⟩ := hnamed k hk
    exact hsome ▸ List.mem_map_of_mem hname
  have hperm : (predicates.map KeyPredicate.property).Perm (key.map some) := by
    apply (List.subperm_of_subset hdistinct hsubset).perm_of_length_le
    apply Nat.le_of_eq
    rw [List.length_map, List.length_map, hlength]
  exact List.Nodup.of_map some (hperm.nodup_iff.mp hdistinct)

end FillKey

namespace KeySlot

/-- The predicate that a slot was filled by. -/
def predicate? (slot : KeySlot) : Option KeyPredicate :=
  slot.text.map fun text => ⟨some slot.property.name, text⟩

/-- Only the first slot of a name is ever filled. -/
def FirstFilled (slots : List KeySlot) : Prop :=
  slots.Pairwise fun a b => a.property.name = b.property.name → b.text = none

theorem FirstFilled.fill {name text : String} {slots slots' : List KeySlot}
    (hfirst : FirstFilled slots) (h : fill name text slots = .ok slots') : FirstFilled slots' := by
  obtain ⟨before, slot, after, rfl, hbefore, hname, _, rfl⟩ := fill_eq_ok_iff.mp h
  unfold FirstFilled at hfirst ⊢
  rw [List.pairwise_append, List.pairwise_cons] at hfirst ⊢
  obtain ⟨hpairs, hslot, hacross⟩ := hfirst
  refine ⟨hpairs, hslot, fun s hs => List.forall_mem_cons.mpr ⟨fun heq => ?_, fun b hb => ?_⟩⟩
  · exact absurd (heq.trans hname) (hbefore s hs)
  · exact hacross s hs b (List.mem_cons_of_mem slot hb)

/-- Filling a slot adds its predicate to those that the slots were filled by. -/
theorem perm_of_fill {name text : String} {slots slots' : List KeySlot}
    (h : fill name text slots = .ok slots') :
    (slots'.filterMap predicate?).Perm (⟨some name, text⟩ :: slots.filterMap predicate?) := by
  obtain ⟨before, slot, after, rfl, _, hname, hblank, rfl⟩ := fill_eq_ok_iff.mp h
  simp [predicate?, hname, hblank]

/-- What a run over named predicates does to slots. -/
theorem of_fillAll {predicates : List KeyPredicate} {slots slots' : List KeySlot}
    (h : fillAll slots predicates = .ok slots') (hfirst : FirstFilled slots) :
    FirstFilled slots' ∧
      (slots'.filterMap predicate?).Perm (predicates ++ slots.filterMap predicate?) := by
  induction predicates generalizing slots with
  | nil =>
    cases h
    exact ⟨hfirst, .refl _⟩
  | cons k rest ih =>
    obtain ⟨name, text⟩ := k
    cases name with
    | none => cases h
    | some name =>
      rw [fillAll] at h
      split at h
      · cases h
      · next filled hfill =>
        obtain ⟨hfirst', hperm⟩ := ih h (hfirst.fill hfill)
        refine ⟨hfirst', hperm.trans ?_⟩
        exact ((perm_of_fill hfill).append_left rest).trans List.perm_middle

/-- Predicates of distinct names that all have a blank slot find their slots, if no two slots have
one name. -/
theorem exists_fillAll {predicates : List KeyPredicate} {slots : List KeySlot}
    (hslots : (slots.map fun slot => slot.property.name).Nodup)
    (hdistinct : (predicates.map KeyPredicate.property).Nodup)
    (hblank : ∀ k ∈ predicates, ∃ slot ∈ slots, k.property = some slot.property.name ∧
      slot.text = none) :
    ∃ slots', fillAll slots predicates = .ok slots' := by
  induction predicates generalizing slots with
  | nil => exact ⟨slots, rfl⟩
  | cons k rest ih =>
    obtain ⟨⟨slot, hslot, hname, hnone⟩, hrest⟩ := List.forall_mem_cons.mp hblank
    obtain ⟨hother, hothers⟩ := List.nodup_cons.mp hdistinct
    obtain ⟨before, after, rfl⟩ := List.append_of_mem hslot
    have hbefore : ∀ s ∈ before, s.property.name ≠ slot.property.name := by
      rw [List.map_append, List.map_cons, List.nodup_append] at hslots
      intro s hs
      exact hslots.2.2 _ (List.mem_map_of_mem hs) _ List.mem_cons_self
    obtain ⟨property, text⟩ := k
    cases hname
    rw [fillAll, fill_eq_ok_iff.mpr ⟨before, slot, after, rfl, hbefore, rfl, hnone, rfl⟩]
    apply ih _ hothers
    · intro k hk
      obtain ⟨s, hs, hname, hnone⟩ := hrest k hk
      -- The slot just filled is for another name.
      have hne : s ≠ slot := by
        rintro rfl
        exact hother (List.mem_map.mpr ⟨k, hk, hname⟩)
      refine ⟨s, ?_, hname, hnone⟩
      rw [List.mem_append, List.mem_cons] at hs ⊢
      exact hs.imp_right fun h => .inr (h.resolve_left hne)
    · simpa using hslots

section

variable {properties : List Property} {predicates : List KeyPredicate} {slots : List KeySlot}

/-- Predicates are assigned either as one value without a name, or under their names. -/
theorem assign_cases (h : assign properties predicates = .ok slots) :
    (∃ p text, properties = [p] ∧ predicates = [⟨none, text⟩] ∧ slots = [⟨p, some text⟩]) ∨
      (FirstFilled slots ∧ (slots.filterMap predicate?).Perm predicates) := by
  unfold assign at h
  split at h
  · next text =>
    split at h
    · next p =>
      cases h
      exact .inl ⟨p, text, rfl, rfl, rfl⟩
    · cases h
  · have hfirst : FirstFilled (properties.map fun p => ⟨p, none⟩) :=
      List.pairwise_map.mpr (List.pairwise_of_forall fun _ _ _ => rfl)
    have hblank : (properties.map fun p => ⟨p, none⟩).filterMap predicate? = [] := by
      simp [List.filterMap_eq_nil_iff, predicate?]
    obtain ⟨hfirst', hperm⟩ := of_fillAll h hfirst
    rw [hblank, List.append_nil] at hperm
    exact .inr ⟨hfirst', hperm⟩

/-- The text in a slot comes from a predicate for its property. -/
theorem exists_predicate_of_assign (h : assign properties predicates = .ok slots) {slot : KeySlot}
    (hslot : slot ∈ slots) {text : String} (htext : slot.text = some text) :
    ∃ k ∈ predicates, k.IsFor slot.property.name ∧ k.value = text := by
  obtain ⟨p, given, rfl, rfl, rfl⟩ | ⟨_, hperm⟩ := assign_cases h
  · cases List.mem_singleton.mp hslot
    cases htext
    exact ⟨_, List.mem_singleton_self _, .inl rfl, rfl⟩
  · refine ⟨⟨some slot.property.name, text⟩, hperm.mem_iff.mp ?_, .inr rfl, rfl⟩
    exact List.mem_filterMap.mpr ⟨slot, hslot, by rw [predicate?, htext, Option.map_some]⟩

/-- Full slots were filled under their own names. -/
theorem property_predicates (hfull : ∀ slot ∈ slots, ∃ text, slot.text = some text) :
    (slots.filterMap predicate?).map KeyPredicate.property =
      (slots.map fun slot => slot.property.name).map some := by
  induction slots with
  | nil => rfl
  | cons slot rest ih =>
    obtain ⟨⟨text, htext⟩, hrest⟩ := List.forall_mem_cons.mp hfull
    have hslot : slot.predicate? = some ⟨some slot.property.name, text⟩ := by
      rw [predicate?, htext, Option.map_some]
    rw [List.filterMap_cons_some hslot, List.map_cons, ih hrest, List.map_cons, List.map_cons]

/-- No two full slots have one name, since only the first would have been filled. -/
theorem FirstFilled.nodup (hfirst : FirstFilled slots)
    (hfull : ∀ slot ∈ slots, ∃ text, slot.text = some text) :
    (slots.map fun slot => slot.property.name).Nodup := by
  apply List.pairwise_map.mpr
  apply hfirst.imp_of_mem
  intro a b _ hb hblank heq
  obtain ⟨text, htext⟩ := hfull b hb
  exact absurd (hblank heq) (by simp [htext])

/-- Predicates that leave no slot blank fill the key. -/
theorem fillKey_of_assign (h : assign properties predicates = .ok slots)
    (hfull : ∀ slot ∈ slots, ∃ text, slot.text = some text) :
    FillKey (properties.map Property.name) predicates := by
  obtain ⟨hproperties, _⟩ := property_of_assign h
  obtain ⟨p, text, rfl, rfl, rfl⟩ | ⟨hfirst, hperm⟩ := assign_cases h
  · exact .inl ⟨text, rfl, rfl⟩
  · have hnames : (slots.map fun slot => slot.property.name) = properties.map Property.name := by
      rw [← hproperties, List.map_map]
      rfl
    have hgiven : (predicates.map KeyPredicate.property).Perm
        ((properties.map Property.name).map some) := by
      rw [← hnames, ← property_predicates hfull]
      exact (hperm.map KeyPredicate.property).symm
    refine .inr ⟨fun k hk => ?_, ?_, ?_⟩
    · obtain ⟨name, hname, hsome⟩ := List.mem_map.mp (hgiven.mem_iff.mp (List.mem_map_of_mem hk))
      exact ⟨name, hname, hsome.symm⟩
    · rw [hgiven.nodup_iff, ← hnames]
      exact (hfirst.nodup hfull).map fun _ _ => Option.some.inj
    · simpa using hgiven.length_eq

/-- As many predicates as properties leave no slot blank. -/
theorem full_of_assign (h : assign properties predicates = .ok slots)
    (hlength : predicates.length = properties.length) :
    ∀ slot ∈ slots, ∃ text, slot.text = some text := by
  obtain ⟨hproperties, _⟩ := property_of_assign h
  obtain ⟨p, text, rfl, rfl, rfl⟩ | ⟨_, hperm⟩ := assign_cases h
  · simp
  · have hcount : (slots.filterMap predicate?).length = slots.length := by
      rw [hperm.length_eq, hlength, ← hproperties, List.length_map]
    intro slot hslot
    have hfilled := List.filterMap_length_eq_length.mp hcount slot hslot
    rw [predicate?, Option.isSome_map] at hfilled
    exact Option.isSome_iff_exists.mp hfilled

theorem assign_eq_fillAll (hnamed : ∀ k ∈ predicates, ∃ name, k.property = some name) :
    assign properties predicates = fillAll (properties.map fun p => ⟨p, none⟩) predicates := by
  unfold assign
  split
  · obtain ⟨name, hname⟩ := hnamed _ (List.mem_singleton_self _)
    cases hname
  · rfl

/-- Predicates that fill the key are assigned. -/
theorem exists_assign (h : FillKey (properties.map Property.name) predicates) :
    ∃ slots, assign properties predicates = .ok slots := by
  obtain ⟨text, rfl, hlength⟩ | ⟨hnamed, hdistinct, hlength⟩ := h
  · rw [List.length_map, List.length_eq_one_iff] at hlength
    obtain ⟨p, rfl⟩ := hlength
    exact ⟨[⟨p, some text⟩], rfl⟩
  · rw [assign_eq_fillAll fun k hk => (hnamed k hk).imp fun _ => And.right]
    apply exists_fillAll _ hdistinct
    · intro k hk
      obtain ⟨name, hname, hsome⟩ := hnamed k hk
      obtain ⟨p, hp, rfl⟩ := List.mem_map.mp hname
      exact ⟨⟨p, none⟩, List.mem_map_of_mem hp, hsome, rfl⟩
    · rw [List.map_map]
      exact FillKey.nodup hnamed hdistinct hlength

end

end KeySlot

/-! ### Keys of an entity type -/

/-- The key for a name of the key: the property of this name, with the literal of the predicate for
it. -/
structure IsKeyFor (t : EntityType) (predicates : List KeyPredicate) (name : String)
    (key : ResolvedKey) :
    Prop where
  property : t.property? name = some key.property
  literal : ∃ k ∈ predicates, k.IsFor name ∧ IsLiteralText k.value key.value
  canHold : key.property.CanHold key.value

theorem IsKeyFor.of_perm {t : EntityType} {predicates permuted : List KeyPredicate} {name : String}
    {key : ResolvedKey} (h : IsKeyFor t predicates name key) (hperm : predicates.Perm permuted) :
    IsKeyFor t permuted name key := by
  obtain ⟨k, hk, hliteral⟩ := h.literal
  exact ⟨h.property, ⟨k, hperm.mem_iff.mp hk, hliteral⟩, h.canHold⟩

theorem exists_forall₂_iff {α β : Type} {R : α → β → Prop} {as : List α} :
    (∃ bs, List.Forall₂ R as bs) ↔ ∀ a ∈ as, ∃ b, R a b := by
  induction as with
  | nil => simp
  | cons a rest ih =>
    rw [List.forall_mem_cons, ← ih]
    constructor
    · rintro ⟨_, _ | ⟨hab, hrest⟩⟩
      exact ⟨⟨_, hab⟩, _, hrest⟩
    · rintro ⟨⟨b, hab⟩, bs, hrest⟩
      exact ⟨b :: bs, .cons hab hrest⟩

theorem forall₂_trans_of_mem {α β γ : Type} {R : α → β → Prop} {S : β → γ → Prop} {T : α → γ → Prop}
    {as : List α} {bs : List β} {cs : List γ} (hR : List.Forall₂ R as bs)
    (hS : List.Forall₂ S bs cs) (hT : ∀ a ∈ as, ∀ b ∈ bs, ∀ c, R a b → S b c → T a c) :
    List.Forall₂ T as cs := by
  induction hR generalizing cs with
  | nil =>
    cases hS
    exact .nil
  | cons hab _ ih =>
    cases hS with
    | cons hbc hrest =>
      refine .cons (hT _ List.mem_cons_self _ List.mem_cons_self _ hab hbc) (ih hrest ?_)
      intro a ha b hb
      exact hT a (List.mem_cons_of_mem _ ha) b (List.mem_cons_of_mem _ hb)

namespace EntityType

variable {t : EntityType}

theorem name_of_property? {name : String} {p : Property} (h : t.property? name = some p) :
    p.name = name := by
  simpa using List.find?_some h

/-- The key properties are those that the names of the key stand for, where all of them are
declared. -/
theorem forall₂_keyProperties (h : ∀ name ∈ t.key, (t.property? name).isSome = true) :
    List.Forall₂ (fun name p => t.property? name = some p) t.key t.keyProperties := by
  unfold keyProperties
  generalize t.key = key at h
  induction key with
  | nil => exact .nil
  | cons name rest ih =>
    obtain ⟨hname, hrest⟩ := List.forall_mem_cons.mp h
    obtain ⟨p, hp⟩ := Option.isSome_iff_exists.mp hname
    rw [List.filterMap_cons_some hp]
    exact .cons hp (ih hrest)

theorem name_keyProperties (h : ∀ name ∈ t.key, (t.property? name).isSome = true) :
    t.keyProperties.map Property.name = t.key := by
  have hnames : List.Forall₂ (fun name name' => name = name') t.key
      (t.keyProperties.map Property.name) :=
    List.forall₂_map_right_iff.mpr
      ((forall₂_keyProperties h).imp fun _ _ hp => (name_of_property? hp).symm)
  exact (List.forall₂_eq_eq_eq ▸ hnames : t.key = _).symm

end EntityType

section

variable {t : EntityType} {predicates : List KeyPredicate} {keys : List ResolvedKey}

/-- The slots of a key have the properties of its names. -/
theorem forall₂_slots (hdeclared : ∀ name ∈ t.key, (t.property? name).isSome = true)
    {slots : List KeySlot} (h : KeySlot.assign t.keyProperties predicates = .ok slots) :
    List.Forall₂ (fun name slot => t.property? name = some slot.property) t.key slots := by
  have hproperties := EntityType.forall₂_keyProperties hdeclared
  rw [← (KeySlot.property_of_assign h).1] at hproperties
  rw [List.forall₂_map_right_iff] at hproperties
  exact hproperties

/-- Predicates give keys exactly if they fill the key and each key is that of the name in its
place. -/
theorem resolveKeys_eq_ok_iff (hne : predicates ≠ []) :
    resolveKeys t predicates = .ok keys ↔
      FillKey t.key predicates ∧ List.Forall₂ (IsKeyFor t predicates) t.key keys := by
  rw [resolveKeys_eq_ok_iff_assign hne]
  constructor
  · rintro ⟨hdeclared, slots, hslots, hkeys⟩
    have hfull : ∀ slot ∈ slots, ∃ text, slot.text = some text := by
      intro slot hslot
      obtain ⟨key, hkey⟩ := exists_forall₂_iff.mp ⟨keys, hkeys⟩ slot hslot
      obtain ⟨_, _, text, htext, _⟩ := KeySlot.resolve_eq_ok_iff.mp hkey
      exact ⟨text, htext⟩
    have hfill := KeySlot.fillKey_of_assign hslots hfull
    rw [EntityType.name_keyProperties hdeclared] at hfill
    refine ⟨hfill, forall₂_trans_of_mem (forall₂_slots hdeclared hslots) hkeys ?_⟩
    intro name _ slot hslot key hname hkey
    obtain ⟨hproperty, hholds, text, htext, hliteral⟩ := KeySlot.resolve_eq_ok_iff.mp hkey
    obtain ⟨k, hk, hfor, rfl⟩ := KeySlot.exists_predicate_of_assign hslots hslot htext
    rw [EntityType.name_of_property? hname] at hfor
    exact ⟨hproperty ▸ hname, ⟨k, hk, hfor, hliteral⟩, hholds⟩
  · rintro ⟨hfill, hkeys⟩
    have hdeclared : ∀ name ∈ t.key, (t.property? name).isSome = true := by
      intro name hname
      obtain ⟨key, hkey⟩ := exists_forall₂_iff.mp ⟨keys, hkeys⟩ name hname
      rw [hkey.property, Option.isSome_some]
    have hnames := EntityType.name_keyProperties hdeclared
    obtain ⟨slots, hslots⟩ := KeySlot.exists_assign (hnames.symm ▸ hfill)
    have hfull := KeySlot.full_of_assign hslots (by rw [hfill.length_eq, ← hnames, List.length_map])
    refine ⟨hdeclared, slots, hslots,
      forall₂_trans_of_mem (forall₂_slots hdeclared hslots).flip hkeys ?_⟩
    intro slot hslot name _ key hname hkey
    obtain ⟨text, htext⟩ := hfull slot hslot
    obtain ⟨k, hk, hfor, rfl⟩ := KeySlot.exists_predicate_of_assign hslots hslot htext
    obtain ⟨k', hk', hfor', hliteral⟩ := hkey.literal
    rw [EntityType.name_of_property? hname] at hfor
    rw [← hfill.eq_of_isFor hk hk' hfor hfor'] at hliteral
    have hproperty : key.property = slot.property :=
      Option.some.inj (hkey.property.symm.trans hname)
    exact KeySlot.resolve_eq_ok_iff.mpr ⟨hproperty, hkey.canHold, k.value, htext, hliteral⟩

end

/-- Predicates that address an entity of a type by its whole key. -/
structure AddressesKey (t : EntityType) (predicates : List KeyPredicate) : Prop where
  declared : ∀ name ∈ t.key, (t.property? name).isSome = true
  fillKey : FillKey t.key predicates
  values : ∀ name ∈ t.key, ∀ p, t.property? name = some p →
    ∃ k ∈ predicates, k.IsFor name ∧ ∃ l, IsLiteralText k.value l ∧ p.CanHold l

theorem addressesKey_iff {t : EntityType} {predicates : List KeyPredicate} :
    AddressesKey t predicates ↔
      FillKey t.key predicates ∧ ∀ name ∈ t.key, ∃ key, IsKeyFor t predicates name key := by
  constructor
  · rintro ⟨hdeclared, hfill, hvalues⟩
    refine ⟨hfill, fun name hname => ?_⟩
    obtain ⟨p, hp⟩ := Option.isSome_iff_exists.mp (hdeclared name hname)
    obtain ⟨k, hk, hfor, l, hliteral, hholds⟩ := hvalues name hname p hp
    exact ⟨⟨p, l⟩, hp, ⟨k, hk, hfor, hliteral⟩, hholds⟩
  · rintro ⟨hfill, hkeys⟩
    refine ⟨fun name hname => ?_, hfill, fun name hname p hp => ?_⟩
    · obtain ⟨key, hkey⟩ := hkeys name hname
      rw [hkey.property, Option.isSome_some]
    · obtain ⟨⟨property, l⟩, hkey⟩ := hkeys name hname
      cases hp.symm.trans hkey.property
      obtain ⟨k, hk, hfor, hliteral⟩ := hkey.literal
      exact ⟨k, hk, hfor, l, hliteral, hkey.canHold⟩

/-- Predicates give a key exactly if they address the whole key of the type. Each name of the key
then gets the property of this name and the literal of its own predicate, whatever the order of the
predicates. -/
theorem resolveKeys_wholeKey (t : EntityType) (predicates : List KeyPredicate)
    (hne : predicates ≠ []) :
    ((∃ keys, resolveKeys t predicates = .ok keys) ↔ AddressesKey t predicates) ∧
      (∀ keys, resolveKeys t predicates = .ok keys →
        List.Forall₂ (IsKeyFor t predicates) t.key keys) ∧
      ∀ permuted, predicates.Perm permuted → ∀ keys,
        resolveKeys t predicates = .ok keys ↔ resolveKeys t permuted = .ok keys := by
  refine ⟨?_, fun keys h => ((resolveKeys_eq_ok_iff hne).mp h).2, ?_⟩
  · rw [addressesKey_iff, ← exists_forall₂_iff, ← exists_and_left]
    exact exists_congr fun _ => resolveKeys_eq_ok_iff hne
  · intro permuted hperm keys
    have hne' : permuted ≠ [] := fun h => hne (List.perm_nil.mp (h ▸ hperm))
    rw [resolveKeys_eq_ok_iff hne, resolveKeys_eq_ok_iff hne']
    constructor
    · rintro ⟨hfill, hkeys⟩
      exact ⟨hfill.of_perm hperm, hkeys.imp fun _ _ hkey => hkey.of_perm hperm⟩
    · rintro ⟨hfill, hkeys⟩
      exact ⟨hfill.of_perm hperm.symm, hkeys.imp fun _ _ hkey => hkey.of_perm hperm.symm⟩

/-- A seat has a short name and may be outside any hall. -/
def seatType : EntityType where
  name := "Seat"
  mapping := none
  key := ["hall", "seat"]
  properties :=
    [⟨"seat", .simple .string, { Facets.none with maxLength := some 2 }, none⟩,
      ⟨"hall", .simple .int32, Facets.none, some "hallNumber"⟩]
  navigationProperties := []

/-- The name of a seat, as long as it may be, and no hall. -/
def seatPredicates : List KeyPredicate := [⟨some "seat", "'4ß'"⟩, ⟨some "hall", "null"⟩]

theorem resolveKeys_wholeKey_seat :
    ∃ keys, resolveKeys seatType seatPredicates = .ok keys ∧
      keys.map ResolvedKey.value = [.null, .string "4ß"] ∧ AddressesKey seatType seatPredicates ∧
      List.Forall₂ (IsKeyFor seatType seatPredicates) ["hall", "seat"] keys ∧
      resolveKeys seatType seatPredicates.reverse = .ok keys := by
  obtain ⟨hsuccess, hkeys, hperm⟩ :=
    resolveKeys_wholeKey seatType seatPredicates (List.cons_ne_nil _ _)
  obtain ⟨keys, h, hvalues⟩ := @exists_ok_of_any _ _ (resolveKeys seatType seatPredicates)
    (fun keys => keys.map ResolvedKey.value == [.null, .string "4ß"]) (by decide +kernel)
  exact ⟨keys, h, beq_iff_eq.mp hvalues, hsuccess.mp ⟨keys, h⟩, hkeys keys h,
    (hperm _ (List.reverse_perm _).symm keys).mp h⟩

end EntityQuery
