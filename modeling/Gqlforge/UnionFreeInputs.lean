import Gqlforge.CollectedUnions
import Gqlforge.Expansion

namespace Gqlforge.UnionInputs

open Schema Config SchemaUsage TypeRenames Relation Expansion FuelRecursion

variable {P : Payloads} {config : Config P} {variants : String → Option (List String)}

def withFieldName (field : Config.Field P) (name : String) : Config.Field P :=
  { field with typeOf := field.typeOf.withName name }

def withArgName (arg : Arg P) (name : String) : Arg P :=
  { arg with typeOf := arg.typeOf.withName name }

theorem withFieldName_self (field : Config.Field P) : withFieldName field field.typeOf.name = field := by
  rw [withFieldName, withName_name]

theorem withArgName_self (arg : Arg P) : withArgName arg arg.typeOf.name = arg := by
  rw [withArgName, withName_name]

theorem withName_inj {typeOf : WrappingType} {name other : String}
    (h : typeOf.withName name = typeOf.withName other) : name = other := by
  rw [← AmbiguousTypes.name_withName typeOf name, h, AmbiguousTypes.name_withName]

def putType (entry : String × TypeDef P) (fieldName unionType : String) (i : ℕ) : String × TypeDef P :=
  (entry.1 ++ "__" ++ fieldName ++ toString i, withFieldType entry.2 fieldName unionType)

theorem createTypesFromUnion_eq (name : String) (base : TypeDef P) (fields : List (String × List String)) :
    createTypesFromUnion name base fields = expand putType fields (name, base) := by
  induction fields generalizing name base with
  | nil => rfl
  | cons field rest ih => exact List.flatMap_congr fun entry _ => ih _ _

theorem get?_withFieldType (type : TypeDef P) (fieldName unionType other : String) :
    (withFieldType type fieldName unionType).fields.get? other =
      if other = fieldName then (type.fields.get? fieldName).map fun field => withFieldName field unionType
      else type.fields.get? other := by
  rw [withFieldType]
  cases hfield : type.fields.get? fieldName with
  | none =>
    by_cases heq : other = fieldName
    · rw [if_pos heq, heq, hfield]
      rfl
    · rw [if_neg heq]
  | some field =>
    dsimp only
    rw [Dict.get?_insert]
    rfl

theorem puts_types : Puts id (fun (entry : String × TypeDef P) fieldName => entry.2.fields.get? fieldName)
    (fun _ unionType field => field.map fun field => withFieldName field unionType) putType where
  same entry fieldName unionType i := by
    change (withFieldType entry.2 fieldName unionType).fields.get? fieldName = _
    rw [get?_withFieldType, if_pos rfl]
    rfl
  other entry fieldName unionType i other hne := by
    change (withFieldType entry.2 fieldName unionType).fields.get? other = _
    rw [get?_withFieldType, if_neg (show other ≠ fieldName from hne)]

theorem expand_type_rest (fields : List (String × List String)) {entry last : String × TypeDef P}
    (h : last ∈ expand putType fields entry) :
    last.2 = { entry.2 with fields := last.2.fields } ∧
      ∀ fieldName, last.2.fields.contains fieldName = entry.2.fields.contains fieldName := by
  induction fields generalizing entry with
  | nil =>
    rw [List.mem_singleton.mp h]
    exact ⟨rfl, fun _ => rfl⟩
  | cons field rest ih =>
    obtain ⟨unionType, i, -, hrest⟩ := (mem_expand_cons putType field.1 field.2 rest entry last).mp h
    obtain ⟨hlast, hkeys⟩ := ih hrest
    refine ⟨?_, fun fieldName => ?_⟩
    · rw [hlast]
      change { withFieldType entry.2 field.1 unionType with fields := last.2.fields } = _
      rw [withFieldType]
      split
      · rfl
      · rfl
    · rw [hkeys]
      change ((withFieldType entry.2 field.1 unionType).fields.get? fieldName).isSome = _
      rw [get?_withFieldType]
      split
      next heq => rw [heq, Option.isSome_map]; rfl
      next => rfl

theorem mem_unionFieldsOf (type : TypeDef P) (fieldName : String) (types : List String) :
    (fieldName, types) ∈ unionFieldsOf variants type ↔
      ∃ field, type.fields.get? fieldName = some field ∧ variants field.typeOf.name = some types := by
  rw [unionFieldsOf, List.mem_filterMap]
  constructor
  · rintro ⟨⟨name, field⟩, hmem, heq⟩
    obtain ⟨found, hfound, heq⟩ := Option.map_eq_some_iff.mp heq
    cases heq
    exact ⟨field, (mem_sortedEntries _ _ _).mp hmem, hfound⟩
  · rintro ⟨field, hfield, htypes⟩
    exact ⟨(fieldName, field), (mem_sortedEntries _ _ _).mpr hfield, by dsimp only; rw [htypes]; rfl⟩

theorem nodup_filterMap {α β γ : Type*} (items : List (α × β)) (hn : (items.map Prod.fst).Nodup)
    (f : α × β → Option γ) : ((items.filterMap fun item => (f item).map fun c => (item.1, c)).map Prod.fst).Nodup := by
  refine hn.sublist ?_
  induction items with
  | nil => exact List.Sublist.slnil
  | cons item rest ih =>
    have hrest := ih (List.nodup_cons.mp hn).2
    rw [List.filterMap_cons]
    cases f item with
    | none => exact hrest.cons _
    | some c => exact hrest.cons_cons _

theorem nodup_unionFieldsOf (type : TypeDef P) : (keys id (unionFieldsOf variants type)).Nodup :=
  nodup_filterMap (sortedEntries type.fields)
    (((sortedEntries_perm type.fields).map Prod.fst).nodup_iff.mpr type.fields.nodup)
    fun entry => variants entry.2.typeOf.name

def putArg (entry : String × Config.Field P) (arg : String × Arg P) (type : String) (i : ℕ) : String × Config.Field P :=
  (entry.1 ++ "Var" ++ toString i, { entry.2 with args := entry.2.args.insert arg.1 (withArgName arg.2 type) })

def unionArgs (variants : String → Option (List String)) (args : List (String × Arg P)) :
    List ((String × Arg P) × List String) :=
  args.filterMap fun arg => (variants arg.2.typeOf.name).map fun types => (arg, types)

theorem walkArguments_eq (args : List (String × Arg P)) (name : String) (field : Config.Field P) :
    walkArguments variants args name field = expand putArg (unionArgs variants args) (name, field) := by
  induction args generalizing name field with
  | nil => rfl
  | cons arg rest ih =>
    rw [walkArguments, unionArgs, List.filterMap_cons]
    cases variants arg.2.typeOf.name with
    | none => exact ih name field
    | some types => exact List.flatMap_congr fun entry _ => ih _ _

theorem puts_args : Puts Prod.fst (fun (entry : String × Config.Field P) argName => entry.2.args.get? argName)
    (fun arg type _ => some (withArgName arg.2 type)) putArg where
  same entry arg type i := by
    change (entry.2.args.insert arg.1 _).get? arg.1 = _
    rw [Dict.get?_insert, if_pos rfl]
  other entry arg type i other hne := by
    change (entry.2.args.insert arg.1 _).get? other = _
    rw [Dict.get?_insert, if_neg hne]

theorem mem_unionArgs {args : List (String × Arg P)} {arg : String × Arg P} {types : List String} :
    (arg, types) ∈ unionArgs variants args ↔ arg ∈ args ∧ variants arg.2.typeOf.name = some types := by
  rw [unionArgs, List.mem_filterMap]
  constructor
  · rintro ⟨found, hmem, heq⟩
    obtain ⟨types', htypes, heq⟩ := Option.map_eq_some_iff.mp heq
    cases heq
    exact ⟨hmem, htypes⟩
  · rintro ⟨hmem, htypes⟩
    exact ⟨arg, hmem, by rw [htypes]; rfl⟩

theorem nodup_unionArgs {args : List (String × Arg P)} (hn : (args.map Prod.fst).Nodup) :
    (keys Prod.fst (unionArgs variants args)).Nodup := by
  refine hn.sublist ?_
  clear hn
  induction args with
  | nil => exact List.Sublist.slnil
  | cons arg rest ih =>
    rw [unionArgs, List.filterMap_cons]
    cases variants arg.2.typeOf.name with
    | none => exact ih.cons _
    | some types => exact ih.cons_cons _

theorem expand_arg_rest (args : List ((String × Arg P) × List String)) {entry last : String × Config.Field P}
    (hargs : ∀ arg ∈ args, entry.2.args.contains arg.1.1 = true) (h : last ∈ expand putArg args entry) :
    last.2 = { entry.2 with args := last.2.args } ∧
      ∀ argName, last.2.args.contains argName = entry.2.args.contains argName := by
  induction args generalizing entry with
  | nil =>
    rw [List.mem_singleton.mp h]
    exact ⟨rfl, fun _ => rfl⟩
  | cons arg rest ih =>
    obtain ⟨type, i, -, hrest⟩ := (mem_expand_cons putArg arg.1 arg.2 rest entry last).mp h
    have hput (argName : String) :
        (putArg entry arg.1 type i).2.args.contains argName = entry.2.args.contains argName := by
      change ((entry.2.args.insert arg.1.1 (withArgName arg.1.2 type)).get? argName).isSome = _
      rw [Dict.get?_insert]
      split
      next heq => rw [heq]; exact (hargs arg List.mem_cons_self).symm
      next => rfl
    obtain ⟨hlast, hkeys⟩ := ih (fun other hother => (hput _).trans (hargs other (List.mem_cons_of_mem _ hother))) hrest
    exact ⟨hlast, fun argName => (hkeys argName).trans (hput argName)⟩

def alternatives (variants : String → Option (List String)) (name : String) : List String :=
  (variants name).getD [name]

theorem ArgReached.mentioned {name : String} (h : ArgReached config name) : name ∈ AmbiguousTypes.mentions config := by
  obtain ⟨arg, harg, hpath⟩ := h
  rcases ReflTransGen.cases_tail hpath with rfl | ⟨before, -, hlast⟩
  · exact AmbiguousTypes.mentions_arg harg
  · exact mentions_refers hlast

def Below (config : Config P) (next name : String) : Prop :=
  Refers config name next ∧ HasUnion config next

section Expanding

variable (he : Expandable config variants)

include he

variable {name : String}

omit he in
theorem acc_below
    (hacyclic : ∀ name, ArgReached config name → HasUnion config name → ¬ TransGen (Refers config) name name)
 (hreached : ArgReached config name) : Acc (Below config) name := by
  have hstep (a b : String) (hb : Below config b a) :
      (∃ k : (AmbiguousTypes.mentions config).toFinset, b = k.1) ∨ (fun _ : String => 0) b < (fun _ => 0) a :=
    .inl ⟨⟨b, List.mem_toFinset.mpr (mentions_refers hb.1)⟩, rfl⟩
  have hrefers {a b : String} (h : TransGen (Below config) b a) : TransGen (Refers config) a b := by
    rw [← transGen_swap]
    exact TransGen.mono (fun _ _ hb => hb.1) _ _ h
  refine (acc_iff_no_cycle hstep name).mpr fun k hk hcycle => ?_
  have hreachedK : ArgReached config k.1 := by
    obtain ⟨arg, harg, hpath⟩ := hreached
    refine ⟨arg, harg, hpath.trans ?_⟩
    rcases reflTransGen_iff_eq_or_transGen.mp hk with heq | ht
    · rw [heq]
    · exact (hrefers ht).to_reflTransGen
  obtain ⟨next, hnext, -⟩ := TransGen.head'_iff.mp hcycle
  exact hacyclic k.1 hreachedK hnext.2 (hrefers hcycle)

theorem nodup_alternatives (hreached : ArgReached config name) : (alternatives variants name).Nodup := by
  by_cases hnested : HasUnion config name
  · rw [alternatives, he.settled.nested name hnested hreached]
    cases config.findUnion name with
    | some union => exact nodup_sortedSet _
    | none => exact he.distinct name hreached
  · rw [alternatives, he.settled.plain name hnested]
    exact List.nodup_singleton name

variable {type : TypeDef P}

theorem created_eq (hreached : ArgReached config name) (hnested : HasUnion config name)
    (hunion : config.findUnion name = none) (htype : config.findType name = some type) :
    created config variants name = expand putType (unionFieldsOf variants type) (name, type) := by
  rw [created_of_type variants hunion htype, if_neg, createTypesFromUnion_eq]
  exact fun hempty => (he.settled.no_fields_iff hreached hunion htype).mp hempty hnested

theorem Made.object {typeName name : String} (h : Made config variants typeName name) :
    HasUnion config name ∧ config.findUnion name = none ∧ ∃ type, config.findType name = some type := by
  obtain ⟨hreached, hmem⟩ := h
  rw [created] at hmem
  split at hmem
  next type hunion htype =>
    refine ⟨?_, hunion, type, htype⟩
    by_contra hplain
    rw [if_pos ((he.settled.no_fields_iff hreached hunion htype).mpr hplain)] at hmem
    cases hmem
  next => cases hmem

theorem created_field (hreached : ArgReached config name) (hnested : HasUnion config name)
    (hunion : config.findUnion name = none) (htype : config.findType name = some type)
    {entry : String × TypeDef P} (hentry : entry ∈ created config variants name) {fieldName : String} {field : Config.Field P}
    (hfield : type.fields.get? fieldName = some field) :
    ∃ next ∈ alternatives variants field.typeOf.name,
      entry.2.fields.get? fieldName = some (withFieldName field next) := by
  rw [created_eq he hreached hnested hunion htype] at hentry
  rw [alternatives]
  cases hvariants : variants field.typeOf.name with
  | some types =>
    obtain ⟨next, hnext, hget⟩ := expand_put puts_types _ (nodup_unionFieldsOf type) hentry
      ((mem_unionFieldsOf type fieldName types).mpr ⟨field, hfield, hvariants⟩)
    refine ⟨next, hnext, hget.trans ?_⟩
    change (type.fields.get? fieldName).map _ = _
    rw [hfield]
    rfl
  | none =>
    refine ⟨field.typeOf.name, List.mem_singleton_self _, ?_⟩
    rw [withFieldName_self]
    refine (expand_other puts_types _ hentry fun hmem => ?_).trans hfield
    obtain ⟨⟨found, types⟩, hitem, heq⟩ := List.mem_map.mp hmem
    have hfound : found = fieldName := heq
    subst hfound
    obtain ⟨field', hfield', htypes⟩ := (mem_unionFieldsOf type found types).mp hitem
    cases hfield.symm.trans hfield'
    rw [hvariants] at htypes
    cases htypes

theorem created_exists (hreached : ArgReached config name) (hnested : HasUnion config name)
    (hunion : config.findUnion name = none) (htype : config.findType name = some type)
    (pick : String → String)
    (hpick : ∀ fieldName field, type.fields.get? fieldName = some field →
      pick fieldName ∈ alternatives variants field.typeOf.name) :
    ∃ entry ∈ created config variants name, ∀ fieldName field, type.fields.get? fieldName = some field →
      entry.2.fields.get? fieldName = some (withFieldName field (pick fieldName)) := by
  obtain ⟨entry, hentry, hall⟩ := expand_exists puts_types (unionFieldsOf variants type) (nodup_unionFieldsOf type)
    (name, type) pick fun ⟨fieldName, types⟩ hitem => by
      obtain ⟨field, hfield, htypes⟩ := (mem_unionFieldsOf type fieldName types).mp hitem
      have hmem := hpick fieldName field hfield
      rw [alternatives, htypes] at hmem
      exact hmem
  rw [← created_eq he hreached hnested hunion htype] at hentry
  refine ⟨entry, hentry, fun fieldName field hfield => ?_⟩
  cases hvariants : variants field.typeOf.name with
  | some types =>
    refine (hall (fieldName, types) ((mem_unionFieldsOf type fieldName types).mpr ⟨field, hfield, hvariants⟩)).trans ?_
    change (type.fields.get? fieldName).map _ = _
    rw [hfield]
    rfl
  | none =>
    obtain ⟨next, hnext, hget⟩ := created_field he hreached hnested hunion htype hentry hfield
    have hmem := hpick fieldName field hfield
    rw [alternatives, hvariants] at hmem hnext
    rw [hget, List.mem_singleton.mp hnext, List.mem_singleton.mp hmem]

theorem created_unique (hreached : ArgReached config name) (hnested : HasUnion config name)
    (hunion : config.findUnion name = none) (htype : config.findType name = some type)
    {entry entry' : String × TypeDef P} (hentry : entry ∈ created config variants name)
    (hentry' : entry' ∈ created config variants name)
    (hsame : ∀ fieldName field, type.fields.get? fieldName = some field →
      entry.2.fields.get? fieldName = entry'.2.fields.get? fieldName) : entry = entry' := by
  rw [created_eq he hreached hnested hunion htype] at hentry hentry'
  have hfields {item : String × List String} (hitem : item ∈ unionFieldsOf variants type) :
      ∃ field, type.fields.get? item.1 = some field ∧ variants field.typeOf.name = some item.2 :=
    (mem_unionFieldsOf type item.1 item.2).mp hitem
  have hnodup : ∀ item ∈ unionFieldsOf variants type, item.2.Nodup := by
    intro item hitem
    obtain ⟨field, hfield, htypes⟩ := hfields hitem
    have hnodup := nodup_alternatives he (hreached.step (refers_field hunion htype hfield))
    rw [alternatives, htypes] at hnodup
    exact hnodup
  refine expand_unique puts_types _ (nodup_unionFieldsOf type) hnodup ?_ hentry hentry' ?_
  · intro item hitem next next' heq
    obtain ⟨field, hfield, -⟩ := hfields hitem
    change (type.fields.get? item.1).map _ = (type.fields.get? item.1).map _ at heq
    rw [hfield] at heq
    exact withName_inj (congrArg Config.Field.typeOf (Option.some.inj heq))
  · intro item hitem
    obtain ⟨field, hfield, -⟩ := hfields hitem
    exact hsame item.1 field hfield

end Expanding

theorem get?_of_unionArgs {field : Config.Field P} {item : (String × Arg P) × List String}
    (hitem : item ∈ unionArgs variants field.args.entries) :
    field.args.get? item.1.1 = some item.1.2 ∧ variants item.1.2.typeOf.name = some item.2 := by
  obtain ⟨hmem, htypes⟩ := mem_unionArgs.mp hitem
  exact ⟨(field.args.get?_eq_some_iff _ _).mpr hmem, htypes⟩

theorem mapArgsToFields_shape {fieldName : String} {field : Config.Field P} {entry : String × Config.Field P}
    (hentry : entry ∈ mapArgsToFields variants fieldName field) :
    entry.2 = { field with args := entry.2.args } ∧
      ∀ argName, entry.2.args.contains argName = field.args.contains argName := by
  rw [mapArgsToFields, walkArguments_eq] at hentry
  refine expand_arg_rest _ (fun item hitem => ?_) hentry
  rw [Dict.contains, (get?_of_unionArgs hitem).1]
  rfl

theorem mapArgsToFields_picked {fieldName : String} {field : Config.Field P} {entry : String × Config.Field P}
    (hentry : entry ∈ mapArgsToFields variants fieldName field) {argName : String} {arg : Arg P}
    (harg : field.args.get? argName = some arg) :
    ∃ next ∈ alternatives variants arg.typeOf.name, entry.2.args.get? argName = some (withArgName arg next) := by
  rw [mapArgsToFields, walkArguments_eq] at hentry
  rw [alternatives]
  cases hvariants : variants arg.typeOf.name with
  | some types =>
    have hitem : ((argName, arg), types) ∈ unionArgs variants field.args.entries :=
      mem_unionArgs.mpr ⟨(field.args.get?_eq_some_iff _ _).mp harg, hvariants⟩
    exact expand_put puts_args _ (nodup_unionArgs field.args.nodup) hentry hitem
  | none =>
    refine ⟨arg.typeOf.name, List.mem_singleton_self _, ?_⟩
    rw [withArgName_self]
    refine (expand_other puts_args _ hentry fun hmem => ?_).trans harg
    obtain ⟨item, hitem, heq⟩ := List.mem_map.mp hmem
    obtain ⟨hgetItem, htypes⟩ := get?_of_unionArgs hitem
    cases ((congrArg field.args.get? heq).symm.trans hgetItem).symm.trans harg
    rw [hvariants] at htypes
    cases htypes

/-- The types of the new config are those that were made, and those that were there, with their new fields. -/
def Results (config : Config P) (variants : String → Option (List String)) (types : Dict (TypeDef P)) : Prop :=
  ∀ typeName type', types.get? typeName = some type' ↔
    (∃ name, ArgReached config name ∧ (typeName, type') ∈ created config variants name) ∨
      ∃ type, config.types.get? typeName = some type ∧ type' = mapped variants type

section Standing

variable {types : Dict (TypeDef P)} (he : Expandable config variants) (hr : Results config variants types)

variable {name : String}

theorem choice_plain (h : ¬ HasUnion config name) {concrete : Concrete} :
    Choice config name concrete ↔ concrete = .plain name := by
  constructor
  · intro hchoice
    cases hchoice with
    | plain => rfl
    | member hunion => exact absurd (.union hunion) h
    | object _ _ hnested => exact absurd hnested h
  · rintro rfl
    exact .plain h

theorem picks_of_choices (fields : List (String × Config.Field P)) (hn : (fields.map Prod.fst).Nodup)
    (hfields : ∀ entry ∈ fields, ∀ concrete, Choice config entry.2.typeOf.name concrete →
      ∃ next ∈ alternatives variants entry.2.typeOf.name, Stands config variants types next concrete)
    {chosen : List (String × Concrete)} (h : Choices config fields chosen) :
    ∃ pick : String → String, (∀ entry ∈ fields, pick entry.1 ∈ alternatives variants entry.2.typeOf.name) ∧
      ∀ type' : TypeDef P, (∀ entry ∈ fields,
        type'.fields.get? entry.1 = some (withFieldName entry.2 (pick entry.1))) →
          StandsAll config variants types type' fields chosen := by
  induction fields generalizing chosen with
  | nil =>
    cases h
    exact ⟨id, fun _ hentry => absurd hentry List.not_mem_nil, fun _ _ => .nil⟩
  | cons entry rest ih =>
    have hcons := List.nodup_cons.mp hn
    cases h with
    | @cons fieldName field _ concrete chosen hchoice hrest =>
      obtain ⟨next, hnext, hstands⟩ := hfields (fieldName, field) List.mem_cons_self concrete hchoice
      obtain ⟨pick, hpick, hall⟩ := ih hcons.2 (fun entry hentry => hfields entry (List.mem_cons_of_mem _ hentry)) hrest
      have hother {entry : String × Config.Field P} (hentry : entry ∈ rest) : entry.1 ≠ fieldName := fun heq =>
        hcons.1 (heq ▸ List.mem_map.mpr ⟨entry, hentry, rfl⟩)
      let pick' : String → String := fun name => if name = fieldName then next else pick name
      have hfirst : pick' fieldName = next := if_pos rfl
      have hrest {entry : String × Config.Field P} (hentry : entry ∈ rest) : pick' entry.1 = pick entry.1 :=
        if_neg (hother hentry)
      refine ⟨pick', List.forall_mem_cons.mpr ⟨hfirst.symm ▸ hnext, fun entry hentry => ?_⟩, fun type' hget => ?_⟩
      · rw [hrest hentry]
        exact hpick entry hentry
      · have hgetFirst := hget (fieldName, field) List.mem_cons_self
        rw [hfirst] at hgetFirst
        refine .cons hgetFirst hstands (hall type' fun entry hentry => ?_)
        rw [← hrest hentry]
        exact hget entry (List.mem_cons_of_mem _ hentry)

theorem choices_of_fields (type' : TypeDef P) (fields : List (String × Config.Field P))
    (hfields : ∀ entry ∈ fields, ∃ next concrete, type'.fields.get? entry.1 = some (withFieldName entry.2 next) ∧
      Choice config entry.2.typeOf.name concrete ∧ Stands config variants types next concrete) :
    ∃ chosen, Choices config fields chosen ∧ StandsAll config variants types type' fields chosen := by
  induction fields with
  | nil => exact ⟨[], .nil, .nil⟩
  | cons entry rest ih =>
    obtain ⟨chosen, hchoices, hstands⟩ := ih fun other hother => hfields other (List.mem_cons_of_mem _ hother)
    obtain ⟨next, concrete, hget, hchoice, hstand⟩ := hfields entry List.mem_cons_self
    exact ⟨(entry.1, concrete) :: chosen, .cons hchoice hchoices, .cons hget hstand hstands⟩

include he in
theorem stands_plain (hreached : ArgReached config name) : Stands config variants types name (.plain name) :=
  .plain fun other hmade => he.own name other hmade hreached.mentioned

theorem made_of_created (hreached : ArgReached config name) {entry : String × TypeDef P}
    (hentry : entry ∈ created config variants name) : Made config variants entry.1 name :=
  ⟨hreached, List.mem_map.mpr ⟨entry, hentry, rfl⟩⟩

include he in
theorem plain_stand (hreached : ArgReached config name) (hplain : ¬ HasUnion config name) :
    (∀ concrete, Choice config name concrete →
        ∃ next ∈ alternatives variants name, Stands config variants types next concrete) ∧
      ∀ next ∈ alternatives variants name,
        ∃ concrete, Choice config name concrete ∧ Stands config variants types next concrete := by
  rw [alternatives, he.settled.plain name hplain]
  refine ⟨fun concrete hchoice => ⟨name, List.mem_singleton_self _, ?_⟩, fun next hnext => ?_⟩
  · rw [(choice_plain hplain).mp hchoice]
    exact stands_plain he hreached
  · rw [List.mem_singleton.mp hnext]
    exact ⟨.plain name, (choice_plain hplain).mpr rfl, stands_plain he hreached⟩

variable {typeName : String} {type' : TypeDef P}

include he hr in
theorem created_of_made (hmade : Made config variants typeName name)
    (htype' : types.get? typeName = some type') : (typeName, type') ∈ created config variants name := by
  rcases (hr typeName type').mp htype' with ⟨other, hreached, hmem⟩ | ⟨type, htype, -⟩
  · have hsame := he.apart typeName name other hmade ⟨hreached, List.mem_map.mpr ⟨_, hmem, rfl⟩⟩
    exact hsame ▸ hmem
  · exact absurd (AmbiguousTypes.mentions_of_contains (AmbiguousTypes.contains_of_type htype))
      (he.own typeName name hmade)

include he hr

theorem alternatives_stand (hreached : ArgReached config name) :
    (∀ concrete, Choice config name concrete →
        ∃ next ∈ alternatives variants name, Stands config variants types next concrete) ∧
      ∀ next ∈ alternatives variants name,
        ∃ concrete, Choice config name concrete ∧ Stands config variants types next concrete := by
  have hacc := acc_below he.acyclic hreached
  induction hacc with
  | intro name _ ih =>
    by_cases hnested : HasUnion config name
    · have hnext {next : String} (hrefers : Refers config name next) :
          (∀ concrete, Choice config next concrete →
            ∃ other ∈ alternatives variants next, Stands config variants types other concrete) ∧
          ∀ other ∈ alternatives variants next,
            ∃ concrete, Choice config next concrete ∧ Stands config variants types other concrete := by
        by_cases hbelow : HasUnion config next
        · exact ih next ⟨hrefers, hbelow⟩ (hreached.step hrefers)
        · exact plain_stand he (hreached.step hrefers) hbelow
      have hvariants := he.settled.nested name hnested hreached
      rw [alternatives, hvariants]
      cases hunion : config.findUnion name with
      | some union =>
        have hmember (member : String) (hmember : member ∈ union.types.items) : Refers config name member :=
          .inl ⟨union, hunion, hmember⟩
        have hmem (next : String) : next ∈ unionMembers variants union ↔
            ∃ member ∈ union.types.items, next ∈ alternatives variants member := by
          rw [unionMembers, mem_sortedSet, List.mem_flatMap]
          simp only [mem_sortedSet, alternatives]
        refine ⟨fun concrete hchoice => ?_, fun next hin => ?_⟩
        · cases hchoice with
          | plain hplain => exact absurd hnested hplain
          | member hunion' hmember' hchoice =>
            cases hunion.symm.trans hunion'
            obtain ⟨next, hin, hstands⟩ := (hnext (hmember _ hmember')).1 concrete hchoice
            exact ⟨next, (hmem next).mpr ⟨_, hmember', hin⟩, hstands⟩
          | object hnone => exact absurd (hnone.symm.trans hunion) (Option.some_ne_none _).symm
        · obtain ⟨member, hmember', hin⟩ := (hmem next).mp hin
          obtain ⟨concrete, hchoice, hstands⟩ := (hnext (hmember _ hmember')).2 next hin
          exact ⟨concrete, .member hunion hmember' hchoice, hstands⟩
      | none =>
        obtain ⟨type, htype⟩ : ∃ type, config.findType name = some type := by
          cases hnested with
          | union hsome => exact absurd (hunion.symm.trans hsome) (Option.some_ne_none _).symm
          | field _ htype => exact ⟨_, htype⟩
        have hsorted : ((sortedEntries type.fields).map Prod.fst).Nodup :=
          ((sortedEntries_perm type.fields).map Prod.fst).nodup_iff.mpr type.fields.nodup
        have hfield {entry : String × Config.Field P} (hentry : entry ∈ sortedEntries type.fields) :
            type.fields.get? entry.1 = some entry.2 := (mem_sortedEntries _ _ _).mp hentry
        have hstand {entry : String × TypeDef P} (hentry : entry ∈ created config variants name)
            {chosen : List (String × Concrete)}
            (hall : StandsAll config variants types entry.2 (sortedEntries type.fields) chosen) :
            Stands config variants types entry.1 (.object name chosen) := by
          have hexpand := hentry
          rw [created_eq he hreached hnested hunion htype] at hexpand
          obtain ⟨hrest, hkeys⟩ := expand_type_rest _ hexpand
          exact .object ⟨hreached, List.mem_map.mpr ⟨entry, hentry, rfl⟩⟩ htype
            ((hr entry.1 entry.2).mpr (.inl ⟨name, hreached, hentry⟩)) hrest hkeys hall
        refine ⟨fun concrete hchoice => ?_, fun next hin => ?_⟩
        · cases hchoice with
          | plain hplain => exact absurd hnested hplain
          | member hunion' => exact absurd (hunion.symm.trans hunion') (Option.some_ne_none _).symm
          | @object _ type' chosen _ htype' _ hchoices =>
            cases htype.symm.trans htype'
            obtain ⟨pick, hpick, hall⟩ := picks_of_choices (sortedEntries type.fields) hsorted
              (fun entry hentry => (hnext (refers_field hunion htype (hfield hentry))).1) hchoices
            obtain ⟨entry, hentry, hget⟩ := created_exists he hreached hnested hunion htype pick
              fun fieldName field hget => hpick (fieldName, field) ((mem_sortedEntries _ _ _).mpr hget)
            exact ⟨entry.1, List.mem_map.mpr ⟨entry, hentry, rfl⟩, hstand hentry
              (hall entry.2 fun found hfound => hget found.1 found.2 (hfield hfound))⟩
        · obtain ⟨entry, hentry, rfl⟩ := List.mem_map.mp hin
          obtain ⟨chosen, hchoices, hall⟩ := choices_of_fields entry.2 (sortedEntries type.fields)
            fun found hfound => by
              obtain ⟨next, hnextMem, hget⟩ :=
                created_field he hreached hnested hunion htype hentry (hfield hfound)
              obtain ⟨concrete, hchoice, hstands⟩ :=
                (hnext (refers_field hunion htype (hfield hfound))).2 next hnextMem
              exact ⟨next, concrete, hget, hchoice, hstands⟩
          exact ⟨.object name chosen, .object hunion htype hnested hchoices, hstand hentry hall⟩
    · exact plain_stand he hreached hnested

theorem stands_unique (concrete : Concrete) {typeName' : String} (h : Stands config variants types typeName concrete)
    (h' : Stands config variants types typeName' concrete) : typeName = typeName' := by
  induction hsize : sizeOf concrete using Nat.strong_induction_on generalizing concrete typeName typeName' with
  | _ size ih =>
    cases h with
    | plain => cases h'; rfl
    | @object _ name type type₁ fields hmade htype htype₁ _ _ hfields =>
      cases h' with
      | @object _ _ type' type₂ _ hmade' htype' htype₂ _ _ hfields' =>
        cases htype.symm.trans htype'
        obtain ⟨hnested, hunion, -⟩ := hmade.object he
        have hentry := created_of_made he hr hmade htype₁
        have hentry' := created_of_made he hr hmade' htype₂
        have hfield : ∀ (entries : List (String × Config.Field P)) (chosen : List (String × Concrete)),
            (∀ entry ∈ chosen, sizeOf entry.2 < size) →
            StandsAll config variants types type₁ entries chosen →
            StandsAll config variants types type₂ entries chosen →
              ∀ entry ∈ entries, type₁.fields.get? entry.1 = type₂.fields.get? entry.1 := by
          intro entries
          induction entries with
          | nil => exact fun _ _ _ _ _ hentry => absurd hentry List.not_mem_nil
          | cons entry rest ihRest =>
            intro chosen hless hall hall'
            cases hall with
            | @cons _ fieldName next field _ concrete chosen hget hstands hrest =>
              cases hall' with
              | @cons _ _ next' _ _ _ _ hget' hstands' hrest' =>
                have hsame : next = next' :=
                  ih (sizeOf concrete) (hless (fieldName, concrete) List.mem_cons_self) concrete hstands hstands' rfl
                refine List.forall_mem_cons.mpr ⟨?_, ihRest chosen (fun other hother =>
                  hless other (List.mem_cons_of_mem _ hother)) hrest hrest'⟩
                rw [hget, hget', hsame]
        have hless : ∀ entry ∈ fields, sizeOf entry.2 < size := by
          intro entry hmem
          have hlt := List.sizeOf_lt_of_mem hmem
          have hpair : sizeOf entry = 1 + sizeOf entry.1 + sizeOf entry.2 := by
            obtain ⟨fieldName, concrete⟩ := entry
            rfl
          have hobject : sizeOf (Concrete.object name fields) = 1 + sizeOf name + sizeOf fields :=
            Concrete.object.sizeOf_spec name fields
          omega
        have heq := created_unique he hmade.1 hnested hunion htype hentry hentry'
          fun fieldName field hget =>
            hfield _ fields hless hfields hfields' (fieldName, field) ((mem_sortedEntries _ _ _).mpr hget)
        exact congrArg Prod.fst heq

variable {fieldName : String}

theorem mapArgsToFields_covers {owner : String} {type : TypeDef P} {field : Config.Field P}
    (htype : config.types.get? owner = some type) (hfield : type.fields.get? fieldName = some field) :
    Covers config variants types field (mapArgsToFields variants fieldName field) := by
  have hreached {argName : String} {arg : Arg P} (harg : field.args.get? argName = some arg) :
      ArgReached config arg.typeOf.name :=
    ⟨(argName, arg), AmbiguousTypes.mem_arguments.mpr ⟨owner, type, fieldName, field, htype, hfield, harg⟩, .refl⟩
  have hget {item : (String × Arg P) × List String} (hitem : item ∈ unionArgs variants field.args.entries) :=
    get?_of_unionArgs hitem
  have hnodup : (keys Prod.fst (unionArgs variants field.args.entries)).Nodup := nodup_unionArgs field.args.nodup
  refine ⟨fun entry hentry => ?_, fun choose hchooses => ?_⟩
  · obtain ⟨hrest, hkeys⟩ := mapArgsToFields_shape hentry
    have hall (argName : String) : ∃ concrete, ∀ arg, field.args.get? argName = some arg →
        Choice config arg.typeOf.name concrete ∧ ∃ next,
          entry.2.args.get? argName = some (withArgName arg next) ∧ Stands config variants types next concrete := by
      cases harg : field.args.get? argName with
      | none => exact ⟨.plain argName, fun arg h => nomatch h⟩
      | some arg =>
        obtain ⟨next, hnext, hgetNext⟩ := mapArgsToFields_picked hentry harg
        obtain ⟨concrete, hchoice, hstands⟩ := (alternatives_stand he hr (hreached harg)).2 next hnext
        exact ⟨concrete, fun arg' h => Option.some.inj h ▸ ⟨hchoice, next, hgetNext, hstands⟩⟩
    choose choose hchoose using hall
    exact ⟨choose, fun argName arg harg => (hchoose argName arg harg).1, hrest, hkeys,
      fun argName arg harg => (hchoose argName arg harg).2⟩
  · have hall (argName : String) : ∃ next, ∀ arg, field.args.get? argName = some arg →
        next ∈ alternatives variants arg.typeOf.name ∧ Stands config variants types next (choose argName) := by
      cases harg : field.args.get? argName with
      | none => exact ⟨argName, fun arg h => nomatch h⟩
      | some arg =>
        obtain ⟨next, hnext, hstands⟩ :=
          (alternatives_stand he hr (hreached harg)).1 (choose argName) (hchooses argName arg harg)
        exact ⟨next, fun arg' h => Option.some.inj h ▸ ⟨hnext, hstands⟩⟩
    choose pick hpick using hall
    obtain ⟨entry, hentry, hput⟩ := expand_exists puts_args (unionArgs variants field.args.entries) hnodup
      (fieldName, field) pick fun item hitem => by
        obtain ⟨harg, htypes⟩ := hget hitem
        have hmem := (hpick _ _ harg).1
        rw [alternatives, htypes] at hmem
        exact hmem
    have hmade : entry ∈ mapArgsToFields variants fieldName field := by
      rw [mapArgsToFields, walkArguments_eq]
      exact hentry
    have hpicks : Picks config variants types field choose entry.2 := by
      refine ⟨(mapArgsToFields_shape hmade).1, (mapArgsToFields_shape hmade).2, fun argName arg harg => ?_⟩
      obtain ⟨next, hnext, hgetNext⟩ := mapArgsToFields_picked hmade harg
      obtain ⟨hmem, hstands⟩ := hpick argName arg harg
      refine ⟨pick argName, ?_, hstands⟩
      cases hvariants : variants arg.typeOf.name with
      | some types =>
        have hitem : ((argName, arg), types) ∈ unionArgs variants field.args.entries :=
          mem_unionArgs.mpr ⟨(field.args.get?_eq_some_iff _ _).mp harg, hvariants⟩
        exact hput _ hitem
      | none =>
        rw [alternatives, hvariants] at hmem hnext
        rw [hgetNext, List.mem_singleton.mp hnext, ← List.mem_singleton.mp hmem]
        rfl
    refine ⟨entry, ⟨hmade, hpicks⟩, fun entry' ⟨hmade', hpicks'⟩ => ?_⟩
    have hmem' := hmade'
    rw [mapArgsToFields, walkArguments_eq] at hmem'
    refine expand_unique puts_args _ hnodup (fun item hitem => ?_) (fun item _ next next' heq => ?_) hmem' hentry
      fun item hitem => ?_
    · obtain ⟨harg, htypes⟩ := hget hitem
      have hdistinct := nodup_alternatives he (hreached harg)
      rw [alternatives, htypes] at hdistinct
      exact hdistinct
    · exact withName_inj (congrArg Arg.typeOf (Option.some.inj heq))
    · obtain ⟨harg, -⟩ := hget hitem
      obtain ⟨next, hgetNext, hstands⟩ := hpicks.args _ _ harg
      obtain ⟨next', hgetNext', hstands'⟩ := hpicks'.args _ _ harg
      rw [hgetNext, hgetNext', stands_unique he hr _ hstands hstands']

omit hr in
theorem plain_of_choice (hreached : ArgReached config name)
    (h : Choice config name (.plain typeName)) : ¬ HasUnion config typeName ∧ ArgReached config typeName := by
  have hacc := acc_below he.acyclic hreached
  induction hacc with
  | intro name _ ih =>
    cases h with
    | plain hplain => exact ⟨hplain, hreached⟩
    | @member _ member union _ hunion hmember hchoice =>
      have hrefers : Refers config name member := .inl ⟨union, hunion, hmember⟩
      by_cases hnested : HasUnion config member
      · exact ih member ⟨hrefers, hnested⟩ (hreached.step hrefers) hchoice
      · cases (choice_plain hnested).mp hchoice
        exact ⟨hnested, hreached.step hrefers⟩

def UnionFree (config : Config P) (variants : String → Option (List String)) (typeName : String) : Prop :=
  (∃ name, Made config variants typeName name) ∨ ¬ HasUnion config typeName ∧ ArgReached config typeName

theorem alternatives_unionFree (hreached : ArgReached config name) :
    ∀ next ∈ alternatives variants name, UnionFree config variants next := by
  intro next hnext
  obtain ⟨concrete, hchoice, hstands⟩ := (alternatives_stand he hr hreached).2 next hnext
  cases hstands with
  | plain => exact .inr (plain_of_choice he hreached hchoice)
  | object hmade => exact .inl ⟨_, hmade⟩

omit hr in
theorem UnionFree.findUnion (h : UnionFree config variants typeName) : config.findUnion typeName = none := by
  rw [Option.eq_none_iff_forall_ne_some]
  intro union hunion
  rcases h with ⟨name, hmade⟩ | ⟨hplain, -⟩
  · exact he.own typeName name hmade
      (AmbiguousTypes.mentions_of_contains (AmbiguousTypes.contains_of_union hunion))
  · exact hplain (.union hunion)

variable {field' : Config.Field P}

theorem made_field (hmade : Made config variants typeName name) (htype' : types.get? typeName = some type')
    (hfield' : type'.fields.get? fieldName = some field') :
    ∃ type field next, config.findType name = some type ∧ type.fields.get? fieldName = some field ∧
      next ∈ alternatives variants field.typeOf.name ∧ field' = withFieldName field next := by
  obtain ⟨hnested, hunion, type, htype⟩ := hmade.object he
  have hentry := created_of_made he hr hmade htype'
  have hexpand := hentry
  rw [created_eq he hmade.1 hnested hunion htype] at hexpand
  obtain ⟨-, hkeys⟩ := expand_type_rest _ hexpand
  have hcontains : type.fields.contains fieldName = true := by
    rw [← hkeys, Dict.contains, hfield']
    rfl
  obtain ⟨field, hfield⟩ := Option.isSome_iff_exists.mp hcontains
  obtain ⟨next, hnext, hget⟩ := created_field he hmade.1 hnested hunion htype hentry hfield
  exact ⟨type, field, next, htype, hfield, hnext, Option.some.inj (hfield'.symm.trans hget)⟩

omit he hr in
theorem mapped_field {type : TypeDef P} (hfield' : (mapped variants type).fields.get? fieldName = some field') :
    ∃ name field, type.fields.get? name = some field ∧ (fieldName, field') ∈ mapArgsToFields variants name field := by
  have hmem := Dict.mem_ofEntries _ _ ((Dict.get?_eq_some_iff _ _ _).mp hfield')
  obtain ⟨⟨name, field⟩, hentry, hmade⟩ := List.mem_flatMap.mp hmem
  exact ⟨name, field, (mem_sortedEntries _ _ _).mp hentry, hmade⟩

theorem UnionFree.field {typeName : String} (h : UnionFree config variants typeName) {type' : TypeDef P}
    (htype' : types.get? typeName = some type') {fieldName : String} {field' : Config.Field P}
    (hfield' : type'.fields.get? fieldName = some field') : UnionFree config variants field'.typeOf.name := by
  rcases h with ⟨name, hmade⟩ | ⟨hplain, hreached⟩
  · obtain ⟨type, field, next, htype, hfield, hnext, rfl⟩ := made_field he hr hmade htype' hfield'
    obtain ⟨-, hunion, -⟩ := hmade.object he
    rw [withFieldName, AmbiguousTypes.name_withName]
    exact alternatives_unionFree he hr (hmade.1.step (refers_field hunion htype hfield)) next hnext
  · have hunion : config.findUnion typeName = none := UnionFree.findUnion he (.inr ⟨hplain, hreached⟩)
    rcases (hr typeName type').mp htype' with ⟨name, hname, hmem⟩ | ⟨type, htype, rfl⟩
    · exact absurd hreached.mentioned (he.own typeName name (made_of_created hname hmem))
    · obtain ⟨name, field, hfield, hmade⟩ := mapped_field hfield'
      have hshape : field' = { field with args := field'.args } := (mapArgsToFields_shape hmade).1
      have htypeOf : field'.typeOf = field.typeOf := by rw [hshape]
      rw [htypeOf]
      exact .inr ⟨fun hnested => hplain (.field hunion htype hfield hnested),
        hreached.step (refers_field hunion htype hfield)⟩

theorem argument_unionFree (htype' : types.get? typeName = some type')
 (hfield' : type'.fields.get? fieldName = some field') {argName : String}
    {arg' : Arg P} (harg' : field'.args.get? argName = some arg') : UnionFree config variants arg'.typeOf.name := by
  rcases (hr typeName type').mp htype' with ⟨name, hname, hmem⟩ | ⟨type, htype, rfl⟩
  · have hmade : Made config variants typeName name := made_of_created hname hmem
    obtain ⟨hnested, hunion, -⟩ := hmade.object he
    obtain ⟨type, field, next, htype, hfield, -, rfl⟩ := made_field he hr hmade htype' hfield'
    have hvalue := (field.args.mem_values_iff arg').mpr ⟨argName, harg'⟩
    exact .inr ⟨he.clean name type hname hnested hunion htype field
      ((type.fields.mem_values_iff field).mpr ⟨fieldName, hfield⟩) arg' hvalue,
      (argName, arg'), AmbiguousTypes.mem_arguments.mpr ⟨name, type, fieldName, field, htype, hfield, harg'⟩, .refl⟩
  · obtain ⟨name, field, hfield, hmade⟩ := mapped_field hfield'
    have hcontains : field.args.contains argName = true := by
      rw [← (mapArgsToFields_shape hmade).2, Dict.contains, harg']
      rfl
    obtain ⟨arg, harg⟩ := Option.isSome_iff_exists.mp hcontains
    obtain ⟨next, hnext, hget⟩ := mapArgsToFields_picked hmade harg
    rw [Option.some.inj (harg'.symm.trans hget), withArgName, AmbiguousTypes.name_withName]
    have hargument : (argName, arg) ∈ config.arguments :=
      AmbiguousTypes.mem_arguments.mpr ⟨typeName, type, name, field, htype, hfield, harg⟩
    exact alternatives_unionFree he hr ⟨(argName, arg), hargument, .refl⟩ next hnext

theorem leads_unionFree {typeOf last : WrappingType} {path : List AmbiguousTypes.PathStep}
    (hl : AmbiguousTypes.Leads { config with types := types } typeOf path last)
    (h : UnionFree config variants typeOf.name) : UnionFree config variants last.name := by
  induction hl with
  | here => exact h
  | field _ htype hfield _ ih => exact ih (h.field he hr htype hfield)
  | member _ hunion => exact absurd ((h.findUnion he).symm.trans hunion) (Option.some_ne_none _).symm

def madeFields (variants : String → Option (List String)) (type : TypeDef P) (fieldName : String) :
    List (String × Config.Field P) :=
  match type.fields.get? fieldName with
  | some field => mapArgsToFields variants fieldName field
  | none => []

theorem expanded : Expanded config variants { config with types := types } where
  rest := rfl
  unionFree name h := by
    obtain ⟨⟨argName, arg⟩, harg, path, last, hl, rfl⟩ := h
    obtain ⟨typeName, type, fieldName, field, htype, hfield, harg⟩ := AmbiguousTypes.mem_arguments.mp harg
    exact (leads_unionFree he hr hl (argument_unionFree he hr htype hfield harg)).findUnion he
  types name := by
    rw [Dict.contains, Option.isSome_iff_exists]
    constructor
    · rintro ⟨type', htype'⟩
      rcases (hr name type').mp htype' with ⟨other, hother, hmem⟩ | ⟨type, htype, -⟩
      · exact .inr ⟨other, made_of_created hother hmem⟩
      · exact .inl (by rw [Dict.contains, htype]; rfl)
    · rintro (hcontains | ⟨other, hreached, hmem⟩)
      · obtain ⟨type, htype⟩ := Option.isSome_iff_exists.mp hcontains
        exact ⟨_, (hr name _).mpr (.inr ⟨type, htype, rfl⟩)⟩
      · obtain ⟨entry, hentry, rfl⟩ := List.mem_map.mp hmem
        exact ⟨entry.2, (hr entry.1 entry.2).mpr (.inl ⟨other, hreached, hentry⟩)⟩
  own name other hmade := by
    rw [← Bool.not_eq_true]
    exact fun hcontains => he.own name other hmade (AmbiguousTypes.mentions_of_contains hcontains)
  fields name type htype := by
    have hmade {fieldName : String} {field : Config.Field P} (hfield : type.fields.get? fieldName = some field) :
        madeFields variants type fieldName = mapArgsToFields variants fieldName field := by
      rw [madeFields, hfield]
    refine ⟨mapped variants type, madeFields variants type, (hr name _).mpr (.inr ⟨type, htype, rfl⟩), rfl, ?_,
      fun fieldName field hfield => hmade hfield ▸ mapArgsToFields_covers he hr htype hfield⟩
    have hentries : (mapped variants type).fields.entries = mappedFields variants type := by
      rw [mapped, Dict.ofEntries_eq _ (he.fields type ((config.types.mem_values_iff type).mpr ⟨name, htype⟩))]
    have hkeys : type.fields.keys.flatMap (madeFields variants type) =
        type.fields.entries.flatMap fun entry => mapArgsToFields variants entry.1 entry.2 := by
      rw [Dict.keys, List.flatMap_map]
      exact List.flatMap_congr fun entry hentry => hmade ((type.fields.get?_eq_some_iff _ _).mpr hentry)
    rw [hentries, hkeys]
    exact (sortedEntries_perm type.fields).flatMap_right _

end Standing

/-- Where the names do not clash and no type with nested unions contains itself, the transform returns, and what it
returns has no unions in its inputs. -/
theorem transform_expands (config : Config P) (variants : String → Option (List String))
    (he : Expandable config variants) : ∃ fuel result,
      (∀ more, fuel ≤ more → transform config more = some result) ∧ Expanded config variants result := by
  obtain ⟨fuel, types, htypes⟩ := visit_returns he
  refine ⟨fuel, { config with types := types }, fun more hle => ?_, expanded he fun typeName type' =>
    visit_types he fuel (htypes fuel le_rfl) typeName type'⟩
  rw [transform, htypes more hle]
  rfl

section Filters

def argField (args : List (String × String)) (hn : (args.map Prod.fst).Nodup) (typeName : String) : Config.Field plain :=
  AmbiguousTypes.fieldOf (args.map fun arg => (arg.1, .named arg.2 false)) (by simpa [Function.comp_def] using hn)
    (.named typeName false)

def filters : Config plain where
  server := ()
  upstream := ()
  schema := ⟨some "Query", none, none⟩
  types := ⟨[("Query", AmbiguousTypes.typeWith [("find", argField [("by", "Filter")] (by decide) "Int")] (by decide)),
    ("Id", AmbiguousTypes.typeWith [("id", argField [] (by decide) "ID")] (by decide)),
    ("Name", AmbiguousTypes.typeWith [("name", argField [] (by decide) "String")] (by decide))], by decide⟩
  unions := ⟨[("Filter", ⟨⟨["Id", "Name"], by decide⟩, none⟩)], by decide⟩
  enums := Dict.empty
  links := []
  telemetry := ()

def trees : Config plain where
  server := ()
  upstream := ()
  schema := ⟨some "Query", none, none⟩
  types := ⟨[("Query", AmbiguousTypes.typeWith [("find", argField [("by", "Tree")] (by decide) "Int")] (by decide)),
    ("Id", AmbiguousTypes.typeWith [("id", argField [] (by decide) "ID")] (by decide)),
    ("Name", AmbiguousTypes.typeWith [("name", argField [] (by decide) "String")] (by decide)),
    ("Tree", AmbiguousTypes.typeWith [("left", argField [] (by decide) "Tree"),
      ("leaf", argField [] (by decide) "Filter")] (by decide))], by decide⟩
  unions := ⟨[("Filter", ⟨⟨["Id", "Name"], by decide⟩, none⟩)], by decide⟩
  enums := Dict.empty
  links := []
  telemetry := ()

def filterVariants (name : String) : Option (List String) :=
  if name = "Filter" then some ["Id", "Name"] else none

variable {name : String}

theorem filters_contains {type : TypeDef plain} (h : filters.findType name = some type) :
    name ∈ ["Query", "Id", "Name"] := by
  have hmem := (Dict.contains_iff filters.types name).mp (by rw [Dict.contains, ← findType, h]; rfl)
  exact hmem

theorem filters_union {union : Union} (h : filters.findUnion name = some union) : name = "Filter" := by
  have hmem : name ∈ ["Filter"] := (Dict.contains_iff filters.unions name).mp (by rw [Dict.contains, ← findUnion, h]; rfl)
  simpa using hmem

theorem filters_refers {other : String} (h : Refers filters name other) :
    other ∈ (match name with | "Filter" => ["Id", "Name"] | "Id" => ["ID"] | "Name" => ["String"] | _ => ["Int"]) := by
  rcases h with ⟨union, hunion, hmem⟩ | ⟨-, type, htype, field, hfield, rfl⟩
  · cases filters_union hunion
    cases hunion
    exact hmem
  · have hname := filters_contains htype
    simp only [List.mem_cons, List.not_mem_nil, or_false] at hname
    rcases hname with rfl | rfl | rfl
    all_goals
      cases htype
      cases List.mem_singleton.mp hfield
      decide

theorem filters_hasUnion (h : HasUnion filters name) : name = "Filter" := by
  induction h with
  | union hunion => exact filters_union hunion
  | @field name fieldName type field hunion htype hfield hbelow ih =>
    have hrefers : Refers filters name field.typeOf.name :=
      .inr ⟨hunion, type, htype, field, (Dict.mem_values_iff _ _).mpr ⟨_, hfield⟩, rfl⟩
    have hbelow := filters_refers hrefers
    rw [ih] at hbelow
    split at hbelow <;> simp at hbelow

theorem filters_created (name : String) : created filters filterVariants name = [] := by
  cases htype : filters.findType name with
  | none =>
    rw [created, htype]
    cases filters.findUnion name with
    | none => rfl
    | some union => rfl
  | some type =>
    have hname := filters_contains htype
    simp only [List.mem_cons, List.not_mem_nil, or_false] at hname
    rcases hname with rfl | rfl | rfl
    · decide +kernel
    · decide +kernel
    · decide +kernel

theorem filters_expandable : Expandable filters filterVariants where
  settled := by
    refine ⟨fun name hplain => if_neg fun h => hplain ?_, fun name hnested _ => ?_⟩
    · subst h
      have hunion : filters.findUnion "Filter" = some ⟨⟨["Id", "Name"], by decide⟩, none⟩ := rfl
      exact .union hunion
    · cases filters_hasUnion hnested
      decide +kernel
  acyclic := by
    intro name _ hnested hcycle
    cases filters_hasUnion hnested
    have hbelow (other : String) (h : TransGen (Refers filters) "Filter" other) :
        other ∈ ["Id", "Name", "ID", "String", "Int"] := by
      induction h with
      | single h => exact List.mem_append_left _ (filters_refers h)
      | @tail next other _ h ih =>
        have := filters_refers h
        split at this <;> simp_all
    exact absurd (hbelow _ hcycle) (by decide)
  clean := by
    intro name type _ hnested hunion
    cases filters_hasUnion hnested
    cases hunion
  own := by
    rintro typeName name ⟨-, hmem⟩
    rw [filters_created] at hmem
    cases hmem
  apart := by
    rintro typeName name other ⟨-, hmem⟩
    rw [filters_created] at hmem
    cases hmem
  distinct := by
    intro name _
    rw [filters_created]
    exact List.nodup_nil
  fields := by
    decide +kernel

theorem filters_expand : ∃ fuel result, (∀ more, fuel ≤ more → transform filters more = some result) ∧
    Expanded filters filterVariants result :=
  transform_expands filters filterVariants filters_expandable

theorem trees_keep_union : ∃ result, transform trees 5 = some result ∧
    ∀ variants, ¬ Expanded trees variants result := by
  have hnames : (transform trees 5).map (fun result =>
      (result.arguments.map fun arg => arg.2.typeOf.name,
        (((result.findType "Tree__leaf0").bind fun type => type.fields.get? "left").map fun field => field.typeOf.name,
          ((result.findType "Tree").bind fun type => type.fields.get? "leaf").map fun field => field.typeOf.name))) =
      some (["Tree__leaf0", "Tree__leaf1"], (some "Tree", some "Filter")) := by
    decide +kernel
  obtain ⟨result, hresult, hnames⟩ := Option.map_eq_some_iff.mp hnames
  simp only [Prod.mk.injEq, Option.map_eq_some_iff, Option.bind_eq_some_iff] at hnames
  obtain ⟨hargs, ⟨left, ⟨variant, hvariant, hleft⟩, hleftName⟩, leaf, ⟨tree, htree, hleaf⟩, hleafName⟩ := hnames
  refine ⟨result, hresult, fun variants h => ?_⟩
  have hunions (name : String) : result.findUnion name = trees.findUnion name := by rw [h.rest]; rfl
  have hmem : "Tree__leaf0" ∈ result.arguments.map fun arg => arg.2.typeOf.name := by simp [hargs]
  obtain ⟨arg, harg, hname⟩ := List.mem_map.mp hmem
  have hfilter : AmbiguousTypes.InputReached result "Filter" := by
    refine ⟨arg, harg, [.field "left", .field "leaf"], leaf.typeOf, ?_, hleafName⟩
    refine .field (by rw [hname, hunions]; rfl) (by rw [hname]; exact hvariant) hleft ?_
    exact .field (by rw [hleftName, hunions]; rfl) (by rw [hleftName]; exact htree) hleaf (.here _)
  have hnone := h.unionFree "Filter" hfilter
  rw [hunions] at hnone
  cases hnone

end Filters

end Gqlforge.UnionInputs
