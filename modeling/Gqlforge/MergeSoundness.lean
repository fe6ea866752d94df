import Gqlforge.MergedDeclarations
import Gqlforge.UsageExactness

namespace Gqlforge.SchemaMerge

open Json Config Schema SchemaUsage SchemaValues

section Names

variable {P : Payloads}

inductive Mentions (config : Config P) : String → Prop where
  | declared (name : String) (h : config.contains name = true) : Mentions config name
  | field (name : String) (type : TypeDef P) (key : String) (field : Config.Field P)
      (ht : config.types.get? name = some type) (hf : type.fields.get? key = some field) :
      Mentions config field.typeOf.name
  | arg (name : String) (type : TypeDef P) (key : String) (field : Config.Field P) (argName : String) (arg : Arg P)
      (ht : config.types.get? name = some type) (hf : type.fields.get? key = some field)
      (ha : field.args.get? argName = some arg) : Mentions config arg.typeOf.name
  | implemented (name : String) (type : TypeDef P) (interface : String) (ht : config.types.get? name = some type)
      (hi : interface ∈ type.implements.items) : Mentions config interface
  | member (name : String) (union : Union) (member : String) (hu : config.unions.get? name = some union)
      (hm : member ∈ union.types.items) : Mentions config member

/-- The types a module may return: those found for its roots, the types of an interface, and what these
have in turn. -/
inductive Returned (cache : Cache P) : String → Prop where
  | root (name : String) (h : name ∈ cache.outputTypes) : Returned cache name
  | implementer (name : String) (types : Finset String) (type : String) (h : Returned cache name)
      (hi : cache.interfacesTypesMap.get? name = some types) (hm : type ∈ types) : Returned cache type
  | field (name : String) (type : TypeDef P) (key : String) (field : Config.Field P) (h : Returned cache name)
      (hd : declOf cache.config name = .object type) (hf : type.fields.get? key = some field) :
      Returned cache field.typeOf.name
  | member (name : String) (union : Union) (member : String) (h : Returned cache name)
      (hd : declOf cache.config name = .union union) (hm : member ∈ union.types.items) : Returned cache member

structure Closed (cache : Cache P) : Prop where
  args : ∀ name type key field argName arg, cache.config.types.get? name = some type →
    type.fields.get? key = some field → field.args.get? argName = some arg →
    (declOf cache.config arg.typeOf.name).Composite → arg.typeOf.name ∈ cache.inputTypes
  fields : ∀ name type key field, name ∈ cache.inputTypes → declOf cache.config name = .object type →
    type.fields.get? key = some field → (declOf cache.config field.typeOf.name).Composite →
    field.typeOf.name ∈ cache.inputTypes
  members : ∀ name union member, name ∈ cache.inputTypes → declOf cache.config name = .union union →
    member ∈ union.types.items → (declOf cache.config member).Composite → member ∈ cache.inputTypes
  inputTypes : ∀ name ∈ cache.inputTypes, cache.config.contains name = true
  outputTypes : ∀ name ∈ cache.outputTypes, cache.config.contains name = true
  interfaces : ∀ name types, cache.interfacesTypesMap.get? name = some types →
    Mentions cache.config name ∧ ∀ type ∈ types, cache.config.contains type = true

theorem contains_iff (config : Config P) (name : String) :
    config.contains name = true ↔ declOf config name ≠ .undeclared := by
  rw [Ne, declOf_undeclared_iff, Config.contains, Dict.contains, Dict.contains, Dict.contains]
  cases config.types.get? name <;> cases config.unions.get? name <;> cases config.enums.get? name <;> simp

theorem Returned.mentions (cache : Cache P) (hc : Closed cache) (target : String) (h : Returned cache target) :
    Mentions cache.config target := by
  cases h with
  | root _ h => exact .declared target (hc.outputTypes target h)
  | implementer name types _ h hi hm => exact .declared target ((hc.interfaces name types hi).2 target hm)
  | field name type key field h hd hf =>
    exact .field name type key field ((declOf_object_iff name type).mp hd).2.1 hf
  | member name union _ h hd hm => exact .member name union target ((declOf_union_iff name union).mp hd) hm

theorem SameKind.symm {a b : Decl P} (h : SameKind a b) : SameKind b a := by
  cases a <;> cases b <;> trivial

theorem SameKind.composite {a b : Decl P} (h : SameKind a b) (ha : a.Composite) : b.Composite := by
  cases a <;> cases b <;> trivial

end Names

section Searched

variable {P : Payloads} {config : Config P}

theorem composite_contains (name : String) (h : (declOf config name).Composite) : config.contains name = true := by
  rw [contains_iff]
  intro hn
  rw [hn] at h
  exact h.elim

theorem closed_of_cacheFrom (fuel : ℕ) (cache : Cache P) (h : cacheFrom fuel config = some cache)
    (hs : ∀ name, config.isScalar name = true → ¬ (declOf config name).Composite) : Closed cache := by
  obtain ⟨rfl, hi, ho, hm⟩ := (cacheFrom_eq_some fuel cache).mp h
  have hinput := GuardedSearch.searchAll_exact _ fuel _ hi
  have hplain (name : String) (hn : (declOf cache.config name).Composite) :
      cache.config.isScalar name = false := by
    rw [Bool.eq_false_iff]
    exact fun hscalar => hs name hscalar hn
  have hstep (name other : String) (hn : name ∈ cache.inputTypes) (hr : Refers cache.config name other)
      (hc : (declOf cache.config other).Composite) : other ∈ cache.inputTypes := by
    rw [hinput] at hn ⊢
    obtain ⟨-, start, hstart, hpath⟩ := hn
    exact ⟨(defined_iff other).mpr (composite_contains other hc), start, hstart,
      hpath.tail ((steps_iff name other).mpr (.inr ⟨hr, hplain other hc⟩))⟩
  have hmap := (interfacesTypesMap_spec fuel _ hm).2
  refine ⟨fun name type key field argName arg ht hf ha hc => ?_, fun name type key field hn hd hf hc => ?_,
    fun name union member hn hd hmem hc => ?_, fun name hn => ?_, fun name hn => ?_, fun name types hget => ?_⟩
  · rw [hinput]
    refine ⟨(defined_iff _).mpr (composite_contains _ hc), arg.typeOf.name, ?_, .refl⟩
    rw [Config.inputRoots, List.mem_map]
    refine ⟨(argName, arg), List.mem_filter.mpr ⟨?_, by simp [hplain _ hc]⟩, rfl⟩
    rw [Config.arguments, List.mem_flatMap]
    refine ⟨type, (Dict.mem_values_iff _ _).mpr ⟨name, ht⟩, List.mem_flatMap.mpr ⟨(key, field), ?_, ?_⟩⟩
    · exact (Dict.get?_eq_some_iff _ _ _).mp hf
    · exact (Dict.get?_eq_some_iff _ _ _).mp ha
  · obtain ⟨hu, ht, -⟩ := (declOf_object_iff name type).mp hd
    exact hstep name _ hn (.inr ⟨hu, type, ht, field, (Dict.mem_values_iff _ _).mpr ⟨key, hf⟩, rfl⟩) hc
  · exact hstep name _ hn (.inl ⟨union, (declOf_union_iff name union).mp hd, hmem⟩) hc
  · exact (defined_iff name).mp ((hinput name).mp hn).1
  · exact (defined_iff name).mp ((GuardedSearch.searchAll_exact _ fuel _ ho name).mp hn).1
  · have hkey : cache.interfacesTypesMap.contains name = true := by rw [Dict.contains, hget, Option.isSome_some]
    obtain ⟨t, type, ht, himp⟩ := (hmap.1 name).mp hkey
    refine ⟨.implemented t type name ht himp, fun member hmem => ?_⟩
    obtain ⟨hpath, -⟩ := (hmap.2 name types hget member).mp hmem
    obtain ⟨_, ⟨type', ht', -⟩, -⟩ := Relation.TransGen.head'_iff.mp hpath
    rw [Config.contains, Dict.contains, ht']
    rfl

end Searched

section Compatible

variable {P : Payloads}

/-- Two modules whose definitions of a name can stand for each other where both have one. -/
structure Compatible (X Y : Cache P) : Prop where
  left : Closed X
  right : Closed Y
  kinds : ∀ name, Mentions X.config name → Mentions Y.config name →
    SameKind (declOf X.config name) (declOf Y.config name)
  interfaces : ∀ name, Mentions X.config name → Mentions Y.config name →
    X.interfacesTypesMap.contains name = Y.interfacesTypesMap.contains name
  common : ∀ name t u, declOf X.config name = .object t → declOf Y.config name = .object u → IsInput X Y name →
    ∃ key f g, t.fields.get? key = some f ∧ u.fields.get? key = some g
  defaults : ∀ name t u, declOf X.config name = .object t → declOf Y.config name = .object u → IsInput X Y name →
    ∀ key f g, t.fields.get? key = some f → u.fields.get? key = some g → Required f ∨ Required g →
      f.defaultValue = none ∧ g.defaultValue = none
  members : ∀ name u v, declOf X.config name = .union u → declOf Y.config name = .union v → IsInput X Y name →
    ∀ member, member ∈ u.types.items ↔ member ∈ v.types.items
  returned : ∀ name, X.config.contains name = true → Y.config.contains name = true → Returned X name ∨ Returned Y name →
    typeUsage X Y name ≠ .input ∧ enumUsage X Y name ≠ .input

theorem Compatible.symm {X Y : Cache P} (h : Compatible X Y) : Compatible Y X where
  left := h.right
  right := h.left
  kinds name hy hx := SameKind.symm (h.kinds name hx hy)
  interfaces name hy hx := (h.interfaces name hx hy).symm
  common name u t hu ht hi := by
    obtain ⟨key, f, g, hf, hg⟩ := h.common name t u ht hu hi.symm
    exact ⟨key, g, f, hg, hf⟩
  defaults name u t hu ht hi key g f hg hf hr := (h.defaults name t u ht hu hi.symm key f g hf hg hr.symm).symm
  members name v u hv hu hi member := (h.members name u v hu hv hi.symm member).symm
  returned name hy hx ho := by
    obtain ⟨htype, henum⟩ := h.returned name hx hy ho.symm
    exact ⟨by rwa [typeUsage, usage_comm], by rwa [enumUsage, usage_comm]⟩

def InputPosition (X Y : Cache P) (name : String) : Prop :=
  Mentions X.config name ∧ ((declOf X.config name).Composite → IsInput X Y name)

def OutputPosition (X : Cache P) (name : String) : Prop :=
  Mentions X.config name ∧ Returned X name

theorem inputPosition_field (X Y : Cache P) (hc : Compatible X Y) (name : String) (t : TypeDef P)
    (hd : declOf X.config name = .object t) (hi : IsInput X Y name) (key : String) (f : Config.Field P)
    (hf : t.fields.get? key = some f)
    (hy : name ∈ Y.inputTypes → ∃ u g, declOf Y.config name = .object u ∧ u.fields.get? key = some g ∧
      g.typeOf.name = f.typeOf.name) : InputPosition X Y f.typeOf.name := by
  have hm : Mentions X.config f.typeOf.name := .field name t key f ((declOf_object_iff name t).mp hd).2.1 hf
  refine ⟨hm, fun hcomp => ?_⟩
  rcases hi with hx | hother
  · exact .inl (hc.left.fields name t key f hx hd hf hcomp)
  · obtain ⟨u, g, hu, hg, hname⟩ := hy hother
    have hmy : Mentions Y.config g.typeOf.name := .field name u key g ((declOf_object_iff name u).mp hu).2.1 hg
    have hcy : (declOf Y.config g.typeOf.name).Composite := by
      rw [hname] at hmy ⊢
      exact SameKind.composite (hc.kinds _ hm hmy) hcomp
    exact .inr (hname ▸ hc.right.fields name u key g hother hu hg hcy)

theorem inputPosition_member (X Y : Cache P) (hc : Compatible X Y) (name : String) (u : Union)
    (hd : declOf X.config name = .union u) (hi : IsInput X Y name) (member : String) (hm : member ∈ u.types.items)
    (hy : name ∈ Y.inputTypes → ∃ v, declOf Y.config name = .union v ∧ member ∈ v.types.items) :
    InputPosition X Y member := by
  have hmx : Mentions X.config member := .member name u member ((declOf_union_iff name u).mp hd) hm
  refine ⟨hmx, fun hcomp => ?_⟩
  rcases hi with hx | hother
  · exact .inl (hc.left.members name u member hx hd hm hcomp)
  · obtain ⟨v, hv, hmv⟩ := hy hother
    have hmy : Mentions Y.config member := .member name v member ((declOf_union_iff name v).mp hv) hmv
    exact .inr (hc.right.members name v member hother hv hmv (SameKind.composite (hc.kinds _ hmx hmy) hcomp))

theorem mentions_of_declOf (config : Config P) (name : String) (h : declOf config name ≠ .undeclared) :
    Mentions config name :=
  .declared name ((contains_iff config name).mpr h)

theorem narrowedAt_alone (X Y M : Cache P) (hc : Compatible X Y) (name : String) (hp : InputPosition X Y name)
    (hy : declOf Y.config name = .undeclared) (hm : declOf M.config name = declOf X.config name) :
    NarrowedAt M.config X.config (InputPosition X Y) name := by
  have hnot (hn : name ∈ Y.inputTypes) : False := (contains_iff _ name).mp (hc.right.inputTypes name hn) hy
  rw [NarrowedAt, hm]
  cases hd : declOf X.config name with
  | undeclared => rfl
  | scalar => rfl
  | enum enum => exact ⟨enum, rfl, fun _ hv => hv⟩
  | union u =>
    refine ⟨u, rfl, fun member hmem => ⟨hmem, ?_⟩⟩
    exact inputPosition_member X Y hc name u hd (hp.2 (hd ▸ trivial)) member hmem fun hn => (hnot hn).elim
  | object t =>
    refine ⟨t, rfl, fun key f hf => ⟨f, hf, .refl _, ?_⟩, fun key f hf hr => ⟨f, hf, hr⟩⟩
    exact inputPosition_field X Y hc name t hd (hp.2 (hd ▸ trivial)) key f hf fun hn => (hnot hn).elim

theorem required_of_shrunkTo (t u e : TypeDef P) (hs : ShrunkTo t u e)
    (hdef : ∀ key f g, t.fields.get? key = some f → u.fields.get? key = some g → Required f ∨ Required g →
      f.defaultValue = none ∧ g.defaultValue = none)
    (key : String) (f : Config.Field P) (hf : t.fields.get? key = some f) (hr : Required f) :
    ∃ field, e.fields.get? key = some field ∧ Required field := by
  cases hg : u.fields.get? key with
  | none =>
    have hn := hs.left key f hf hg
    rw [hr.1] at hn
    cases hn
  | some g =>
    obtain ⟨field, hfield⟩ := hs.shared key f g hf hg
    obtain ⟨f', g', hf', hg', hleft, -, hd⟩ := hs.fields key field hfield
    obtain rfl := Option.some.inj (hf.symm.trans hf')
    obtain rfl := Option.some.inj (hg.symm.trans hg')
    refine ⟨field, hfield, ?_, hd.mpr (hdef key f g hf hg (.inl hr))⟩
    rw [Bool.eq_false_iff]
    intro hn
    exact absurd (hleft.isNullable _ _ hn) (by rw [hr.1]; decide)

theorem narrowedAt (X Y M : Cache P) (hc : Compatible X Y) (hm : MergeOf X Y M) (name : String)
    (hp : InputPosition X Y name) : NarrowedAt M.config X.config (InputPosition X Y) name := by
  by_cases hy : declOf Y.config name = .undeclared
  · exact narrowedAt_alone X Y M hc name hp hy (hm.left name hy)
  · have hk := hc.kinds name hp.1 (mentions_of_declOf Y.config name hy)
    have hcomposite := hp.2
    rw [NarrowedAt]
    cases hd : declOf X.config name <;> cases hd' : declOf Y.config name <;> rw [hd, hd'] at hk <;>
      rw [hd] at hcomposite <;> try exact hk.elim
    case union.union u v =>
      have hi := hcomposite trivial
      obtain ⟨w, hw, hmem⟩ := hm.unions name u v hd hd'
      rw [hw]
      refine ⟨u, rfl, fun member hmw => ?_⟩
      have hu : member ∈ u.types.items :=
        ((hmem member).mp hmw).elim id (hc.members name u v hd hd' hi member).mpr
      refine ⟨hu, inputPosition_member X Y hc name u hd hi member hu fun _ => ?_⟩
      exact ⟨v, hd', (hc.members name u v hd hd' hi member).mp hu⟩
    case object.object t u =>
      have hi := hcomposite trivial
      obtain ⟨e, hs, he⟩ := hm.inputObjects name t u hd hd' hi
      obtain ⟨key, f, g, hf, hg⟩ := hc.common name t u hd hd' hi
      obtain ⟨field, hfield⟩ := hs.shared key f g hf hg
      rw [scalar_eq_false e key field hfield, if_neg Bool.false_ne_true] at he
      rw [he]
      refine ⟨t, rfl, fun key field hfield => ?_, fun key f hf hr => ?_⟩
      · obtain ⟨f, g, hf, hg, hleft, hright, -⟩ := hs.fields key field hfield
        refine ⟨f, hf, hleft, inputPosition_field X Y hc name t hd hi key f hf fun _ => ⟨u, g, hd', hg, ?_⟩⟩
        rw [← hright.name_eq, hleft.name_eq]
      · exact required_of_shrunkTo t u e hs (hc.defaults name t u hd hd' hi) key f hf hr
    case scalar.scalar => rw [hm.scalars name hd hd']
    case enum.enum a b =>
      obtain ⟨e, he, hv⟩ := hm.inputEnums name a b hd hd' (hcomposite trivial)
      rw [he]
      exact ⟨a, rfl, fun variant hvar => (hv variant hvar).1⟩
    case undeclared.undeclared => exact absurd hd' hy

theorem widenedAt_decl (X Y M : Cache P) (hc : Compatible X Y) (hm : MergeOf X Y M) (name : String)
    (hp : OutputPosition X name) : DeclWidened X.config M.config (OutputPosition X) name := by
  obtain ⟨hmx, ho⟩ := hp
  have hfield (t : TypeDef P) (hd : declOf X.config name = .object t) (key : String) (f : Config.Field P)
      (hf : t.fields.get? key = some f) : OutputPosition X f.typeOf.name :=
    ⟨.field name t key f ((declOf_object_iff name t).mp hd).2.1 hf, .field name t key f ho hd hf⟩
  have hmember (u : Union) (hd : declOf X.config name = .union u) (member : String)
      (hmem : member ∈ u.types.items) : OutputPosition X member :=
    ⟨.member name u member ((declOf_union_iff name u).mp hd) hmem, .member name u member ho hd hmem⟩
  by_cases hy : declOf Y.config name = .undeclared
  · rw [DeclWidened, hm.left name hy]
    cases hd : declOf X.config name with
    | undeclared => rfl
    | scalar => rfl
    | enum enum => exact ⟨enum, rfl, fun _ hv => hv⟩
    | union u => exact ⟨u, rfl, fun member hmem => ⟨hmem, hmember u hd member hmem⟩⟩
    | object t => exact ⟨t, rfl, fun key f hf => ⟨f, hf, .refl _, hfield t hd key f hf⟩⟩
  · have hk := hc.kinds name hmx (mentions_of_declOf Y.config name hy)
    have hused (hx : declOf X.config name ≠ .undeclared) :=
      hc.returned name ((contains_iff _ name).mpr hx) ((contains_iff _ name).mpr hy) (.inl ho)
    rw [DeclWidened]
    cases hd : declOf X.config name <;> cases hd' : declOf Y.config name <;> rw [hd, hd'] at hk <;>
      rw [hd] at hused <;> try exact hk.elim
    case union.union u v =>
      obtain ⟨w, hw, hmem⟩ := hm.unions name u v hd hd'
      rw [hw]
      exact ⟨w, rfl, fun member hu => ⟨(hmem member).mpr (.inl hu), hmember u hd member hu⟩⟩
    case object.object t u =>
      obtain ⟨e, hs, he⟩ := hm.outputObjects name t u hd hd' (hused fun h => by cases h).1
      rw [he]
      refine ⟨e, rfl, fun key f hf => ?_⟩
      obtain ⟨field, hget, hn⟩ := hs.left key f hf
      exact ⟨field, hget, hn, hn.name_eq ▸ hfield t hd key f hf⟩
    case scalar.scalar => rw [hm.scalars name hd hd']
    case enum.enum a b =>
      obtain ⟨e, he, hv⟩ := hm.outputEnums name a b hd hd' (hused fun h => by cases h).2
      rw [he]
      exact ⟨e, rfl, fun variant hvar => hv variant (.inl hvar)⟩
    case undeclared.undeclared => exact absurd hd' hy

theorem widenedAt (X Y M : Cache P) (hc : Compatible X Y) (hm : MergeOf X Y M) (name : String)
    (hp : OutputPosition X name) : WidenedAt X M (OutputPosition X) name := by
  rw [WidenedAt]
  cases hx : X.interfacesTypesMap.get? name with
  | some types =>
    obtain ⟨wide, hw, hsub⟩ := hm.leftInterface name types hx
    refine ⟨wide, hw, fun type ht => ⟨hsub ht, ?_, .implementer name types type hp.2 hx ht⟩⟩
    exact .declared type ((hc.left.interfaces name types hx).2 type ht)
  | none =>
    refine ⟨hm.noInterface name hx ?_, widenedAt_decl X Y M hc hm name hp⟩
    by_contra hy
    obtain ⟨types, hy⟩ := Option.ne_none_iff_exists'.mp hy
    have hsame := hc.interfaces name hp.1 (hc.right.interfaces name types hy).1
    rw [Dict.contains, Dict.contains, hx, hy] at hsame
    cases hsame

end Compatible

section Sound

variable {P : Payloads} (R : Merging P) (builtin : String → ConstValue → Prop)

def argumentOf (config : Config P) (typeName key argName : String) : Option (Arg P) :=
  (config.findType typeName).bind fun type =>
    (type.fields.get? key).bind fun field => field.args.get? argName

/-- What goes into the merged schema can go on to either side, what either side returns can be returned. -/
structure Sound (X Y M : Cache P) : Prop where
  inputs : ∀ name nonNull value, X.config.contains name = true → Y.config.contains name = true →
    IsInput X Y name → Accepts builtin M.config (.named name nonNull) value →
      Accepts builtin X.config (.named name nonNull) value ∧ Accepts builtin Y.config (.named name nonNull) value
  arguments : ∀ typeName key argName a b c, argumentOf X.config typeName key argName = some a →
    argumentOf Y.config typeName key argName = some b → argumentOf M.config typeName key argName = some c →
      ∀ value, Accepts builtin M.config c.typeOf value →
        Accepts builtin X.config a.typeOf value ∧ Accepts builtin Y.config b.typeOf value
  left : ∀ name nonNull value, Returned X name → Conforms builtin X (.named name nonNull) value →
    Conforms builtin M (.named name nonNull) value
  right : ∀ name nonNull value, Returned Y name → Conforms builtin Y (.named name nonNull) value →
    Conforms builtin M (.named name nonNull) value

theorem argumentOf_eq_some (config : Config P) (typeName key argName : String) (arg : Arg P) :
    argumentOf config typeName key argName = some arg ↔
      ∃ type field, config.types.get? typeName = some type ∧ type.fields.get? key = some field ∧
        field.args.get? argName = some arg := by
  simp only [argumentOf, Config.findType, Option.bind_eq_some_iff]
  constructor
  · rintro ⟨type, ht, field, hf, ha⟩
    exact ⟨type, field, ht, hf, ha⟩
  · rintro ⟨type, field, ht, hf, ha⟩
    exact ⟨type, ht, field, hf, ha⟩

theorem mergedField (way : Usage) (t u e : TypeDef P) (h : mergeTypeDef R way t u = .ok e) (key : String)
    (f g field : Config.Field P) (hf : t.fields.get? key = some f) (hg : u.fields.get? key = some g)
    (he : e.fields.get? key = some field) : ∃ mergeTypes, mergeField R mergeTypes f g = .ok field := by
  by_cases hw : way = .input
  · subst hw
    obtain ⟨f', g', hf', hg', hm⟩ := (get?_shrinkDict _ _ _ _ _ (shrinkTypeDef_eq_ok R t u e h) key field).mp he
    obtain rfl := Option.some.inj (hf.symm.trans hf')
    obtain rfl := Option.some.inj (hg.symm.trans hg')
    exact ⟨_, hm⟩
  · have hx := expandTypeDef_eq_ok R t u e (mergeTypeDef_of_not_input R way hw t u e h)
    rcases (expandDict_mergesTo _ _ _ _ hx key field).mp he with ⟨f', g', hf', hg', hm⟩ | ⟨hn, _⟩ | ⟨_, hn⟩
    · obtain rfl := Option.some.inj (hf.symm.trans hf')
      obtain rfl := Option.some.inj (hg.symm.trans hg')
      exact ⟨_, hm⟩
    · exact nomatch hf.symm.trans hn
    · exact nomatch hg.symm.trans hn

theorem mergedArg (X Y M : Cache P) (h : unify R X Y = .ok M) (typeName key argName : String) (a b c : Arg P)
    (ha : argumentOf X.config typeName key argName = some a) (hb : argumentOf Y.config typeName key argName = some b)
    (hc : argumentOf M.config typeName key argName = some c) :
    Narrows c.typeOf a.typeOf ∧ Narrows c.typeOf b.typeOf := by
  obtain ⟨t, f, ht, hf, ha⟩ := (argumentOf_eq_some _ _ _ _ a).mp ha
  obtain ⟨u, g, hu, hg, hb⟩ := (argumentOf_eq_some _ _ _ _ b).mp hb
  obtain ⟨e, field, he, hfield, hc⟩ := (argumentOf_eq_some _ _ _ _ c).mp hc
  rcases ((unify_spec R X Y M h).types typeName e).mp he with ⟨t', u', ht', hu', hm⟩ | ⟨hn, _⟩ | ⟨_, hn⟩
  · obtain rfl := Option.some.inj (ht.symm.trans ht')
    obtain rfl := Option.some.inj (hu.symm.trans hu')
    obtain ⟨_, hfm⟩ := mergedField R _ t u e hm key f g field hf hg hfield
    obtain ⟨-, hargs, -⟩ := mergeField_eq_ok R _ f g field hfm
    obtain ⟨a', b', ha', hb', hs⟩ := (get?_shrinkDict _ _ _ _ _ hargs argName c).mp hc
    obtain rfl := Option.some.inj (ha.symm.trans ha')
    obtain rfl := Option.some.inj (hb.symm.trans hb')
    exact shrinkType_narrows _ _ _ (shrinkArg_eq_ok R a b c hs).1
  · exact nomatch ht.symm.trans hn
  · exact nomatch hu.symm.trans hn

theorem accepts_left (X Y M : Cache P) (hc : Compatible X Y) (hm : MergeOf X Y M) (t u : WrappingType)
    (hn : Narrows t u) (hp : InputPosition X Y u.name) (value : ConstValue)
    (h : Accepts builtin M.config t value) : Accepts builtin X.config u value :=
  accepts_of_narrowed builtin M.config X.config (InputPosition X Y) (narrowedAt X Y M hc hm) t value h u hn hp

theorem conforms_left (X Y M : Cache P) (hc : Compatible X Y) (hm : MergeOf X Y M) (t : WrappingType)
    (ho : Returned X t.name) (value : ConstValue) (h : Conforms builtin X t value) : Conforms builtin M t value :=
  conforms_of_widened builtin X M (OutputPosition X) (widenedAt X Y M hc hm) t value h t (.refl t)
    ⟨ho.mentions X hc.left t.name, ho⟩

theorem inputPosition_arg (X Y : Cache P) (hc : Compatible X Y) (typeName key argName : String) (a : Arg P)
    (ha : argumentOf X.config typeName key argName = some a) : InputPosition X Y a.typeOf.name := by
  obtain ⟨t, f, ht, hf, ha⟩ := (argumentOf_eq_some _ _ _ _ a).mp ha
  exact ⟨.arg typeName t key f argName a ht hf ha, fun hcomp =>
    .inl (hc.left.args typeName t key f argName a ht hf ha hcomp)⟩

end Sound

def plainMerging : Merging plain where
  modify _ _ := ()
  omission _ _ := ()
  cache _ _ := ()
  protectedBy _ _ := ()
  discriminate _ _ := ()
  resolvers := List.append
  upstream _ _ := ()

def plainField (typeOf : WrappingType) (args : Dict (Arg plain)) : Config.Field plain :=
  ⟨typeOf, args, none, none, none, none, none, none, none, [], []⟩

def plainType (fields : Dict (Config.Field plain)) : TypeDef plain :=
  ⟨fields, [], none, ⟨[], List.nodup_nil⟩, none, none, [], []⟩

def queryType (nonNull : Bool) : TypeDef plain :=
  plainType ⟨[("f", plainField (.named "Int" nonNull) ⟨[("n", ⟨.named "N" false, none, none, none⟩)], by simp⟩)],
    by simp⟩

def inputType (key : String) (nonNull : Bool) : TypeDef plain :=
  plainType ⟨[(key, plainField (.named "Int" nonNull) Dict.empty)], by simp⟩

def service (key : String) (nonNull : Bool) : Config plain where
  server := ()
  upstream := ()
  schema := ⟨some "Query", none, none⟩
  types := ⟨[("N", inputType key nonNull), ("Query", queryType nonNull)], by simp⟩
  unions := Dict.empty
  enums := Dict.empty
  links := []
  telemetry := ()

def serviceCache (key : String) (nonNull : Bool) : Cache plain :=
  ⟨service key nonNull, {"N"}, {"Query"}, Dict.empty⟩

theorem cacheFrom_service (key : String) (nonNull : Bool) :
    cacheFrom 5 (service key nonNull) = some (serviceCache key nonNull) := rfl

theorem declOf_service (key : String) (nonNull : Bool) (name : String) :
    declOf (service key nonNull) name =
      if name = "N" then .object (inputType key nonNull)
      else if name = "Query" then .object (queryType nonNull) else .undeclared := by
  have ht : (service key nonNull).types.get? name =
      if name = "N" then some (inputType key nonNull)
      else if name = "Query" then some (queryType nonNull) else none := by
    rw [Dict.get?, service, Json.Object.getKey, List.lookup_cons, List.lookup_cons]
    by_cases hn : name = "N"
    · simp [hn]
    · have hb : (name == "N") = false := by simpa using hn
      by_cases hq : name = "Query"
      · simp [hq]
      · have hb' : (name == "Query") = false := by simpa using hq
        simp [hn, hq, hb, hb']
  rw [declOf, Config.findType, ht]
  by_cases hn : name = "N"
  · simp only [hn, if_true]
    rfl
  · by_cases hq : name = "Query"
    · simp only [hq, if_true]
      rfl
    · simp only [hn, hq, if_false]
      rfl

theorem closed_service (key : String) (nonNull : Bool) : Closed (serviceCache key nonNull) := by
  refine closed_of_cacheFrom 5 _ (cacheFrom_service key nonNull) fun name hs hc => ?_
  rw [declOf_service] at hc
  by_cases hn : name = "N"
  · rw [hn] at hs
    cases hs
  · by_cases hq : name = "Query"
    · rw [hq] at hs
      cases hs
    · rw [if_neg hn, if_neg hq] at hc
      exact hc

theorem returned_service (key : String) (nonNull : Bool) (name : String)
    (h : Returned (serviceCache key nonNull) name) : name = "Query" ∨ name = "Int" := by
  induction h with
  | root name h => exact .inl (Finset.mem_singleton.mp h)
  | implementer name types type h hi hm ih => cases hi
  | field name type key field h hd hf ih =>
    refine .inr ?_
    rcases ih with rfl | rfl
    · obtain rfl := Decl.object.inj hd
      by_cases hk : key = "f"
      · subst hk
        obtain rfl := Option.some.inj hf
        rfl
      · have hb : (key == "f") = false := by simpa using hk
        rw [Dict.get?, queryType, plainType, Json.Object.getKey, List.lookup_cons, hb] at hf
        cases hf
    · cases hd
  | member name union member h hd hm ih => rcases ih with rfl | rfl <;> cases hd

theorem field_inputType (key : String) (nonNull : Bool) (name : String) (field : Config.Field plain)
    (h : (inputType key nonNull).fields.get? name = some field) : field.defaultValue = none := by
  by_cases hk : name = key
  · subst hk
    rw [Dict.get?, inputType, plainType, Json.Object.getKey, List.lookup_cons, beq_self_eq_true] at h
    obtain rfl := Option.some.inj h
    rfl
  · have hb : (name == key) = false := by simpa using hk
    rw [Dict.get?, inputType, plainType, Json.Object.getKey, List.lookup_cons, hb] at h
    cases h

theorem compatible_service (nonNull otherNonNull : Bool) :
    Compatible (serviceCache "a" nonNull) (serviceCache "a" otherNonNull) := by
  have hobject (flag : Bool) (name : String) (t : TypeDef plain)
      (hd : declOf (service "a" flag) name = .object t) (hi : name = "N") : t = inputType "a" flag := by
    subst hi
    exact (Decl.object.inj hd).symm
  have hinput (name : String) (hi : IsInput (serviceCache "a" nonNull) (serviceCache "a" otherNonNull) name) :
      name = "N" := hi.elim Finset.mem_singleton.mp Finset.mem_singleton.mp
  refine ⟨closed_service "a" nonNull, closed_service "a" otherNonNull, fun name _ _ => ?_, fun name _ _ => rfl,
    fun name t u ht hu hi => ?_, fun name t u ht hu hi key f g hf hg _ => ?_, fun name u v hu _ _ => ?_,
    fun name hx _ ho => ?_⟩
  · rw [serviceCache, serviceCache, declOf_service, declOf_service]
    split
    · trivial
    · split <;> trivial
  · obtain rfl := hobject nonNull name t ht (hinput name hi)
    obtain rfl := hobject otherNonNull name u hu (hinput name hi)
    exact ⟨"a", _, _, rfl, rfl⟩
  · obtain rfl := hobject nonNull name t ht (hinput name hi)
    obtain rfl := hobject otherNonNull name u hu (hinput name hi)
    exact ⟨field_inputType "a" nonNull key f hf, field_inputType "a" otherNonNull key g hg⟩
  · rw [declOf_union_iff] at hu
    cases hu
  · obtain rfl | rfl : name = "Query" ∨ name = "Int" :=
      ho.elim (returned_service "a" nonNull name) (returned_service "a" otherNonNull name)
    · cases nonNull <;> cases otherNonNull <;> decide
    · cases hx

def isInt (name : String) (value : ConstValue) : Prop :=
  name = "Int" ∧ ∃ number, value = .number number

end Gqlforge.SchemaMerge
