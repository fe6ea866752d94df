import Gqlforge.DoubledTypes
import Mathlib.Data.Finset.Sort

namespace Gqlforge.AmbiguousTypes

open Schema Validation Config GuardedSearch SchemaUsage

variable {P : Payloads} {resolver : Resolver} {config : Config P}

variable {name : String}

theorem mentions_of_contains (h : config.contains name = true) : name ∈ mentions config := by
  rw [Config.contains, Bool.or_eq_true, Bool.or_eq_true, Dict.contains_iff, Dict.contains_iff, Dict.contains_iff] at h
  simp only [mentions, List.mem_append]
  tauto

variable {type : TypeDef P}

theorem contains_of_type (h : config.types.get? name = some type) : config.contains name = true := by
  rw [Config.contains, Dict.contains, h]
  rfl

variable {union : Union}

theorem contains_of_union (h : config.findUnion name = some union) : config.contains name = true := by
  rw [Config.findUnion] at h
  rw [Config.contains, Dict.contains, Dict.contains, h]
  simp

theorem mentions_field {typeName : String} {field : Config.Field P} (htype : config.types.get? typeName = some type)
    (hfield : type.fields.get? name = some field) : field.typeOf.name ∈ mentions config := by
  have hmem : field.typeOf.name ∈
      config.types.values.flatMap fun type => type.fields.values.map fun field => field.typeOf.name :=
    List.mem_flatMap.mpr ⟨type, (config.types.mem_values_iff type).mpr ⟨typeName, htype⟩,
      List.mem_map.mpr ⟨field, (type.fields.mem_values_iff field).mpr ⟨name, hfield⟩, rfl⟩⟩
  simp only [mentions, List.mem_append]
  tauto

variable {arg : String × Arg P}

theorem mentions_arg (h : arg ∈ config.arguments) : arg.2.typeOf.name ∈ mentions config := by
  have hmem : arg.2.typeOf.name ∈ config.arguments.map fun arg => arg.2.typeOf.name := List.mem_map.mpr ⟨arg, h, rfl⟩
  simp only [mentions, List.mem_append]
  tauto

theorem mentions_root {root : String} (h : root ∈ config.outputRoots) : root ∈ mentions config := by
  simp only [mentions, List.mem_append]
  tauto

theorem mentions_member (hunion : config.findUnion name = some union) {member : String}
    (hmember : member ∈ union.types.items) : member ∈ mentions config := by
  have hmem : member ∈ config.unions.values.flatMap fun union => union.types.items :=
    List.mem_flatMap.mpr ⟨union, (config.unions.mem_values_iff union).mpr ⟨name, hunion⟩, hmember⟩
  simp only [mentions, List.mem_append]
  tauto

theorem mem_arguments : arg ∈ config.arguments ↔ ∃ typeName type fieldName field,
    config.types.get? typeName = some type ∧ type.fields.get? fieldName = some field ∧
      field.args.get? arg.1 = some arg.2 := by
  simp only [Config.arguments, List.mem_flatMap, Dict.mem_values_iff, Dict.get?_eq_some_iff]
  constructor
  · rintro ⟨type, ⟨typeName, htype⟩, ⟨fieldName, field⟩, hfield, harg⟩
    exact ⟨typeName, type, fieldName, field, htype, hfield, harg⟩
  · rintro ⟨typeName, type, fieldName, field, htype, hfield, harg⟩
    exact ⟨type, ⟨typeName, htype⟩, (fieldName, field), hfield, harg⟩

/-- The types `names` of the config were doubled, and their resolutions are those of the resolver. -/
structure Split (resolver : Resolver) (config : Config P) (names : List String) (resolutions : Dict Resolution)
    (start state : Doubling P) : Prop where
  mem_names : ∀ name, name ∈ names ↔ Ambiguous config name ∧ config.types.contains name = true
  resolved : ∀ name, resolutions.get? name = if name ∈ names then some (resolver name) else none
  types : start.types = config.types
  roles : ∀ side name, name ∈ start.roles side ↔ Found config side name
  doubled : Doubled resolver start names state

def splitConfig (config : Config P) (resolutions : Dict Resolution) (state : Doubling P) : Config P :=
  { config with types := state.types.map (rewriteType resolutions state) }

def given (resolver : Resolver) (names : List String) (side : Side) (name : String) : String :=
  if name ∈ names then (resolver name).on side else name

section Renaming

variable (resolver : Resolver) (names : List String) (side : Side)

def renameArg (arg : Arg P) : Arg P :=
  { arg with typeOf := arg.typeOf.withName (given resolver names .input arg.typeOf.name) }

def renameField (field : Config.Field P) : Config.Field P :=
  { field with
    typeOf := field.typeOf.withName (given resolver names side field.typeOf.name)
    args := field.args.map fun _ => renameArg resolver names }

def renameFields (type : TypeDef P) : TypeDef P :=
  { type with fields := type.fields.map fun _ => renameField resolver names side }

end Renaming

@[simp]
theorem name_withName (typeOf : WrappingType) (name : String) : (typeOf.withName name).name = name := by
  induction typeOf with
  | named _ _ => rfl
  | list _ _ ih => exact ih

@[simp]
theorem sameArg_rewrite (resolutions : Dict Resolution) (arg : Arg P) : SameArg arg (rewriteArg resolutions arg) := by
  rw [SameArg, rewriteArg]
  split
  · rw [name_withName]
  · rw [TypeRenames.withName_name]

theorem sameType_rewrite (resolutions : Dict Resolution) (state : Doubling P) (name : String) (type : TypeDef P) :
    SameType type (rewriteType resolutions state name type) := by
  refine ⟨Dict.renamed_map _ _ fun field _ => ⟨?_, Dict.renamed_map _ _ fun arg _ => sameArg_rewrite resolutions arg,
    rfl⟩, rfl⟩
  rw [rewriteField]
  split
  · split
    · rw [name_withName]
    · split
      · rw [name_withName]
      · rw [TypeRenames.withName_name]
  · rw [TypeRenames.withName_name]

theorem SameType.scalar {type' : TypeDef P} (h : SameType type type') : type'.scalar = type.scalar := by
  have hlength := h.fields.length
  rw [TypeDef.scalar, TypeDef.scalar, Bool.eq_iff_iff, List.isEmpty_iff_length_eq_zero,
    List.isEmpty_iff_length_eq_zero, hlength]

variable {names : List String} {resolutions : Dict Resolution} {start state : Doubling P}

namespace Split

variable (h : Split resolver config names resolutions start state) (hs : Splittable resolver config)

include h hs

variable {name : String}

theorem given_own (hname : name ∈ names) (side : Side)
    (hmention : (resolver name).on side ∈ mentions config) : (resolver name).on side = name := by
  obtain ⟨hamb, htype⟩ := (h.mem_names name).mp hname
  exact hs.free name hamb htype side hmention

theorem get?_given (hmention : name ∈ mentions config) (side : Side) :
    state.types.get? (given resolver names side name) = config.types.get? name := by
  rw [given, ← h.types]
  split
  next hname => exact h.doubled.given name hname side
  next hname =>
    rw [h.doubled.rest name, if_neg hname]
    rintro other hother side rfl
    exact hname ((h.given_own hs hother side hmention).symm ▸ hother)

omit hs in
theorem given_role (side : Side) (hfound : Found config side name) :
    given resolver names side name ∈ state.roles side := by
  rw [given, h.doubled.roles]
  split
  next hname => exact .inl ⟨name, hname, rfl⟩
  next hname => exact .inr ⟨(h.roles side name).mpr hfound, hname⟩

theorem given_no_output (hfound : Found config .input name)
    (htype : config.types.contains name = true) : given resolver names .input name ∉ state.roles .output := by
  have hunnamed (other : String) (hother : Found config .output other) (hnames : other ∉ names) :
      other ≠ given resolver names .input name := by
    rintro rfl
    rw [given] at hother hnames
    split at hother
    next hname =>
      rw [if_pos hname] at hnames
      rw [h.given_own hs hname .input (mentions_of_contains hother.1)] at hnames
      exact hnames hname
    next hname => exact hname ((h.mem_names name).mpr ⟨⟨hfound, hother⟩, htype⟩)
  rw [h.doubled.roles]
  rintro (⟨other, hother, heq⟩ | ⟨hstart, hnames⟩)
  · rw [given] at heq
    obtain ⟨hamb, hotherType⟩ := (h.mem_names other).mp hother
    split at heq
    next hname =>
      obtain ⟨hamb', -⟩ := (h.mem_names name).mp hname
      have hsame := hs.apart name other hamb' htype hamb hotherType .input .output heq
      subst hsame
      exact bne_iff_ne.mp (hs.unique name hamb) heq
    next hname =>
      have hown := h.given_own hs hother .output (heq ▸ mentions_of_contains hfound.1)
      exact hname (heq.trans hown ▸ hother)
  · exact hunnamed _ ((h.roles .output _).mp hstart) hnames rfl

omit hs in
theorem rewriteArg_eq (arg : Arg P) : rewriteArg resolutions arg = renameArg resolver names arg := by
  rw [rewriteArg, renameArg, given, h.resolved]
  by_cases hname : arg.typeOf.name ∈ names
  · rw [if_pos hname, if_pos hname]
    rfl
  · rw [if_neg hname, if_neg hname, TypeRenames.withName_name]

variable {type : TypeDef P}

theorem rewriteType_eq (side : Side) (hfound : Found config side name) (htype : config.types.get? name = some type) :
    rewriteType resolutions state (given resolver names side name) type = renameFields resolver names side type := by
  have hrole := h.given_role side hfound
  have hfield (field : Config.Field P) : rewriteField resolutions state (given resolver names side name) field =
      renameField resolver names side field := by
    have hgiven : given resolver names side field.typeOf.name =
        if field.typeOf.name ∈ names then (resolver field.typeOf.name).on side else field.typeOf.name := rfl
    rw [rewriteField, renameField, h.resolved, funext h.rewriteArg_eq, hgiven]
    by_cases hname : field.typeOf.name ∈ names
    · rw [if_pos hname, if_pos hname]
      cases side with
      | output =>
        have hout : given resolver names .output name ∈ state.outputTypes := hrole
        dsimp only
        rw [if_pos hout]
        rfl
      | input =>
        have hin : given resolver names .input name ∈ state.inputTypes := hrole
        have hout : given resolver names .input name ∉ state.outputTypes :=
          h.given_no_output hs hfound (by rw [Dict.contains, htype]; rfl)
        dsimp only
        rw [if_neg hout, if_pos hin]
        rfl
    · rw [if_neg hname, if_neg hname, TypeRenames.withName_name]
  rw [rewriteType, renameFields, funext hfield]

theorem findType_given (side : Side) (hfound : Found config side name) (htype : config.findType name = some type) :
    (splitConfig config resolutions state).findType (given resolver names side name) =
      some (renameFields resolver names side type) := by
  have hget := h.get?_given hs (mentions_of_contains hfound.1) side
  rw [Config.findType, splitConfig, Dict.get?_map, hget, show config.types.get? name = some type from htype,
    Option.map_some, h.rewriteType_eq hs side hfound htype]

theorem findType_some (hmention : name ∈ mentions config) (side : Side) (htype : config.findType name = some type) :
    ∃ type', (splitConfig config resolutions state).findType (given resolver names side name) = some type' ∧
      SameType type type' := by
  refine ⟨_, ?_, sameType_rewrite resolutions state (given resolver names side name) type⟩
  rw [Config.findType, splitConfig, Dict.get?_map, h.get?_given hs hmention side,
    show config.types.get? name = some type from htype, Option.map_some]

theorem given_eq_of_no_object (hobject : ¬ IsObject config name) (side : Side) :
    given resolver names side name = name := by
  rw [given, if_neg]
  intro hname
  obtain ⟨hamb, htype⟩ := (h.mem_names name).mp hname
  exact hobject (hs.objects name hamb htype)

theorem findUnion_given (name : String) (side : Side) :
    (splitConfig config resolutions state).findUnion (given resolver names side name) = config.findUnion name := by
  change config.findUnion _ = _
  by_cases hname : name ∈ names
  · obtain ⟨hamb, htype⟩ := (h.mem_names name).mp hname
    have hnone := (hs.objects name hamb htype).1
    rw [given, if_pos hname, hnone]
    refine Option.eq_none_iff_forall_ne_some.mpr fun union hunion => ?_
    rw [h.given_own hs hname side (mentions_of_contains (contains_of_union hunion)), hnone] at hunion
    cases hunion
  · rw [given, if_neg hname]

theorem isScalar_given (hmention : name ∈ mentions config) (side : Side) :
    (splitConfig config resolutions state).isScalar (given resolver names side name) = config.isScalar name := by
  cases htype : config.findType name with
  | some type =>
    obtain ⟨type', htype', hsame⟩ := h.findType_some hs hmention side htype
    rw [Config.isScalar, Config.isScalar, show config.types.get? name = some type from htype,
      show (splitConfig config resolutions state).types.get? (given resolver names side name) = some type' from htype']
    exact hsame.scalar
  | none =>
    have hnone : config.types.get? name = none := htype
    have hgiven : given resolver names side name = name :=
      h.given_eq_of_no_object hs (fun ⟨_, type, hsome, _⟩ => Option.some_ne_none _ (hsome.symm.trans htype)) side
    have hget := h.get?_given hs hmention side
    rw [Config.isScalar, Config.isScalar, splitConfig, Dict.get?_map, hget, hnone, Option.map_none, hgiven]

omit h hs in
theorem scalar_of_field {fieldName : String} {field : Config.Field P} (htype : config.findType name = some type)
    (hfield : type.fields.get? fieldName = some field) : config.isScalar name = false := by
  rw [Config.isScalar, show config.types.get? name = some type from htype]
  change type.fields.entries.isEmpty = false
  rw [List.isEmpty_eq_false_iff]
  exact List.ne_nil_of_mem ((type.fields.get?_eq_some_iff fieldName field).mp hfield)

end Split

/-- The name is mentioned, and its type is found in the role unless it is a scalar or not declared. -/
def Standing (config : Config P) (side : Side) (name : String) : Prop :=
  name ∈ mentions config ∧ (config.contains name = true → config.isScalar name = false → Found config side name)

variable {side : Side}

theorem standing_step {next : String} (hfound : Found config side name) (hmention : next ∈ mentions config)
    (hstep : UnionMember config next name ∨ Refers config name next) : Standing config side next := by
  refine ⟨hmention, fun hcontains hscalar => ⟨hcontains, ?_⟩⟩
  obtain ⟨start, hstart, hreached⟩ := hfound.2
  exact ⟨start, hstart, hreached.tail ((steps_iff name next).mpr (hstep.imp id fun hrefers => ⟨hrefers, hscalar⟩))⟩

theorem standing_field (hfound : Found config side name) (hunion : config.findUnion name = none)
    (htype : config.findType name = some type) {fieldName : String} {field : Config.Field P}
    (hfield : type.fields.get? fieldName = some field) : Standing config side field.typeOf.name :=
  standing_step hfound (mentions_field htype hfield) (.inr (.inr ⟨hunion, type, htype, field,
    (type.fields.mem_values_iff field).mpr ⟨fieldName, hfield⟩, rfl⟩))

theorem standing_member (hfound : Found config side name) (hunion : config.findUnion name = some union)
    {member : String} (hmember : member ∈ union.types.items) : Standing config side member :=
  standing_step hfound (mentions_member hunion hmember) (.inl ⟨union, hunion, hmember⟩)

theorem standing_arg (harg : arg ∈ config.arguments) : Standing config .input arg.2.typeOf.name := by
  refine ⟨mentions_arg harg, fun hcontains hscalar => ⟨hcontains, arg.2.typeOf.name, ?_, .refl⟩⟩
  exact List.mem_map.mpr ⟨arg, List.mem_filter.mpr ⟨harg, by rw [hscalar]; rfl⟩, rfl⟩

theorem standing_root {root : String} (hroot : root ∈ config.outputRoots) : Standing config .output root :=
  ⟨mentions_root hroot, fun hcontains _ => ⟨hcontains, root, hroot, .refl⟩⟩

def renamed (resolver : Resolver) (names : List String) (side : Side) (typeOf : WrappingType) : WrappingType :=
  typeOf.withName (given resolver names side typeOf.name)

namespace Split

variable (h : Split resolver config names resolutions start state) (hs : Splittable resolver config)

include h hs

variable {side : Side} {name : String}

theorem field_iff (hstand : Standing config side name) (fieldName : String) (field' : Config.Field P) :
    (∃ type', (splitConfig config resolutions state).findType (given resolver names side name) = some type' ∧
        type'.fields.get? fieldName = some field') ↔
      ∃ type field, config.findType name = some type ∧ type.fields.get? fieldName = some field ∧
        Found config side name ∧ field' = renameField resolver names side field := by
  have hfound {type : TypeDef P} {field : Config.Field P} (htype : config.findType name = some type)
      (hfield : type.fields.get? fieldName = some field) : Found config side name :=
    hstand.2 (contains_of_type htype) (scalar_of_field htype hfield)
  constructor
  · rintro ⟨type', htype', hfield'⟩
    have hget := htype'
    rw [Config.findType, splitConfig, Dict.get?_map, h.get?_given hs hstand.1 side] at hget
    obtain ⟨type, htype, rfl⟩ := Option.map_eq_some_iff.mp hget
    have hold := hfield'
    rw [rewriteType, Dict.get?_map] at hold
    obtain ⟨field, hfield, -⟩ := Option.map_eq_some_iff.mp hold
    refine ⟨type, field, htype, hfield, hfound htype hfield, ?_⟩
    rw [h.rewriteType_eq hs side (hfound htype hfield) htype, renameFields, Dict.get?_map, hfield, Option.map_some] at hfield'
    exact (Option.some.inj hfield').symm
  · rintro ⟨type, field, htype, hfield, hfound, rfl⟩
    refine ⟨_, h.findType_given hs side hfound htype, ?_⟩
    rw [renameFields, Dict.get?_map, hfield, Option.map_some]

theorem given_member (hfound : Found config side name) {union : Union} (hunion : config.findUnion name = some union)
    {member : String} (hmember : member ∈ union.types.items) : given resolver names side member = member := by
  rw [given]
  split
  next hname =>
    obtain ⟨hamb, htype⟩ := (h.mem_names member).mp hname
    exact hs.members side name union hfound hunion member hmember hamb htype
  next => rfl

variable {typeOf : WrappingType}

theorem leads_forward {last : WrappingType} {path : List PathStep}
    (hl : Leads config typeOf path last) (hstand : Standing config side typeOf.name) :
    Leads (splitConfig config resolutions state) (renamed resolver names side typeOf) path
      (renamed resolver names side last) ∧ Standing config side last.name := by
  induction hl with
  | here typeOf => exact ⟨.here _, hstand⟩
  | @field typeOf _ _ fieldName type field hunion htype hfield _ ih =>
    have hfound := hstand.2 (contains_of_type htype) (scalar_of_field htype hfield)
    obtain ⟨hrest, hlast⟩ := ih (standing_field hfound hunion htype hfield)
    obtain ⟨type', htype', hfield'⟩ := (h.field_iff hs hstand fieldName (renameField resolver names side field)).mpr
      ⟨type, field, htype, hfield, hfound, rfl⟩
    refine ⟨.field ?_ ?_ hfield' hrest, hlast⟩
    · rw [renamed, name_withName, h.findUnion_given hs, hunion]
    · rw [renamed, name_withName, htype']
  | @member typeOf _ _ name union hscalar hunion hmember _ ih =>
    have hfound := hstand.2 (contains_of_union hunion) hscalar
    obtain ⟨hrest, hlast⟩ := ih (standing_member hfound hunion hmember)
    have hname : renamed resolver names side (.named name false) = .named name false :=
      congrArg (fun name => WrappingType.named name false) (h.given_member hs hfound hunion hmember)
    rw [hname] at hrest
    refine ⟨.member ?_ ?_ hmember hrest, hlast⟩
    · rw [renamed, name_withName, h.isScalar_given hs hstand.1, hscalar]
    · rw [renamed, name_withName, h.findUnion_given hs, hunion]

theorem leads_backward {typeOf' last' : WrappingType} {path : List PathStep}
    (hl : Leads (splitConfig config resolutions state) typeOf' path last')
    (heq : typeOf' = renamed resolver names side typeOf) (hstand : Standing config side typeOf.name) :
    ∃ last, Leads config typeOf path last ∧ last' = renamed resolver names side last ∧
      Standing config side last.name := by
  induction hl generalizing typeOf with
  | here typeOf' => exact ⟨typeOf, .here _, heq, hstand⟩
  | @field _ _ _ fieldName type' field' hunion htype' hfield' _ ih =>
    subst heq
    rw [renamed, name_withName] at hunion htype'
    obtain ⟨type, field, htype, hfield, hfound, rfl⟩ :=
      (h.field_iff hs hstand fieldName field').mp ⟨type', htype', hfield'⟩
    rw [h.findUnion_given hs] at hunion
    obtain ⟨last, hrest, hlast, hstands⟩ := ih rfl (standing_field hfound hunion htype hfield)
    exact ⟨last, .field hunion htype hfield hrest, hlast, hstands⟩
  | @member _ _ _ name union hscalar hunion hmember _ ih =>
    subst heq
    rw [renamed, name_withName, h.isScalar_given hs hstand.1] at hscalar
    rw [renamed, name_withName, h.findUnion_given hs] at hunion
    have hfound := hstand.2 (contains_of_union hunion) hscalar
    have hname : WrappingType.named name false = renamed resolver names side (.named name false) :=
      congrArg (fun name => WrappingType.named name false) (h.given_member hs hfound hunion hmember).symm
    obtain ⟨last, hrest, hlast, hstands⟩ := ih hname (standing_member hfound hunion hmember)
    exact ⟨last, .member hscalar hunion hmember hrest, hlast, hstands⟩

theorem alike (hstand : Standing config side typeOf.name) :
    Alike config (splitConfig config resolutions state) typeOf (renamed resolver names side typeOf) where
  wrapped := by rw [renamed, name_withName]
  type type htype := by
    rw [renamed, name_withName]
    exact h.findType_some hs hstand.1 side htype
  leaf hobject := by rw [renamed, name_withName, h.given_eq_of_no_object hs hobject]

omit hs in
theorem source {type : TypeDef P} (htype : state.types.get? name = some type) :
    ∃ old, config.types.get? old = some type := by
  rw [← h.types]
  by_cases hgiven : ∀ other ∈ names, ∀ side, name ≠ (resolver other).on side
  · rw [h.doubled.rest name hgiven] at htype
    split at htype
    · cases htype
    · exact ⟨name, htype⟩
  · push Not at hgiven
    obtain ⟨other, hother, side, rfl⟩ := hgiven
    exact ⟨other, (h.doubled.given other hother side).symm.trans htype⟩

omit hs in
theorem arguments_source {arg' : String × Arg P} (harg' : arg' ∈ (splitConfig config resolutions state).arguments) :
    ∃ arg ∈ config.arguments, arg' = (arg.1, renameArg resolver names arg.2) := by
  obtain ⟨argName, arg'⟩ := arg'
  obtain ⟨typeName, type', fieldName, field', htype', hfield', harg'⟩ := mem_arguments.mp harg'
  rw [splitConfig, Dict.get?_map] at htype'
  obtain ⟨type, htype, rfl⟩ := Option.map_eq_some_iff.mp htype'
  rw [rewriteType, Dict.get?_map] at hfield'
  obtain ⟨field, hfield, rfl⟩ := Option.map_eq_some_iff.mp hfield'
  rw [rewriteField, Dict.get?_map] at harg'
  obtain ⟨arg, harg, rfl⟩ := Option.map_eq_some_iff.mp harg'
  obtain ⟨old, hold⟩ := h.source htype
  exact ⟨(argName, arg), mem_arguments.mpr ⟨old, type, fieldName, field, hold, hfield, harg⟩,
    Prod.ext rfl (h.rewriteArg_eq arg)⟩

theorem renamed_root {root : String} (hroot : root ∈ config.outputRoots) :
    renamed resolver names .output (.named root false) = .named root false := by
  refine congrArg (fun name => WrappingType.named name false) ?_
  change given resolver names .output root = root
  rw [given]
  split
  next hname =>
    obtain ⟨hamb, htype⟩ := (h.mem_names root).mp hname
    exact hs.roots root hroot hamb htype
  next => rfl

theorem found_of_object (hstand : Standing config side name)
    (hobject : IsObject (splitConfig config resolutions state) (given resolver names side name)) :
    Found config side name ∧ config.types.contains name = true := by
  obtain ⟨-, type', htype', hscalar⟩ := hobject
  have hget := htype'
  rw [Config.findType, splitConfig, Dict.get?_map, h.get?_given hs hstand.1 side] at hget
  obtain ⟨type, htype, rfl⟩ := Option.map_eq_some_iff.mp hget
  refine ⟨hstand.2 (contains_of_type htype) ?_, by rw [Dict.contains, htype]; rfl⟩
  rw [Config.isScalar, htype]
  exact (sameType_rewrite resolutions state _ type).scalar.symm.trans hscalar

theorem apart (name : String) (hobject : IsObject (splitConfig config resolutions state) name) :
    ¬ (InputReached (splitConfig config resolutions state) name ∧
      OutputReached (splitConfig config resolutions state) name) := by
  rintro ⟨⟨arg', harg', path, last, hlast, rfl⟩, root, hroot, path', last', hlast', heq⟩
  obtain ⟨arg, harg, rfl⟩ := h.arguments_source harg'
  obtain ⟨input, -, rfl, hinput⟩ := h.leads_backward hs hlast rfl (standing_arg harg)
  obtain ⟨output, -, rfl, houtput⟩ :=
    h.leads_backward hs hlast' (h.renamed_root hs hroot).symm (standing_root hroot)
  rw [renamed, renamed, name_withName, name_withName] at heq
  rw [renamed, name_withName] at hobject
  obtain ⟨hfound, htype⟩ := h.found_of_object hs hinput hobject
  obtain ⟨hfound', -⟩ := h.found_of_object hs houtput (heq ▸ hobject)
  exact h.given_no_output hs hfound htype (heq ▸ h.given_role .output hfound')

theorem own {other : String} (hname : config.types.contains name = true) (hother : config.types.contains other = true)
    (heq : given resolver names .output name = given resolver names .output other) : name = other := by
  have hmention {name : String} (hname : config.types.contains name = true) : name ∈ mentions config :=
    mentions_of_contains (by rw [Config.contains, hname]; rfl)
  have hmixed {name other : String} (hin : name ∈ names) (hout : other ∉ names) (hother : config.types.contains other)
      (heq : (resolver name).on .output = other) : False :=
    hout (heq ▸ (h.given_own hs hin .output (heq ▸ hmention hother)).symm ▸ hin)
  rw [given, given] at heq
  split at heq
  next hin =>
    split at heq
    next hin' =>
      exact hs.apart name other ((h.mem_names name).mp hin).1 hname ((h.mem_names other).mp hin').1 hother _ _ heq
    next hout' => exact (hmixed hin hout' hother heq).elim
  next hout =>
    split at heq
    next hin' => exact (hmixed hin' hout hname heq.symm).elim
    next => exact heq

theorem separated : Separated (given resolver names .output) config (splitConfig config resolutions state) where
  apart := h.apart hs
  own name other hname hother heq := h.own hs hname hother heq
  kept name type htype := h.findType_some hs (mentions_of_contains (contains_of_type htype)) .output htype
  arguments typeName type fieldName field argName arg htype hfield harg := by
    have hmention := mentions_of_contains (contains_of_type htype)
    refine ⟨rewriteType resolutions state (given resolver names .output typeName) type,
      rewriteField resolutions state (given resolver names .output typeName) field,
      renameArg resolver names arg, ?_, ?_, ?_, fun path last hlast => ?_⟩
    · rw [splitConfig, Dict.get?_map, h.get?_given hs hmention, htype, Option.map_some]
    · rw [rewriteType, Dict.get?_map, hfield, Option.map_some]
    · rw [rewriteField, Dict.get?_map, harg, Option.map_some, h.rewriteArg_eq]
    · have hargument : (argName, arg) ∈ config.arguments :=
        mem_arguments.mpr ⟨typeName, type, fieldName, field, htype, hfield, harg⟩
      obtain ⟨hlast', hstand⟩ := h.leads_forward hs hlast (standing_arg hargument)
      exact ⟨_, hlast', h.alike hs hstand⟩
  outputs := by
    refine ⟨rfl, fun root hroot path last hlast => ?_⟩
    obtain ⟨hlast', hstand⟩ := h.leads_forward hs hlast (standing_root hroot)
    rw [h.renamed_root hs hroot] at hlast'
    exact ⟨_, hlast', h.alike hs hstand⟩

end Split

def ambiguousTypes (config : Config P) (inputTypes outputTypes : Finset String) : Finset String :=
  (inputTypes ∩ outputTypes).filter fun name => config.types.contains name = true

theorem resolve_spec (hs : Splittable resolver config) {inputTypes outputTypes : Finset String}
    (hinput : ∀ name, name ∈ inputTypes ↔ Found config .input name)
    (houtput : ∀ name, name ∈ outputTypes ↔ Found config .output name) (order : HashOrder) :
    ∃ maps, Valid.fromIter (order.listing (inputTypes ∩ outputTypes)) (resolve resolver config outputTypes) = .ok maps ∧
      ∀ name, (Dict.ofEntries (maps.flatMap fun map => map.entries)).get? name =
        if name ∈ ambiguousTypes config inputTypes outputTypes then some (resolver name) else none := by
  have hmem (name : String) : name ∈ order.listing (inputTypes ∩ outputTypes) ↔ Ambiguous config name := by
    rw [order.mem_listing, Finset.mem_inter, hinput, houtput, Ambiguous]
  have htypes (name : String) : name ∈ ambiguousTypes config inputTypes outputTypes ↔
      Ambiguous config name ∧ config.types.contains name = true := by
    rw [ambiguousTypes, Finset.mem_filter, Finset.mem_inter, hinput, houtput, Ambiguous]
  obtain ⟨maps, hmaps, hresolves, hcontains⟩ := resolveAll
    (· ∈ ambiguousTypes config inputTypes outputTypes) (order.listing (inputTypes ∩ outputTypes))
    (fun name hname => hs.unique name ((hmem name).mp hname)) fun name hname type htype => by
      have hamb := (hmem name).mp hname
      refine ⟨(htypes name).mpr ⟨hamb, by rw [Dict.contains, htype]; rfl⟩, fun arg harg hout => ?_⟩
      have hfound := (houtput _).mp hout
      obtain ⟨hunion, argType, hargType, hscalar⟩ := hs.args name type hamb htype arg harg hfound
      have hargument : ∃ argName, (argName, arg) ∈ config.arguments := by
        obtain ⟨field, hfield, hvalue⟩ := List.mem_flatMap.mp harg
        obtain ⟨fieldName, hfield⟩ := (type.fields.mem_values_iff field).mp hfield
        obtain ⟨argName, hvalue⟩ := (field.args.mem_values_iff arg).mp hvalue
        exact ⟨argName, mem_arguments.mpr ⟨name, type, fieldName, field, htype, hfield, hvalue⟩⟩
      obtain ⟨argName, hargument⟩ := hargument
      have hinScalar : config.isScalar arg.typeOf.name = false := by
        rw [Config.isScalar, show config.types.get? arg.typeOf.name = some argType from hargType]
        exact hscalar
      have hin := (standing_arg hargument).2 hfound.1 hinScalar
      exact (htypes _).mpr ⟨⟨hin, hfound⟩, by rw [Dict.contains, show config.types.get? _ = _ from hargType]; rfl⟩
  refine ⟨maps, hmaps, fun name => ?_⟩
  have hall := resolves_ofEntries hresolves
  split
  next hname =>
    obtain ⟨hamb, htype⟩ := (htypes name).mp hname
    obtain ⟨map, hmap, hc⟩ := hcontains name ((hmem name).mpr hamb) htype
    obtain ⟨resolution, hget⟩ := Option.isSome_iff_exists.mp (contains_ofEntries hmap hc)
    rw [hget, (hall name resolution hget).1]
  next hname =>
    exact Option.eq_none_iff_forall_ne_some.mpr fun resolution hget => hname (hall name resolution hget).2

theorem split_applied (hs : Splittable resolver config) {inputTypes outputTypes : Finset String}
    (hinput : ∀ name, name ∈ inputTypes ↔ Found config .input name)
    (houtput : ∀ name, name ∈ outputTypes ↔ Found config .output name) (order : HashOrder)
    {resolutions : Dict Resolution} (hresolved : ∀ name, resolutions.get? name =
      if name ∈ ambiguousTypes config inputTypes outputTypes then some (resolver name) else none) :
    Split resolver config (order.listing resolutions.keys.toFinset) resolutions ⟨config.types, inputTypes, outputTypes⟩
      (doubleAll resolutions (order.listing resolutions.keys.toFinset) ⟨config.types, inputTypes, outputTypes⟩) := by
  have hkeys (name : String) : name ∈ order.listing resolutions.keys.toFinset ↔
      name ∈ ambiguousTypes config inputTypes outputTypes := by
    rw [order.mem_listing, List.mem_toFinset, ← Dict.contains_iff, Dict.contains, hresolved]
    split <;> simp [*]
  have hnames (name : String) : name ∈ order.listing resolutions.keys.toFinset ↔
      Ambiguous config name ∧ config.types.contains name = true := by
    rw [hkeys, ambiguousTypes, Finset.mem_filter, Finset.mem_inter, hinput, houtput, Ambiguous]
  have hroles (side : Side) (name : String) :
      name ∈ (Doubling.mk config.types inputTypes outputTypes).roles side ↔ Found config side name := by
    cases side with
    | input => exact hinput name
    | output => exact houtput name
  have hresolved' (name : String) : resolutions.get? name =
      if name ∈ order.listing resolutions.keys.toFinset then some (resolver name) else none := by
    rw [hresolved]
    simp only [hkeys]
  refine ⟨hnames, hresolved', rfl, hroles, doubleAll_spec _ _ ?_ (order.nodup _) (fun name hname =>
    ((hnames name).mp hname).2) fun name hname => by rw [hresolved', if_pos hname]⟩
  refine ⟨fun name hname side htaken => ?_, fun name hname other hother => ?_, fun name hname =>
    hs.unique name ((hnames name).mp hname).1⟩
  · refine hs.free name ((hnames name).mp hname).1 ((hnames name).mp hname).2 side (mentions_of_contains ?_)
    rcases htaken with htype | ⟨side', hrole⟩
    · rw [Config.contains, htype]
      rfl
    · exact ((hroles side' _).mp hrole).1
  · exact hs.apart name other ((hnames name).mp hname).1 ((hnames name).mp hname).2 ((hnames other).mp hother).1
      ((hnames other).mp hother).2

theorem search_found (hs : Splittable resolver config) (side : Side) :
    ∃ fuel found, (∀ more, fuel ≤ more →
        visitAll (search (node config) config.isScalar more) (rootsOf config side) ∅ = some found) ∧
      ∀ name, name ∈ found ↔ Found config side name := by
  have hacc : ∀ name, Reached (node config) config.isScalar (rootsOf config side) name →
      Acc (Member (node config)) name := by
    refine (acc_member_iff (rootsOf config side) (declared config) mem_declared).mpr fun name hreached hcycle => ?_
    rw [transGen_member_iff] at hcycle
    obtain ⟨member, -, union, hunion, -⟩ := Relation.TransGen.tail'_iff.mp hcycle
    exact hs.acyclic side name ⟨contains_of_union hunion, hreached⟩ hcycle
  obtain ⟨fuel, found, hfound⟩ := (searchAll_returns_iff (rootsOf config side) (declared config) mem_declared).mpr hacc
  refine ⟨fuel, found, fun more hle => visitAll_mono _ _ (search_le hle) _ _ _ hfound, fun name => ?_⟩
  rw [searchAll_exact (rootsOf config side) fuel found hfound, defined_iff, Found]

/-- The transform returns, and what it returns keeps the inputs and the outputs apart. -/
theorem transform_separates (resolver : Resolver) (config : Config P) (hs : Splittable resolver config)
    (order : HashOrder) : ∃ fuel result place,
      (∀ more, fuel ≤ more → transform resolver order more config = some (.ok result)) ∧
      (∀ name, Ambiguous config name → config.types.contains name = true → place name = (resolver name).output) ∧
      (∀ name, ¬ (Ambiguous config name ∧ config.types.contains name = true) → place name = name) ∧
      Separated place config result := by
  obtain ⟨inputFuel, inputTypes, hinput, hinputs⟩ := search_found hs .input
  obtain ⟨outputFuel, outputTypes, houtput, houtputs⟩ := search_found hs .output
  obtain ⟨maps, hmaps, hresolved⟩ := resolve_spec hs hinputs houtputs order
  have hsplit := split_applied hs hinputs houtputs order hresolved
  refine ⟨max inputFuel outputFuel, _, _, fun more hle => ?_, fun name hamb htype => ?_, fun name hname => ?_,
    hsplit.separated hs⟩
  · rw [transform, inputTypes_eq, outputTypes_eq]
    rw [show visitAll _ config.inputRoots ∅ = _ from hinput more (le_trans (le_max_left _ _) hle),
      show visitAll _ config.outputRoots ∅ = _ from houtput more (le_trans (le_max_right _ _) hle)]
    change some (Valid.mapOk _ _) = _
    rw [hmaps]
    rfl
  · rw [given, if_pos ((hsplit.mem_names name).mpr ⟨hamb, htype⟩)]
    rfl
  · rw [given, if_neg fun hmem => hname ((hsplit.mem_names name).mp hmem)]

def sortedOrder : HashOrder where
  listing names := if names ⊆ {"Color", "Item"} then ["Color", "Item"].filter (· ∈ names) else names.sort
  nodup names := by
    split
    · exact List.Nodup.filter _ (by decide)
    · exact Finset.sort_nodup names _
  mem_listing names name := by
    split
    next hsub =>
      rw [List.mem_filter, decide_eq_true_eq]
      exact ⟨And.right, fun h => ⟨by simpa using hsub h, h⟩⟩
    next => exact Finset.mem_sort _

def fieldOf (args : List (String × WrappingType)) (hn : (args.map Prod.fst).Nodup) (typeOf : WrappingType) :
    Config.Field plain where
  typeOf := typeOf
  args := ⟨args.map fun arg => (arg.1, ⟨arg.2, none, none, none⟩), by simpa [Function.comp_def] using hn⟩
  doc := none
  modify := none
  omission := none
  cache := none
  defaultValue := none
  protectedBy := none
  discriminate := none
  resolvers := []
  directives := []

def typeWith (fields : List (String × Config.Field plain)) (hn : (fields.map Prod.fst).Nodup) : TypeDef plain :=
  ⟨⟨fields, hn⟩, [], none, ⟨[], List.nodup_nil⟩, none, none, [], []⟩

def items : Config plain where
  server := ()
  upstream := ()
  schema := ⟨some "Query", none, none⟩
  types := ⟨[("Query", typeWith [("item", fieldOf [("like", .named "Item" false)] (by decide) (.named "Item" false))]
      (by decide)),
    ("Item", typeWith [("name", fieldOf [] (by decide) (.named "String" false))] (by decide))], by decide⟩
  unions := Dict.empty
  enums := Dict.empty
  links := []
  telemetry := ()

def colored : Config plain where
  server := ()
  upstream := ()
  schema := ⟨some "Query", none, none⟩
  types := ⟨[("Query", typeWith [("item", fieldOf [("like", .named "Item" false)] (by decide) (.named "Item" false))]
      (by decide)),
    ("Item", typeWith [("shade", fieldOf [("of", .named "Color" false)] (by decide) (.named "String" false)),
      ("color", fieldOf [] (by decide) (.named "Color" false))] (by decide))], by decide⟩
  unions := Dict.empty
  enums := ⟨[("Color", ⟨⟨[⟨"RED", none⟩], by simp⟩, none⟩)], by decide⟩
  links := []
  telemetry := ()

theorem items_splittable : Splittable defaultResolver items := by
  have hnames (name : String) (h : items.types.contains name = true) : name = "Query" ∨ name = "Item" := by
    simpa [items, Dict.keys] using (Dict.contains_iff _ name).mp h
  have hno (name : String) (union : Union) : items.findUnion name ≠ some union := fun h => by cases h
  refine ⟨fun _ name _ h => ?_, fun name _ => ?_, fun name _ h => ?_, fun name type _ h arg harg _ => ?_,
    fun name _ h side hside => ?_, fun name other _ h _ ho side side' heq => ?_, fun _ _ _ _ => rfl,
    fun _ name union _ h => absurd h (hno name union)⟩
  · obtain ⟨_, -, union, hunion, -⟩ := Relation.TransGen.tail'_iff.mp h
    exact hno name union hunion
  · have hlength : (name ++ "Input").length = name.length + 5 := String.length_append name "Input"
    refine bne_iff_ne.mpr fun heq => ?_
    have := congrArg String.length heq
    change (name ++ "Input").length = name.length at this
    omega
  · rcases hnames name h with rfl | rfl
    · exact ⟨rfl, _, rfl, rfl⟩
    · exact ⟨rfl, _, rfl, rfl⟩
  · have hitem : arg.typeOf.name = "Item" := by
      obtain ⟨field, hfield, hvalue⟩ := List.mem_flatMap.mp harg
      rcases hnames name (by rw [Dict.contains, h]; rfl) with rfl | rfl
      · cases h
        simp [typeWith, Dict.values] at hfield
        subst hfield
        simp [fieldOf, Dict.values] at hvalue
        rw [hvalue]
        rfl
      · cases h
        simp [typeWith, Dict.values] at hfield
        subst hfield
        simp [fieldOf, Dict.values] at hvalue
    rw [hitem]
    exact ⟨rfl, _, rfl, rfl⟩
  · cases side with
    | output => rfl
    | input =>
      rcases hnames name h with rfl | rfl
      · exact absurd hside (by decide)
      · exact absurd hside (by decide)
  · rcases hnames name h with rfl | rfl <;> rcases hnames other ho with rfl | rfl <;> cases side <;> cases side' <;>
      revert heq <;> decide

theorem items_separated : ∃ fuel result place,
    (∀ more, fuel ≤ more → transform defaultResolver sortedOrder more items = some (.ok result)) ∧
    (∀ name, Ambiguous items name → items.types.contains name = true → place name = (defaultResolver name).output) ∧
    (∀ name, ¬ (Ambiguous items name ∧ items.types.contains name = true) → place name = name) ∧
    Separated place items result :=
  transform_separates defaultResolver items items_splittable sortedOrder

theorem colored_loses_enum : ∃ result, transform defaultResolver sortedOrder 8 colored = some (.ok result) ∧
    ∀ place, ¬ Separated place colored result := by
  have hnames : ((transform defaultResolver sortedOrder 8 colored).bind Except.toOption).map (fun result =>
      result.arguments.map fun arg => arg.2.typeOf.name) = some ["ItemInput", "ColorInput", "ColorInput"] := by
    decide +kernel
  obtain ⟨result, hresult, hargs⟩ := Option.map_eq_some_iff.mp hnames
  obtain ⟨valid, hvalid, htransform⟩ := Option.bind_eq_some_iff.mp hresult
  cases valid with
  | error e => cases htransform
  | ok found =>
    cases htransform
    refine ⟨result, hvalid, fun place h => ?_⟩
    obtain ⟨type', field', arg', htype, hfield, harg, hleads⟩ :=
      h.arguments "Item" _ "shade" _ "of" _ rfl rfl rfl
    obtain ⟨last, hlast, halike⟩ := hleads [] _ (.here _)
    cases hlast
    have hcolor : arg'.typeOf.name = "Color" := halike.leaf fun ⟨_, _, htype, _⟩ => nomatch htype
    have hmem : arg'.typeOf.name ∈ result.arguments.map fun arg => arg.2.typeOf.name :=
      List.mem_map.mpr ⟨("of", arg'), mem_arguments.mpr ⟨_, type', "shade", field', htype, hfield, harg⟩, rfl⟩
    rw [hargs, hcolor] at hmem
    exact absurd hmem (by decide)

end Gqlforge.AmbiguousTypes
