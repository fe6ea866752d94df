import Gqlforge.UsageExactness
import Gqlforge.Validation
import Gqlforge.WorklistSearch

namespace Gqlforge

open Config Validation WorklistSearch

namespace Config

variable {P : Payloads} (config : Config P)

def TypeDef.referred (type : TypeDef P) : List String :=
  (type.fields.values.flatMap fun field =>
    (field.args.values.map fun arg => arg.typeOf.name) ++ [field.typeOf.name]) ++ type.implements.items

def referred (typeName : String) : Option (List String) :=
  match config.findUnion typeName with
  | some union => some union.types.items
  | none => (config.findType typeName).map TypeDef.referred

theorem referred_mem (typeName : String) (h : (config.referred typeName).isSome = true) :
    typeName ∈ (config.types.keys ++ config.unions.keys).toFinset := by
  rw [List.mem_toFinset, List.mem_append, ← Dict.contains_iff, ← Dict.contains_iff, Dict.contains, Dict.contains]
  unfold referred at h
  split at h
  · next union hunion => exact .inr (Option.isSome_iff_exists.mpr ⟨union, hunion⟩)
  · rw [Option.isSome_map] at h
    exact .inl h

def usageGraph : Graph String :=
  ⟨config.referred, (config.types.keys ++ config.unions.keys).toFinset, config.referred_mem⟩

def rootStack : List String :=
  config.schema.subscription.toList ++ config.schema.mutation.toList ++ config.schema.query.toList

def getAllUsedTypeNames : Finset String :=
  config.usageGraph.search ∅ config.rootStack

def unusedTypes : List String :=
  (config.types.keys ++ config.unions.keys).filter (· ∉ config.getAllUsedTypeNames)

def removeTypes (names : List String) : Config P :=
  { config with types := config.types.without names, unions := config.unions.without names }

end Config

namespace TreeShake

variable {P : Payloads}

def transform (config : Config P) : Valid (Config P) String :=
  Valid.succeed (config.removeTypes config.unusedTypes)

section Usage

variable (config : Config P)

open SchemaUsage Relation

inductive Uses : String → String → Prop where
  | member {name other : String} (h : UnionMember config other name) : Uses name other
  | field {name : String} {type : TypeDef P} {field : Config.Field P} (htype : config.findType name = some type)
      (hfield : field ∈ type.fields.values) : Uses name field.typeOf.name
  | argument {name : String} {type : TypeDef P} {field : Config.Field P} {arg : Arg P}
      (htype : config.findType name = some type) (hfield : field ∈ type.fields.values) (harg : arg ∈ field.args.values) :
      Uses name arg.typeOf.name
  | interface {name other : String} (h : Implements config name other) : Uses name other
  | implementor {name other : String} (hname : (config.findType name).isSome = true) (h : Implements config other name) :
      Uses name other

def IsEntity (name : String) : Prop :=
  ∃ type, config.findType name = some type ∧ type.resolvers ≠ []

def Usable (name : String) : Prop :=
  ∃ start, (start ∈ config.outputRoots ∨ IsEntity config start) ∧ ReflTransGen (Uses config) start name

structure Shaken (result : Config P) : Prop where
  keeps : ∀ name, Usable config name → result.findType name = config.findType name ∧
    result.findUnion name = config.findUnion name ∧ result.findEnum name = config.findEnum name
  types : result.types.entries.Sublist config.types.entries
  unions : result.unions.entries.Sublist config.unions.entries
  others : result = { config with types := result.types, unions := result.unions }
  again : transform result = Valid.succeed result

def Defined (name : String) : Prop :=
  (config.findType name).isSome = true ∨ (config.findUnion name).isSome = true

/-- From a union to its members, from another type to what its fields, arguments and interfaces name. -/
inductive Follows : String → String → Prop where
  | member {name other : String} (h : UnionMember config other name) : Follows name other
  | type {name other : String} {type : TypeDef P} (hunion : config.findUnion name = none)
      (htype : config.findType name = some type) (hother : other ∈ type.referred) : Follows name other

def Followed (name : String) : Prop :=
  Defined config name ∧ ∃ root ∈ config.outputRoots, ReflTransGen (Follows config) root name

structure FollowedEnough : Prop where
  entities : ∀ name, IsEntity config name → Followed config name
  implementors : ∀ name other, Followed config name → (config.findType name).isSome = true →
    Implements config other name → Followed config other
  hidden : ∀ name type other, Followed config name → (config.findUnion name).isSome = true →
    config.findType name = some type → other ∈ type.referred → Defined config other → Followed config other

variable {config}

variable {name other : String}

theorem Follows.defined (h : Follows config name other) : Defined config name := by
  cases h with
  | member h =>
    obtain ⟨union, hunion, -⟩ := h
    exact .inr (Option.isSome_iff_exists.mpr ⟨union, hunion⟩)
  | type hunion htype hother => exact .inl (Option.isSome_iff_exists.mpr ⟨_, htype⟩)

theorem known_iff (name : String) : config.usageGraph.Known name ↔ Defined config name := by
  change (config.referred name).isSome = true ↔ _
  rw [Config.referred, Defined]
  cases hunion : config.findUnion name with
  | some union => simp
  | none => simp

theorem step_iff (name other : String) : config.usageGraph.Step name other ↔ Follows config name other := by
  change (∃ next, config.referred name = some next ∧ other ∈ next) ↔ _
  unfold Config.referred
  constructor
  · rintro ⟨next, hnext, hother⟩
    split at hnext
    · next union hunion =>
      obtain rfl := Option.some.inj hnext
      exact .member ⟨union, hunion, hother⟩
    · next hunion =>
      obtain ⟨type, htype, rfl⟩ := Option.map_eq_some_iff.mp hnext
      exact .type hunion htype hother
  · rintro (⟨⟨union, hunion, hother⟩⟩ | ⟨hunion, htype, hother⟩)
    · exact ⟨_, by rw [hunion], hother⟩
    · exact ⟨_, by rw [hunion, htype]; rfl, hother⟩

theorem mem_used_iff (name : String) : name ∈ config.getAllUsedTypeNames ↔ Followed config name := by
  have hstep : config.usageGraph.Step = Follows config := by
    funext a b
    exact propext (step_iff a b)
  have hroots (root : String) : root ∈ config.rootStack ↔ root ∈ config.outputRoots := by
    simp only [Config.rootStack, Config.outputRoots, List.mem_append]
    tauto
  rw [Config.getAllUsedTypeNames, Graph.mem_search_iff, known_iff, hstep, Followed]
  simp only [hroots]

theorem mem_unused_iff (name : String) : name ∈ config.unusedTypes ↔ Defined config name ∧ ¬Followed config name := by
  rw [Config.unusedTypes, List.mem_filter, List.mem_append, ← Dict.contains_iff, ← Dict.contains_iff,
    decide_eq_true_eq, mem_used_iff]
  rfl

variable (config) in
def shake : Config P :=
  config.removeTypes config.unusedTypes

theorem findType_shake (name : String) :
    (shake config).findType name = if name ∈ config.unusedTypes then none else config.findType name :=
  Dict.get?_without _ _ _

theorem findUnion_shake (name : String) :
    (shake config).findUnion name = if name ∈ config.unusedTypes then none else config.findUnion name :=
  Dict.get?_without _ _ _

theorem kept_iff (h : Defined config name) :
    ((shake config).findType name = config.findType name ∧ (shake config).findUnion name = config.findUnion name) ↔
      Followed config name := by
  rw [findType_shake, findUnion_shake]
  by_cases hunused : name ∈ config.unusedTypes
  · rw [if_pos hunused, if_pos hunused]
    refine iff_of_false (fun hnone => ?_) ((mem_unused_iff name).mp hunused).2
    rw [Defined, ← hnone.1, ← hnone.2] at h
    exact h.elim (fun h => nomatch h) fun h => nomatch h
  · rw [if_neg hunused, if_neg hunused]
    refine iff_of_true ⟨rfl, rfl⟩ ?_
    by_contra hnot
    exact hunused ((mem_unused_iff name).mpr ⟨h, hnot⟩)

theorem uses_of_referred {type : TypeDef P} (htype : config.findType name = some type)
    (h : other ∈ type.referred) : Uses config name other := by
  rw [TypeDef.referred, List.mem_append, List.mem_flatMap] at h
  rcases h with ⟨field, hfield, h⟩ | h
  · rcases List.mem_append.mp h with h | h
    · obtain ⟨arg, harg, rfl⟩ := List.mem_map.mp h
      exact .argument htype hfield harg
    · obtain rfl := List.mem_singleton.mp h
      exact .field htype hfield
  · exact .interface ⟨type, htype, h⟩

theorem Follows.uses (h : Follows config name other) : Uses config name other := by
  cases h with
  | member h => exact .member h
  | type hunion htype hother => exact uses_of_referred htype hother

theorem Followed.usable (h : Followed config name) : Usable config name := by
  obtain ⟨-, root, hroot, hreach⟩ := h
  exact ⟨root, .inl hroot, ReflTransGen.mono (fun a b hab => Follows.uses hab) _ _ hreach⟩

theorem Followed.follow (h : Followed config name) (hfollows : Follows config name other)
    (hother : Defined config other) : Followed config other := by
  obtain ⟨-, root, hroot, hreach⟩ := h
  exact ⟨hother, root, hroot, hreach.tail hfollows⟩

theorem Uses.defined (h : Uses config name other) : Defined config name := by
  cases h with
  | member h => exact (Follows.member h).defined
  | field htype => exact .inl (Option.isSome_iff_exists.mpr ⟨_, htype⟩)
  | argument htype => exact .inl (Option.isSome_iff_exists.mpr ⟨_, htype⟩)
  | interface h =>
    obtain ⟨type, htype, -⟩ := h
    exact .inl (Option.isSome_iff_exists.mpr ⟨type, htype⟩)
  | implementor hname => exact .inl hname

theorem FollowedEnough.referred (henough : FollowedEnough config) {type : TypeDef P}
    (h : Followed config name) (htype : config.findType name = some type) (hreferred : other ∈ type.referred)
    (hother : Defined config other) : Followed config other := by
  cases hunion : config.findUnion name with
  | none => exact h.follow (.type hunion htype hreferred) hother
  | some union => exact henough.hidden name type other h (by rw [hunion]; rfl) htype hreferred hother

theorem FollowedEnough.step (henough : FollowedEnough config) {name other : String} (h : Followed config name)
    (huses : Uses config name other) (hother : Defined config other) : Followed config other := by
  cases huses with
  | member hmember => exact h.follow (.member hmember) hother
  | @field type field htype hfield =>
    refine henough.referred h htype (List.mem_append_left _ (List.mem_flatMap.mpr ⟨field, hfield, ?_⟩)) hother
    exact List.mem_append_right _ (List.mem_singleton_self _)
  | @argument type field arg htype hfield harg =>
    refine henough.referred h htype (List.mem_append_left _ (List.mem_flatMap.mpr ⟨field, hfield, ?_⟩)) hother
    exact List.mem_append_left _ (List.mem_map.mpr ⟨arg, harg, rfl⟩)
  | interface himplements =>
    obtain ⟨type, htype, hmem⟩ := himplements
    exact henough.referred h htype (List.mem_append_right _ hmem) hother
  | implementor hname himplements => exact henough.implementors name other h hname himplements

theorem FollowedEnough.followed (henough : FollowedEnough config) (h : Usable config name)
    (hdefined : Defined config name) : Followed config name := by
  obtain ⟨start, hstart, hreach⟩ := h
  induction hreach with
  | refl =>
    rcases hstart with hroot | hentity
    · exact ⟨hdefined, start, hroot, .refl⟩
    · exact henough.entities start hentity
  | @tail a b _ huses ih => exact henough.step (ih huses.defined) huses hdefined

theorem keeps_iff : (∀ name, Usable config name → Defined config name → Followed config name) ↔
    FollowedEnough config := by
  constructor
  · intro h
    have hentity : ∀ name, IsEntity config name → Defined config name := by
      rintro name ⟨type, htype, -⟩
      exact .inl (Option.isSome_iff_exists.mpr ⟨type, htype⟩)
    refine ⟨fun name hname => h name ⟨name, .inr hname, .refl⟩ (hentity name hname), ?_, ?_⟩
    · intro name other hname htype himplements
      obtain ⟨start, hstart, hreach⟩ := hname.usable
      obtain ⟨type, hother, -⟩ := id himplements
      exact h other ⟨start, hstart, hreach.tail (.implementor htype himplements)⟩
        (.inl (Option.isSome_iff_exists.mpr ⟨type, hother⟩))
    · intro name type other hname _ htype hreferred hother
      obtain ⟨start, hstart, hreach⟩ := hname.usable
      exact h other ⟨start, hstart, hreach.tail (uses_of_referred htype hreferred)⟩ hother
  · exact fun henough name h hdefined => henough.followed h hdefined

theorem shake_of_followed (h : Followed config name) :
    (shake config).findType name = config.findType name ∧ (shake config).findUnion name = config.findUnion name :=
  (kept_iff h.1).mpr h

theorem Follows.shake {name other : String} (hname : Followed config name) (h : Follows config name other) :
    Follows (shake config) name other := by
  obtain ⟨htypes, hunions⟩ := shake_of_followed hname
  cases h with
  | member h =>
    obtain ⟨union, hunion, hother⟩ := h
    exact .member ⟨union, hunions.trans hunion, hother⟩
  | type hunion htype hother => exact .type (hunions.trans hunion) (htypes.trans htype) hother

theorem Followed.shake {name : String} (h : Followed config name) : Followed (shake config) name := by
  obtain ⟨hdefined, root, hroot, hreach⟩ := h
  have hpath : ReflTransGen (Follows (TreeShake.shake config)) root name := by
    clear hdefined
    induction hreach with
    | refl => exact .refl
    | tail hreach hfollows ih => exact ih.tail (hfollows.shake ⟨hfollows.defined, root, hroot, hreach⟩)
  refine ⟨?_, root, hroot, hpath⟩
  have hkept := shake_of_followed ⟨hdefined, root, hroot, hreach⟩
  rwa [Defined, hkept.1, hkept.2]

theorem defined_shake (h : Defined (shake config) name) : Followed config name := by
  rw [Defined, findType_shake, findUnion_shake] at h
  by_cases hunused : name ∈ config.unusedTypes
  · rw [if_pos hunused, if_pos hunused] at h
    exact h.elim (fun h => nomatch h) fun h => nomatch h
  · rw [if_neg hunused, if_neg hunused] at h
    by_contra hnot
    exact hunused ((mem_unused_iff name).mpr ⟨h, hnot⟩)

theorem without_nil {V : Type} (dict : Dict V) : dict.without [] = dict := by
  obtain ⟨entries, hn⟩ := dict
  have hentries : entries.filter (fun entry => decide (entry.1 ∉ ([] : List String))) = entries :=
    List.filter_eq_self.mpr fun entry _ => by simp
  simp only [Dict.without, hentries]

theorem shake_shake : shake (shake config) = shake config := by
  have hnone : (shake config).unusedTypes = [] := by
    apply List.eq_nil_iff_forall_not_mem.mpr
    intro name hname
    obtain ⟨hdefined, hnot⟩ := (mem_unused_iff name).mp hname
    exact hnot (defined_shake hdefined).shake
  have htwice : shake (shake config) = (shake config).removeTypes [] := by
    rw [← hnone]
    rfl
  rw [htwice, Config.removeTypes, without_nil, without_nil]

/-- Everything that can be used is kept exactly where it can be reached forwards from the roots alone. -/
theorem transform_keeps_iff (config : Config P) :
    (∃ result, transform config = Valid.succeed result ∧ Shaken config result) ↔ FollowedEnough config := by
  rw [← keeps_iff]
  constructor
  · rintro ⟨result, hresult, hshaken⟩ name husable hdefined
    obtain rfl := Except.ok.inj hresult
    obtain ⟨htypes, hunions, -⟩ := hshaken.keeps name husable
    exact (kept_iff hdefined).mp ⟨htypes, hunions⟩
  · intro h
    refine ⟨shake config, rfl, fun name husable => ?_, List.filter_sublist, List.filter_sublist, rfl,
      congrArg Valid.succeed shake_shake⟩
    by_cases hdefined : Defined config name
    · obtain ⟨htypes, hunions⟩ := (kept_iff hdefined).mpr (h name husable hdefined)
      exact ⟨htypes, hunions, rfl⟩
    · rw [Defined, not_or, Option.not_isSome_iff_eq_none, Option.not_isSome_iff_eq_none] at hdefined
      rw [findType_shake, findUnion_shake, hdefined.1, hdefined.2, ite_self, ite_self]
      exact ⟨rfl, rfl, rfl⟩

/-- What is kept is what the roots reach forwards, unchanged, and nothing of it goes when it is shaken again. -/
theorem transform_exact (config : Config P) : ∃ result, transform config = Valid.succeed result ∧
    transform result = Valid.succeed result ∧ ∀ name, (Defined result name ↔ Followed config name) ∧
      (Followed config name → result.findType name = config.findType name ∧
        result.findUnion name = config.findUnion name) :=
  ⟨shake config, rfl, congrArg Valid.succeed shake_shake,
    fun _ => ⟨⟨defined_shake, fun h => h.shake.1⟩, shake_of_followed⟩⟩

end Usage

section Nodes

open SchemaUsage Relation

def typeOf (fields : List (String × String)) (hn : (fields.map Prod.fst).Nodup) (implements : Distinct String) :
    TypeDef plain :=
  ⟨⟨fields.map fun (name, type) => (name, ⟨.named type false, .empty, none, none, none, none, none, none, none, [], []⟩),
    by rwa [List.map_map]⟩, [], none, implements, none, none, [], []⟩

def nodes : Config plain where
  server := ()
  upstream := ()
  schema := ⟨some "Query", none, none⟩
  types := ⟨[("Query", typeOf [("node", "Node")] (by decide) ⟨[], by decide⟩),
    ("Node", typeOf [("id", "ID")] (by decide) ⟨[], by decide⟩),
    ("User", typeOf [("id", "ID")] (by decide) ⟨["Node"], by decide⟩)], by decide⟩
  unions := .empty
  enums := .empty
  links := []
  telemetry := ()

theorem nodes_follows {name : String} (h : ReflTransGen (Follows nodes) "Query" name) :
    name ∈ ["Query", "Node", "ID"] := by
  have hnext : ∀ name ∈ ["Query", "Node", "ID"], ∀ other ∈ ((nodes.findType name).map TypeDef.referred).getD [],
      other ∈ ["Query", "Node", "ID"] := by decide
  induction h with
  | refl => exact List.mem_cons_self
  | tail _ hfollows ih =>
    cases hfollows with
    | member h =>
      obtain ⟨union, hunion, -⟩ := h
      cases hunion
    | type hunion htype hother => exact hnext _ ih _ (by rwa [htype])

theorem user_removed : ¬∃ result, transform nodes = Valid.succeed result ∧ Shaken nodes result := by
  rintro ⟨result, hresult, hshaken⟩
  obtain rfl := Except.ok.inj hresult
  have huser : Usable nodes "User" := by
    refine ⟨"Query", .inl (by decide), ?_⟩
    have hnode : Uses nodes "Query" "Node" := @Uses.field _ nodes _ _ ⟨.named "Node" false, .empty, none, none, none,
      none, none, none, none, [], []⟩ rfl List.mem_cons_self
    exact (ReflTransGen.single hnode).tail (.implementor rfl ⟨_, rfl, List.mem_cons_self⟩)
  obtain ⟨htypes, hunions, -⟩ := hshaken.keeps "User" huser
  obtain ⟨-, root, hroot, hreach⟩ := (kept_iff (.inl rfl)).mp ⟨htypes, hunions⟩
  obtain rfl := List.mem_singleton.mp hroot
  exact absurd (nodes_follows hreach) (by decide)

end Nodes

end TreeShake

end Gqlforge
