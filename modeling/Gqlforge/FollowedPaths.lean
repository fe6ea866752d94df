import Gqlforge.ConformingValues
import Gqlforge.FieldPasses

namespace Gqlforge.FollowedPaths

open Json Schema Config ConformingValues EvalContext
open FieldPasses (intoNullable)

def step (value : ConstValue) (key : String) : Option ConstValue :=
  match value with
  | .list items => (Scalar.parseInt 0 (2 ^ 64 - 1) key).bind fun index => items[index.toNat]?
  | value => value.getKey key

theorem getPath_step (value : ConstValue) (key : String) (path : List String) :
    getPath value (key :: path) = (step value key).bind (getPath · path) := by
  cases value with
  | list items =>
    rw [getPath, step]
    cases Scalar.parseInt 0 (2 ^ 64 - 1) key <;> rfl
  | _ => rfl

theorem step_list_name {key : String} {items : List ConstValue} (h : IsName key) : step (.list items) key = none := by
  rw [IsName] at h
  rw [step, h]
  rfl

instance (key : String) : Decidable (IsName key) :=
  inferInstanceAs (Decidable (_ = none))

mutual

def mapItems (f : ConstValue → ConstValue) : ConstValue → ConstValue
  | .list items => .list (mapEach f items)
  | value => f value

def mapEach (f : ConstValue → ConstValue) : List ConstValue → List ConstValue
  | [] => []
  | value :: items => mapItems f value :: mapEach f items

end

def follow : List String → ConstValue → ConstValue
  | [], value => value
  | key :: path, value =>
    if IsName key then mapItems (fun value => ((step value key).map (follow path)).getD .null) value
    else ((step value key).map (follow path)).getD .null

theorem mapItems_of_ne {f : ConstValue → ConstValue} {value : ConstValue} (h : ∀ items, value ≠ .list items) :
    mapItems f value = f value := by
  cases value with
  | list items => exact absurd rfl (h items)
  | _ => rfl

def Unmapped : List String → ConstValue → Prop
  | [], _ => True
  | key :: path, value =>
    (IsName key → ∀ items, value ≠ .list items) ∧ ∀ next, step value key = some next → Unmapped path next

theorem getPath_eq_follow_iff (path : List String) (value : ConstValue) :
    (getPath value path).getD .null = follow path value ↔ Unmapped path value := by
  induction path generalizing value with
  | nil => exact iff_of_true rfl trivial
  | cons key path ih =>
    have hstep : ((step value key).bind (getPath · path)).getD .null = ((step value key).map (follow path)).getD .null ↔
        ∀ next, step value key = some next → Unmapped path next := by
      cases step value key with
      | none => exact iff_of_true rfl fun next hnext => by cases hnext
      | some next =>
        rw [Option.bind_some, Option.map_some, Option.getD_some, ih]
        exact ⟨fun h _ hnext => Option.some.inj hnext ▸ h, fun h => h next rfl⟩
    rw [getPath_step, follow, Unmapped]
    split
    next hname =>
      by_cases hlist : ∃ items, value = .list items
      · obtain ⟨items, rfl⟩ := hlist
        rw [step_list_name hname]
        refine iff_of_false (fun h => ?_) fun h => h.1 hname items rfl
        cases h
      · rw [not_exists] at hlist
        rw [mapItems_of_ne hlist, hstep]
        exact (and_iff_right fun _ => hlist).symm
    next hindex =>
      rw [hstep]
      exact (and_iff_right fun hname => absurd hname hindex).symm

section Types

def depth : WrappingType → ℕ
  | .named _ _ => 0
  | .list ofType _ => depth ofType + 1

variable {P : Payloads} (config : Config P) (formats : Scalar.Formats)

def itemType : WrappingType → Option WrappingType
  | .list ofType _ => some ofType
  | .named _ _ => none

def fieldAt (typeName key : String) : Option (TypeDef P × Config.Field P) :=
  (config.findType typeName).bind fun owner => (owner.fields.get? key).map (owner, ·)

def endType : List String → WrappingType → Option WrappingType
  | [], type => some type
  | key :: path, type =>
    (if IsName key then (fieldAt config type.name key).map (·.2.typeOf) else itemType type).bind (endType path)

variable {config formats}

variable {key : String}

theorem fieldAt_eq_some {typeName : String} {owner : TypeDef P} {field : Config.Field P} :
    fieldAt config typeName key = some (owner, field) ↔
      config.findType typeName = some owner ∧ owner.fields.get? key = some field := by
  rw [fieldAt, Option.bind_eq_some_iff]
  constructor
  · rintro ⟨found, howner, hpair⟩
    obtain ⟨field', hfield, heq⟩ := Option.map_eq_some_iff.mp hpair
    obtain ⟨rfl, rfl⟩ := Prod.mk.inj heq
    exact ⟨howner, hfield⟩
  · rintro ⟨howner, hfield⟩
    exact ⟨owner, howner, by rw [hfield, Option.map_some]⟩

variable {type : WrappingType} {value : ConstValue}

theorem conforms_field {owner : TypeDef P} {field : Config.Field P}
    {next : ConstValue} (h : Conforms config formats false type value) (hname : IsName key)
    (hfield : fieldAt config type.name key = some (owner, field)) (hnext : step value key = some next) :
    Conforms config formats false field.typeOf next := by
  obtain ⟨howner, hget⟩ := fieldAt_eq_some.mp hfield
  cases type with
  | list ofType nonNull =>
    cases h with
    | null => cases hnext
    | list =>
      rw [step_list_name hname] at hnext
      cases hnext
  | named name nonNull =>
    have hdeclared : ConformingValues.inner config (.named name nonNull) key = some field.typeOf := by
      rw [ConformingValues.inner, show config.findType name = some owner from howner, Option.bind_some, declaredType, hget]
      rfl
    have hne : value ≠ .null := by
      rintro rfl
      cases hnext
    obtain ⟨fields, rfl, hmembers, -⟩ := h.members hne hdeclared
    exact hmembers.present hdeclared hnext

theorem conforms_item {ofType : WrappingType} {next : ConstValue}
    (h : Conforms config formats false type value) (htype : itemType type = some ofType)
    (hnext : step value key = some next) : Conforms config formats false ofType next := by
  cases type with
  | named => cases htype
  | list ofType' nonNull =>
    obtain rfl := Option.some.inj htype
    cases h with
    | null => cases hnext
    | list hitems =>
      obtain ⟨index, -, hitem⟩ := Option.bind_eq_some_iff.mp hnext
      exact hitems next (List.mem_of_getElem? hitem)

theorem getPath_endType {path : List String} {ending : WrappingType} {found : ConstValue}
    (htype : endType config path type = some ending) (h : Conforms config formats false type value)
    (hfound : getPath value path = some found) : Conforms config formats false ending found := by
  induction path generalizing type value with
  | nil =>
    obtain rfl := Option.some.inj htype
    obtain rfl := Option.some.inj hfound
    exact h
  | cons key path ih =>
    rw [getPath_step] at hfound
    obtain ⟨next, hnext, hfound⟩ := Option.bind_eq_some_iff.mp hfound
    obtain ⟨nextType, hnextType, htype⟩ := Option.bind_eq_some_iff.mp htype
    refine ih htype ?_ hfound
    split at hnextType
    next hname =>
      obtain ⟨⟨owner, field⟩, hfield, rfl⟩ := Option.map_eq_some_iff.mp hnextType
      exact conforms_field h hname hfield hnext
    next => exact conforms_item h hnextType hnext

theorem conforms_intoNullable (h : Conforms config formats false type value) :
    Conforms config formats false (intoNullable type) value := by
  cases h with
  | @null type => cases type <;> exact .null rfl
  | list hitems => exact .list hitems
  | object hfound hscalar hpresent habsent hknown => exact .object hfound hscalar hpresent habsent hknown
  | custom hfound hscalar hne => exact .custom hfound hscalar hne
  | scalar hfound hvalue hne => exact .scalar hfound hvalue hne
  | enum hfound henum hvariant hvalue => exact .enum hfound henum hvariant hvalue
  | union hclosed hfound hunion hmember hvalue => exact .union hclosed hfound hunion hmember hvalue

def wrapped (type : WrappingType) : ℕ → WrappingType
  | 0 => type
  | lists + 1 => .list (wrapped type lists) false

theorem depth_wrapped (type : WrappingType) (lists : ℕ) : depth (wrapped type lists) = lists + depth type := by
  induction lists with
  | zero => simp [wrapped]
  | succ lists ih =>
    rw [wrapped, depth, ih]
    omega

theorem name_wrapped (type : WrappingType) (lists : ℕ) : (wrapped type lists).name = type.name := by
  induction lists with
  | zero => rfl
  | succ lists ih => exact ih

theorem depth_intoNullable (type : WrappingType) : depth (intoNullable type) = depth type := by
  cases type <;> rfl

theorem name_intoNullable (type : WrappingType) : (intoNullable type).name = type.name := by
  cases type <;> rfl

theorem conforms_wrapped (h : Conforms config formats false type value) :
    Conforms config formats false (wrapped (.named type.name false) (depth type)) value := by
  induction type generalizing value with
  | named name nonNull => exact conforms_intoNullable h
  | list ofType nonNull ih =>
    rw [depth, wrapped]
    cases h with
    | null => exact .null rfl
    | list hitems => exact .list fun item hitem => ih (hitems item hitem)

end Types

end Gqlforge.FollowedPaths
