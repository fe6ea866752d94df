import Gqlforge.Config
import Gqlforge.EvalContext

namespace Gqlforge.ConformingValues

open Json Schema Config

def isNumber : ConstValue → Bool
  | .number _ => true
  | _ => false

def scalarValue (formats : Scalar.Formats) (name : String) (value : ConstValue) : Bool :=
  if name = "Boolean" then value.asBool.isSome
  else if name = "Int" then value.asInt.isSome
  else if name = "Float" then isNumber value
  else if name = "ID" then value.asStr.isSome || value.asInt.isSome
  else if name = "String" then value.asStr.isSome
  else (Scalar.find name).any (Scalar.validate formats · value)

theorem scalarValue_object {formats : Scalar.Formats} {name : String} {fields : Object ConstValue}
    (h : scalarValue formats name (.object fields) = true) : scalarValue formats name (.boolean true) = true := by
  unfold scalarValue at h ⊢
  split
  · rfl
  · next hboolean =>
    simp only [hboolean, if_false, isNumber, ConstValue.asInt, ConstValue.asStr] at h ⊢
    split at h
    · cases h
    split at h
    · cases h
    split at h
    · cases h
    split at h
    · cases h
    next hint hfloat hid hstring =>
    simp only [hint, hfloat, hid, hstring, if_false]
    obtain ⟨scalar, hscalar, hvalid⟩ := Option.any_eq_true _ _ |>.mp h
    refine Option.any_eq_true _ _ |>.mpr ⟨scalar, hscalar, ?_⟩
    cases scalar <;> first | rfl | cases hvalid

section

variable {P : Payloads} (config : Config P) (formats : Scalar.Formats)

def declaredType (typeDef : TypeDef P) (key : String) : Option WrappingType :=
  (typeDef.fields.get? key).map (·.typeOf)

def inner : WrappingType → String → Option WrappingType
  | .named name _, key => (config.findType name).bind (declaredType · key)
  | .list _ _, _ => none

inductive Conforms (closed : Bool) : WrappingType → ConstValue → Prop where
  | null {type : WrappingType} : type.isNullable = true → Conforms closed type .null
  | list {ofType : WrappingType} {nonNull : Bool} {items : List ConstValue} :
      (∀ item ∈ items, Conforms closed ofType item) → Conforms closed (.list ofType nonNull) (.list items)
  | object {name : String} {nonNull : Bool} {typeDef : TypeDef P} {fields : Object ConstValue} :
      config.findType name = some typeDef → typeDef.scalar = false →
      (∀ {key : String} {type : WrappingType} {value : ConstValue}, declaredType typeDef key = some type →
        fields.getKey key = some value → Conforms closed type value) →
      (∀ {key : String} {type : WrappingType}, declaredType typeDef key = some type → fields.getKey key = none →
        type.isNullable = true) →
      (closed = true → ∀ {key : String}, declaredType typeDef key = none → fields.getKey key = none) →
      Conforms closed (.named name nonNull) (.object fields)
  | custom {name : String} {nonNull : Bool} {typeDef : TypeDef P} {value : ConstValue} :
      config.findType name = some typeDef → typeDef.scalar = true → value ≠ .null →
      Conforms closed (.named name nonNull) value
  | scalar {name : String} {nonNull : Bool} {value : ConstValue} :
      config.findType name = none → scalarValue formats name value = true → value ≠ .null →
      Conforms closed (.named name nonNull) value
  | enum {name : String} {nonNull : Bool} {enum : Enum} {variant : Variant} {value : ConstValue} :
      config.findType name = none → config.findEnum name = some enum → variant ∈ enum.variants.items →
      value = .enum variant.name ∨ value = .string variant.name → Conforms closed (.named name nonNull) value
  | union {name member : String} {nonNull : Bool} {union : Union} {value : ConstValue} :
      closed = false → config.findType name = none → config.findUnion name = some union →
      member ∈ union.types.items → Conforms closed (.named member true) value →
      Conforms closed (.named name nonNull) value

/-- What the entries of an object have to be. No other entries are in it when it is `closed`. -/
structure Members (closed : Bool) (declared : String → Option WrappingType) (fields : Object ConstValue) :
    Prop where
  present : ∀ {key : String} {type : WrappingType} {value : ConstValue},
    declared key = some type → fields.getKey key = some value → Conforms config formats closed type value
  absent : ∀ {key : String} {type : WrappingType},
    declared key = some type → fields.getKey key = none → type.isNullable = true
  known : closed = true → ∀ {key : String}, declared key = none → fields.getKey key = none

def leads (declared : String → Option WrappingType) : List String → Bool
  | [] => true
  | key :: path => match declared key with
    | some type => !type.isNullable && (path.isEmpty || leads (inner config type) path)
    | none => false

def typeAt (declared : String → Option WrappingType) : List String → Option WrappingType
  | [] => none
  | [key] => declared key
  | key :: path => (declared key).bind fun type => typeAt (inner config type) path

end

section Conforming

variable {P : Payloads} {config : Config P} {formats : Scalar.Formats} {closed : Bool}

variable {type : WrappingType} {value : ConstValue}

theorem Conforms.ne_null (h : Conforms config formats closed type value)
    (hn : type.isNullable = false) : value ≠ .null := by
  rintro rfl
  generalize hv : ConstValue.null = value at h
  induction h with
  | null hnullable => rw [hn] at hnullable; cases hnullable
  | list => cases hv
  | object => cases hv
  | custom _ _ hne => exact hne hv.symm
  | scalar _ _ hne => exact hne hv.symm
  | enum _ _ _ hvalue => subst hv; rcases hvalue with h | h <;> cases h
  | union _ _ _ _ _ ih => exact ih rfl hv

variable {key : String}

theorem Conforms.members {innerType : WrappingType} (h : Conforms config formats closed type value)
    (hne : value ≠ .null) (hinner : inner config type key = some innerType) :
    ∃ fields, value = .object fields ∧ Members config formats closed (inner config type) fields ∧
      ∀ fields', Members config formats closed (inner config type) fields' →
        Conforms config formats closed type (.object fields') := by
  have hfind {name : String} {nonNull : Bool} (hnone : config.findType name = none)
      (hsome : inner config (.named name nonNull) key = some innerType) : False := by
    rw [inner, hnone] at hsome
    cases hsome
  cases h with
  | null => exact absurd rfl hne
  | list => cases hinner
  | @object name nonNull typeDef fields hfound hscalar hpresent habsent hknown =>
    have heq : inner config (.named name nonNull) = declaredType typeDef := by
      funext key
      rw [inner, hfound]
      rfl
    rw [heq]
    exact ⟨fields, rfl, ⟨hpresent, habsent, hknown⟩, fun _ hm => .object hfound hscalar hm.present hm.absent hm.known⟩
  | @custom name nonNull typeDef _ hfound hscalar =>
    rw [inner, hfound] at hinner
    obtain ⟨field, hfield, -⟩ := Option.map_eq_some_iff.mp hinner
    have hempty : typeDef.fields.entries = [] := List.isEmpty_iff.mp hscalar
    rw [Dict.get?, hempty] at hfield
    cases hfield
  | scalar hnone => exact (hfind hnone hinner).elim
  | enum hnone => exact (hfind hnone hinner).elim
  | union _ hnone => exact (hfind hnone hinner).elim

theorem Conforms.shallow
    (h : Conforms config formats true type value) (hne : value ≠ .null) (hinner : inner config type key = none) :
    ∃ value', Conforms config formats true type value' ∧ value' ≠ .null ∧ value'.getKey key = none := by
  cases h with
  | null => exact absurd rfl hne
  | list hitems => exact ⟨_, .list hitems, hne, rfl⟩
  | @object name nonNull typeDef fields hfound hscalar hpresent habsent hknown =>
    refine ⟨_, .object hfound hscalar hpresent habsent hknown, hne, hknown rfl ?_⟩
    rw [inner, hfound] at hinner
    exact hinner
  | custom hfound hscalar =>
    exact ⟨.boolean true, .custom hfound hscalar ConstValue.noConfusion, ConstValue.noConfusion, rfl⟩
  | scalar hfound hvalue =>
    cases value with
    | object fields =>
      exact ⟨.boolean true, .scalar hfound (scalarValue_object hvalue) ConstValue.noConfusion,
        ConstValue.noConfusion, rfl⟩
    | null => exact absurd rfl hne
    | _ => exact ⟨_, .scalar hfound hvalue hne, hne, rfl⟩
  | enum hfound henum hvariant hvalue =>
    refine ⟨value, .enum hfound henum hvariant hvalue, hne, ?_⟩
    rcases hvalue with rfl | rfl <;> rfl
  | union hclosed => cases hclosed

theorem Members.insert {declared : String → Option WrappingType} {fields : Object ConstValue} {key : String}
    {type : WrappingType} {value : ConstValue} (h : Members config formats closed declared fields)
    (hdeclared : declared key = some type) (hvalue : Conforms config formats closed type value) :
    Members config formats closed declared (fields.insertKey key value) where
  present := by
    intro other otherType otherValue hother hget
    by_cases he : other = key
    · subst he
      rw [Object.getKey_insertKey] at hget
      rw [hdeclared] at hother
      obtain rfl := Option.some.inj hget
      obtain rfl := Option.some.inj hother
      exact hvalue
    · rw [Object.getKey_insertKey_of_ne _ _ _ _ he] at hget
      exact h.present hother hget
  absent := by
    intro other otherType hother hget
    by_cases he : other = key
    · subst he
      rw [Object.getKey_insertKey] at hget
      cases hget
    · rw [Object.getKey_insertKey_of_ne _ _ _ _ he] at hget
      exact h.absent hother hget
  known := by
    intro hclosed other hother
    have he : other ≠ key := by
      rintro rfl
      rw [hdeclared] at hother
      cases hother
    rw [Object.getKey_insertKey_of_ne _ _ _ _ he]
    exact h.known hclosed hother

theorem getKey_insertKey_isSome {fields : Object ConstValue} {other : String}
    (h : (fields.getKey other).isSome = true) : ((fields.insertKey key value).getKey other).isSome = true := by
  by_cases he : other = key
  · rw [he, Object.getKey_insertKey]
    rfl
  · rw [Object.getKey_insertKey_of_ne _ _ _ _ he]
    exact h

end Conforming

section Lookup

def IsName (key : String) : Prop :=
  Scalar.parseInt 0 (2 ^ 64 - 1) key = none

variable {key : String}

theorem getPath_cons (hkey : IsName key) (value : ConstValue) (path : List String) :
    EvalContext.getPath value (key :: path) = (value.getKey key).bind (EvalContext.getPath · path) := by
  cases value with
  | list items =>
    unfold IsName at hkey
    rw [EvalContext.getPath, hkey]
    rfl
  | _ => rfl

variable {path : List String}

theorem getPath_null {value : ConstValue} (h : EvalContext.getPath .null path = some value) : value = .null := by
  cases path with
  | nil => exact (Option.some.inj h).symm
  | cons key path => cases h

variable {P : Payloads} {config : Config P} {formats : Scalar.Formats} {closed : Bool}

variable {declared : String → Option WrappingType}

theorem leads_cons :
    leads config declared (key :: path) = true ↔ ∃ type, declared key = some type ∧ type.isNullable = false ∧
      leads config (inner config type) path = true := by
  rw [leads]
  cases declared key with
  | none => simp
  | some type =>
    cases path with
    | nil => simp [leads]
    | cons => simp

variable {type : WrappingType}

theorem typeAt_cons {next : String} : typeAt config declared (key :: next :: path) = some type ↔
      ∃ first, declared key = some first ∧ typeAt config (inner config first) (next :: path) = some type := by
  rw [typeAt]
  exact Option.bind_eq_some_iff
  simp

variable {fields : Object ConstValue}

theorem Members.get
 (h : Members config formats closed declared fields) (hdeclared : declared key = some type)
    (hnullable : type.isNullable = false) :
    ∃ value, fields.getKey key = some value ∧ Conforms config formats closed type value ∧ value ≠ .null := by
  cases hget : fields.getKey key with
  | none =>
    rw [h.absent hdeclared hget] at hnullable
    cases hnullable
  | some value =>
    have hvalue := h.present hdeclared hget
    exact ⟨value, rfl, hvalue, hvalue.ne_null hnullable⟩

theorem leads_getPath (h : Members config formats closed declared fields) (hl : leads config declared path = true)
    (hnames : ∀ key ∈ path, IsName key) :
    ∃ value, EvalContext.getPath (.object fields) path = some value ∧ value ≠ .null := by
  induction path generalizing declared fields with
  | nil => exact ⟨_, rfl, fun h => by cases h⟩
  | cons key path ih =>
    obtain ⟨type, hdeclared, hnullable, hrest⟩ := leads_cons.mp hl
    obtain ⟨value, hget, hvalue, hne⟩ := h.get hdeclared hnullable
    have hget' : (ConstValue.object fields).getKey key = some value := hget
    rw [getPath_cons (hnames key List.mem_cons_self), hget', Option.bind_some]
    cases path with
    | nil => exact ⟨value, rfl, hne⟩
    | cons next path =>
      obtain ⟨nextType, hnext, -, -⟩ := leads_cons.mp hrest
      obtain ⟨inside, rfl, hinside, -⟩ := hvalue.members hne hnext
      exact ih hinside hrest fun key hk => hnames key (List.mem_cons_of_mem _ hk)

theorem getPath_conforms
 {value : ConstValue} (h : Members config formats closed declared fields)
    (htype : typeAt config declared path = some type) (hnames : ∀ key ∈ path, IsName key)
    (hvalue : EvalContext.getPath (.object fields) path = some value) : Conforms config formats closed type value := by
  induction path generalizing declared fields with
  | nil => cases htype
  | cons key path ih =>
    rw [getPath_cons (hnames key List.mem_cons_self)] at hvalue
    obtain ⟨first, hget, hrest⟩ := Option.bind_eq_some_iff.mp hvalue
    have hget' : fields.getKey key = some first := hget
    cases path with
    | nil =>
      obtain rfl := Option.some.inj hrest
      exact h.present htype hget'
    | cons next path =>
      obtain ⟨firstType, hdeclared, hbelow⟩ := typeAt_cons.mp htype
      have hfirst := h.present hdeclared hget'
      have hne : first ≠ .null := by
        rintro rfl
        cases hrest
      have hnext : ∃ nextType, inner config firstType next = some nextType := by
        cases path with
        | nil => exact ⟨type, hbelow⟩
        | cons => exact (typeAt_cons.mp hbelow).imp fun _ h => h.1
      obtain ⟨nextType, hnext⟩ := hnext
      obtain ⟨inside, rfl, hinside, -⟩ := hfirst.members hne hnext
      exact ih hinside hbelow (fun key hk => hnames key (List.mem_cons_of_mem _ hk)) hrest

theorem typeAt_first (h : (typeAt config declared (key :: path)).isSome = true) : ∃ type, declared key = some type := by
  obtain ⟨type, htype⟩ := Option.isSome_iff_exists.mp h
  cases path with
  | nil => exact ⟨type, htype⟩
  | cons => exact (typeAt_cons.mp htype).imp fun _ h => h.1

theorem exists_hole (h : Members config formats closed declared fields) (hl : leads config declared path = false)
    (hnames : ∀ key ∈ path, IsName key) (hknown : closed = true ∨ (typeAt config declared path).isSome = true) :
    ∃ fields', Members config formats closed declared fields' ∧
      (∀ key, (fields.getKey key).isSome = true → (fields'.getKey key).isSome = true) ∧
      ∀ value, EvalContext.getPath (.object fields') path = some value → value = .null := by
  induction path generalizing declared fields with
  | nil => cases hl
  | cons key path ih =>
    have hname := hnames key List.mem_cons_self
    cases hdeclared : declared key with
    | none =>
      rcases hknown with rfl | hknown
      · refine ⟨fields, h, fun _ => id, fun value hvalue => ?_⟩
        have hget : (ConstValue.object fields).getKey key = none := h.known rfl hdeclared
        rw [getPath_cons hname, hget] at hvalue
        cases hvalue
      · obtain ⟨type, htype⟩ := typeAt_first hknown
        rw [hdeclared] at htype
        cases htype
    | some type =>
      -- The new object differs from the old one in this field alone.
      have hinsert {replaced : ConstValue} (hreplaced : Conforms config formats closed type replaced)
          (hbelow : ∀ value, EvalContext.getPath replaced path = some value → value = .null) :
          ∃ fields', Members config formats closed declared fields' ∧
            (∀ key, (fields.getKey key).isSome = true → (fields'.getKey key).isSome = true) ∧
            ∀ value, EvalContext.getPath (.object fields') (key :: path) = some value → value = .null := by
        refine ⟨fields.insertKey key replaced, h.insert hdeclared hreplaced,
          fun _ => getKey_insertKey_isSome, fun value hvalue => ?_⟩
        have hget : (ConstValue.object (fields.insertKey key replaced)).getKey key = some replaced :=
          Object.getKey_insertKey fields key replaced
        rw [getPath_cons hname, hget, Option.bind_some] at hvalue
        exact hbelow value hvalue
      cases hnullable : type.isNullable with
      | true => exact hinsert (.null hnullable) fun _ => getPath_null
      | false =>
        obtain ⟨value, hget, hvalue, hne⟩ := h.get hdeclared hnullable
        have hrest : leads config (inner config type) path = false := by
          cases hrest : leads config (inner config type) path with
          | false => rfl
          | true => rw [leads_cons.mpr ⟨type, hdeclared, hnullable, hrest⟩] at hl; cases hl
        have hnames' : ∀ key ∈ path, IsName key := fun key hk => hnames key (List.mem_cons_of_mem _ hk)
        cases path with
        | nil => cases hrest
        | cons next path =>
          cases hnext : inner config type next with
          | some nextType =>
            obtain ⟨inside, rfl, hinside, hreplace⟩ := hvalue.members hne hnext
            have hknown' : closed = true ∨ (typeAt config (inner config type) (next :: path)).isSome = true := by
              refine hknown.imp_right fun hsome => ?_
              rw [typeAt, hdeclared] at hsome
              · exact hsome
              · simp
            obtain ⟨inside', hinside', -, hhole⟩ := ih hinside hrest hnames' hknown'
            exact hinsert (hreplace inside' hinside') hhole
          | none =>
            rcases hknown with rfl | hknown
            · obtain ⟨value', hvalue', -, hnone⟩ := hvalue.shallow hne hnext
              refine hinsert hvalue' fun found hfound => ?_
              rw [getPath_cons (hnames' next List.mem_cons_self), hnone] at hfound
              cases hfound
            · rw [typeAt, hdeclared] at hknown
              · obtain ⟨_, htype⟩ := typeAt_first hknown
                rw [hnext] at htype
                cases htype
              · simp

end Lookup

end Gqlforge.ConformingValues
