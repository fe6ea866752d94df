import Gqlforge.SchemaUsage
import Mathlib.Data.Finset.Sort

namespace Gqlforge.SchemaValues

open Json Config Schema SchemaUsage

section Declarations

variable {P : Payloads}

inductive Decl (P : Payloads) where
  | union (union : Union)
  | object (type : TypeDef P)
  | scalar
  | enum (enum : Enum)
  | undeclared

def declOf (config : Config P) (name : String) : Decl P :=
  match config.findUnion name with
  | some union => .union union
  | none =>
    match config.findType name with
    | some type => if type.scalar then .scalar else .object type
    | none =>
      match config.findEnum name with
      | some enum => .enum enum
      | none => .undeclared

def SameKind : Decl P → Decl P → Prop
  | .union _, .union _ | .object _, .object _ | .scalar, .scalar | .enum _, .enum _
  | .undeclared, .undeclared => True
  | _, _ => False

def Decl.Composite : Decl P → Prop
  | .union _ | .object _ | .enum _ => True
  | .scalar | .undeclared => False

def Variant.names (variant : Variant) : List String :=
  variant.name :: (variant.aliases.elim [] fun aliases => aliases.options.sort (· ≤ ·))

def IsVariant (enum : Enum) (value : ConstValue) : Prop :=
  ∃ variant ∈ enum.variants.items, ∃ name ∈ Variant.names variant, value = .enum name ∨ value = .string name

def Required (field : Config.Field P) : Prop :=
  field.typeOf.isNullable = false ∧ field.defaultValue = none

end Declarations

/-- The two types have the same lists around the same name, and what the second does not allow to be null
the first does not. -/
def Narrows : WrappingType → WrappingType → Prop
  | .named name nonNull, .named otherName otherNonNull => name = otherName ∧ (otherNonNull = true → nonNull = true)
  | .list ofType nonNull, .list otherOfType otherNonNull =>
    Narrows ofType otherOfType ∧ (otherNonNull = true → nonNull = true)
  | _, _ => False

theorem Narrows.refl (t : WrappingType) : Narrows t t := by
  induction t with
  | named name nonNull => exact ⟨rfl, id⟩
  | list ofType nonNull ih => exact ⟨ih, id⟩

theorem Narrows.of_named {name : String} {nonNull : Bool} {u : WrappingType} (h : Narrows (.named name nonNull) u) :
    ∃ otherNonNull, u = .named name otherNonNull := by
  cases u with
  | named otherName otherNonNull => exact ⟨otherNonNull, by rw [h.1]⟩
  | list otherOfType otherNonNull => exact h.elim

theorem Narrows.name_eq (t u : WrappingType) (h : Narrows t u) : t.name = u.name := by
  induction t generalizing u with
  | named name nonNull =>
    cases u with
    | named otherName otherNonNull => exact h.1
    | list otherOfType otherNonNull => exact h.elim
  | list ofType nonNull ih =>
    cases u with
    | named otherName otherNonNull => exact h.elim
    | list otherOfType otherNonNull => exact ih otherOfType h.1

theorem Narrows.isNullable (t u : WrappingType) (h : Narrows t u) (hn : t.isNullable = true) : u.isNullable = true := by
  cases t with
  | named name nonNull =>
    cases u with
    | named otherName otherNonNull =>
      have := h.2
      cases otherNonNull <;> simp_all [WrappingType.isNullable]
    | list otherOfType otherNonNull => exact h.elim
  | list ofType nonNull =>
    cases u with
    | named otherName otherNonNull => exact h.elim
    | list otherOfType otherNonNull =>
      have := h.2
      cases otherNonNull <;> simp_all [WrappingType.isNullable]

section Inputs

variable {P : Payloads} (builtin : String → ConstValue → Prop)

/-- The values an input type stands for. What is accepted for a name that is not declared is left open. -/
inductive Accepts (config : Config P) : WrappingType → ConstValue → Prop where
  | null (typeOf : WrappingType) (h : typeOf.isNullable = true) : Accepts config typeOf .null
  | list (ofType : WrappingType) (nonNull : Bool) (items : List ConstValue)
      (h : ∀ item ∈ items, Accepts config ofType item) : Accepts config (.list ofType nonNull) (.list items)
  | undeclared (name : String) (nonNull : Bool) (value : ConstValue) (hd : declOf config name = .undeclared)
      (hn : value ≠ .null) (h : builtin name value) : Accepts config (.named name nonNull) value
  | scalar (name : String) (nonNull : Bool) (value : ConstValue) (hd : declOf config name = .scalar)
      (hn : value ≠ .null) : Accepts config (.named name nonNull) value
  | enum (name : String) (nonNull : Bool) (value : ConstValue) (enum : Enum) (hd : declOf config name = .enum enum)
      (h : IsVariant enum value) : Accepts config (.named name nonNull) value
  | union (name : String) (nonNull : Bool) (value : ConstValue) (union : Union) (member : String)
      (hd : declOf config name = .union union) (hm : member ∈ union.types.items)
      (h : Accepts config (.named member true) value) : Accepts config (.named name nonNull) value
  | object (name : String) (nonNull : Bool) (fields : List (String × ConstValue)) (type : TypeDef P)
      (hd : declOf config name = .object type)
      (hk : ∀ key value, (key, value) ∈ fields → ∃ field, type.fields.get? key = some field)
      (hv : ∀ key value, (key, value) ∈ fields → ∀ field, type.fields.get? key = some field →
        Accepts config field.typeOf value)
      (hr : ∀ key field, type.fields.get? key = some field → Required field → ∃ value, (key, value) ∈ fields) :
      Accepts config (.named name nonNull) (.object fields)

/-- At the name the second config accepts what the first does, if it does so at the names in `pos`. -/
def NarrowedAt (narrow wide : Config P) (pos : String → Prop) (name : String) : Prop :=
  match declOf narrow name with
  | .undeclared => declOf wide name = .undeclared
  | .scalar => declOf wide name = .scalar
  | .enum enum => ∃ wideEnum, declOf wide name = .enum wideEnum ∧
      ∀ variant ∈ enum.variants.items, variant ∈ wideEnum.variants.items
  | .union union => ∃ wideUnion, declOf wide name = .union wideUnion ∧
      ∀ member ∈ union.types.items, member ∈ wideUnion.types.items ∧ pos member
  | .object type => ∃ wideType, declOf wide name = .object wideType ∧
      (∀ key field, type.fields.get? key = some field → ∃ wideField, wideType.fields.get? key = some wideField ∧
        Narrows field.typeOf wideField.typeOf ∧ pos wideField.typeOf.name) ∧
      ∀ key wideField, wideType.fields.get? key = some wideField → Required wideField →
        ∃ field, type.fields.get? key = some field ∧ Required field

theorem accepts_of_narrowed (narrow wide : Config P) (pos : String → Prop)
    (hpos : ∀ name, pos name → NarrowedAt narrow wide pos name) (t : WrappingType) (value : ConstValue)
    (h : Accepts builtin narrow t value) (u : WrappingType) (hn : Narrows t u) (hu : pos u.name) :
    Accepts builtin wide u value := by
  induction h generalizing u with
  | null t ht => exact .null u (hn.isNullable t u ht)
  | list ofType nonNull items _ ih =>
    cases u with
    | named otherName otherNonNull => exact hn.elim
    | list otherOfType otherNonNull => exact .list _ _ _ fun item hi => ih item hi otherOfType hn.1 hu
  | undeclared name nonNull value hd hnull hb =>
    obtain ⟨_, rfl⟩ := hn.of_named
    have hat := hpos name hu
    rw [NarrowedAt, hd] at hat
    exact .undeclared _ _ _ hat hnull hb
  | scalar name nonNull value hd hnull =>
    obtain ⟨_, rfl⟩ := hn.of_named
    have hat := hpos name hu
    rw [NarrowedAt, hd] at hat
    exact .scalar _ _ _ hat hnull
  | enum name nonNull value enum hd hv =>
    obtain ⟨_, rfl⟩ := hn.of_named
    have hat := hpos name hu
    rw [NarrowedAt, hd] at hat
    obtain ⟨wideEnum, hwide, hvariants⟩ := hat
    obtain ⟨variant, hm, hnames⟩ := hv
    exact .enum _ _ _ wideEnum hwide ⟨variant, hvariants variant hm, hnames⟩
  | union name nonNull value union member hd hm _ ih =>
    obtain ⟨_, rfl⟩ := hn.of_named
    have hat := hpos name hu
    rw [NarrowedAt, hd] at hat
    obtain ⟨wideUnion, hwide, hmembers⟩ := hat
    obtain ⟨hmember, hp⟩ := hmembers member hm
    exact .union _ _ _ wideUnion member hwide hmember (ih _ (.refl _) hp)
  | object name nonNull fields type hd hk _ hr ih =>
    obtain ⟨_, rfl⟩ := hn.of_named
    have hat := hpos name hu
    rw [NarrowedAt, hd] at hat
    obtain ⟨wideType, hwide, hfields, hrequired⟩ := hat
    refine .object _ _ _ wideType hwide (fun key value hmem => ?_) (fun key value hmem wideField hf => ?_)
      fun key wideField hf hreq => ?_
    · obtain ⟨field, hfield⟩ := hk key value hmem
      obtain ⟨wideField, hf, -⟩ := hfields key field hfield
      exact ⟨wideField, hf⟩
    · obtain ⟨field, hfield⟩ := hk key value hmem
      obtain ⟨wideField', hf', hnarrow, hp⟩ := hfields key field hfield
      obtain rfl := Option.some.inj (hf.symm.trans hf')
      exact ih key value hmem field hfield _ hnarrow hp
    · obtain ⟨field, hfield, hreq'⟩ := hrequired key wideField hf hreq
      exact hr key field hfield hreq'

end Inputs

section Outputs

variable {P : Payloads} (builtin : String → ConstValue → Prop)

/-- The values that may be returned for an output type: for an interface those of the types that reach it,
of an object the fields that were asked for. -/
inductive Conforms (cache : Cache P) : WrappingType → ConstValue → Prop where
  | null (typeOf : WrappingType) (h : typeOf.isNullable = true) : Conforms cache typeOf .null
  | list (ofType : WrappingType) (nonNull : Bool) (items : List ConstValue)
      (h : ∀ item ∈ items, Conforms cache ofType item) : Conforms cache (.list ofType nonNull) (.list items)
  | interface (name : String) (nonNull : Bool) (value : ConstValue) (types : Finset String) (type : String)
      (hi : cache.interfacesTypesMap.get? name = some types) (hm : type ∈ types)
      (h : Conforms cache (.named type true) value) : Conforms cache (.named name nonNull) value
  | undeclared (name : String) (nonNull : Bool) (value : ConstValue)
      (hi : cache.interfacesTypesMap.get? name = none) (hd : declOf cache.config name = .undeclared)
      (hn : value ≠ .null) (h : builtin name value) : Conforms cache (.named name nonNull) value
  | scalar (name : String) (nonNull : Bool) (value : ConstValue) (hi : cache.interfacesTypesMap.get? name = none)
      (hd : declOf cache.config name = .scalar) (hn : value ≠ .null) : Conforms cache (.named name nonNull) value
  | enum (name : String) (nonNull : Bool) (value : ConstValue) (enum : Enum)
      (hi : cache.interfacesTypesMap.get? name = none) (hd : declOf cache.config name = .enum enum)
      (h : IsVariant enum value) : Conforms cache (.named name nonNull) value
  | union (name : String) (nonNull : Bool) (value : ConstValue) (union : Union) (member : String)
      (hi : cache.interfacesTypesMap.get? name = none) (hd : declOf cache.config name = .union union)
      (hm : member ∈ union.types.items) (h : Conforms cache (.named member true) value) :
      Conforms cache (.named name nonNull) value
  | object (name : String) (nonNull : Bool) (fields : List (String × ConstValue)) (type : TypeDef P)
      (hi : cache.interfacesTypesMap.get? name = none) (hd : declOf cache.config name = .object type)
      (hk : ∀ key value, (key, value) ∈ fields → ∃ field, type.fields.get? key = some field)
      (hv : ∀ key value, (key, value) ∈ fields → ∀ field, type.fields.get? key = some field →
        Conforms cache field.typeOf value) : Conforms cache (.named name nonNull) (.object fields)

def DeclWidened (narrow wide : Config P) (pos : String → Prop) (name : String) : Prop :=
  match declOf narrow name with
  | .undeclared => declOf wide name = .undeclared
  | .scalar => declOf wide name = .scalar
  | .enum enum => ∃ wideEnum, declOf wide name = .enum wideEnum ∧
      ∀ variant ∈ enum.variants.items, variant ∈ wideEnum.variants.items
  | .union union => ∃ wideUnion, declOf wide name = .union wideUnion ∧
      ∀ member ∈ union.types.items, member ∈ wideUnion.types.items ∧ pos member
  | .object type => ∃ wideType, declOf wide name = .object wideType ∧
      ∀ key field, type.fields.get? key = some field → ∃ wideField, wideType.fields.get? key = some wideField ∧
        Narrows field.typeOf wideField.typeOf ∧ pos wideField.typeOf.name

/-- What the first module may return at the name the second may, if it is so at the names in `pos`. -/
def WidenedAt (narrow wide : Cache P) (pos : String → Prop) (name : String) : Prop :=
  match narrow.interfacesTypesMap.get? name with
  | some types => ∃ wideTypes, wide.interfacesTypesMap.get? name = some wideTypes ∧
      ∀ type ∈ types, type ∈ wideTypes ∧ pos type
  | none => wide.interfacesTypesMap.get? name = none ∧ DeclWidened narrow.config wide.config pos name

theorem conforms_of_widened (narrow wide : Cache P) (pos : String → Prop)
    (hpos : ∀ name, pos name → WidenedAt narrow wide pos name) (t : WrappingType) (value : ConstValue)
    (h : Conforms builtin narrow t value) (u : WrappingType) (hn : Narrows t u) (hu : pos u.name) :
    Conforms builtin wide u value := by
  have hplain (name : String) (hi : narrow.interfacesTypesMap.get? name = none) (hp : pos name) :
      wide.interfacesTypesMap.get? name = none ∧ DeclWidened narrow.config wide.config pos name := by
    have hat := hpos name hp
    rwa [WidenedAt, hi] at hat
  induction h generalizing u with
  | null t ht => exact .null u (hn.isNullable t u ht)
  | list ofType nonNull items _ ih =>
    cases u with
    | named otherName otherNonNull => exact hn.elim
    | list otherOfType otherNonNull => exact .list _ _ _ fun item hi => ih item hi otherOfType hn.1 hu
  | interface name nonNull value types type hi hm _ ih =>
    obtain ⟨_, rfl⟩ := hn.of_named
    have hat := hpos name hu
    rw [WidenedAt, hi] at hat
    obtain ⟨wideTypes, hwide, htypes⟩ := hat
    obtain ⟨hmem, hp⟩ := htypes type hm
    exact .interface _ _ _ wideTypes type hwide hmem (ih _ (.refl _) hp)
  | undeclared name nonNull value hi hd hnull hb =>
    obtain ⟨_, rfl⟩ := hn.of_named
    obtain ⟨hwide, hat⟩ := hplain name hi hu
    rw [DeclWidened, hd] at hat
    exact .undeclared _ _ _ hwide hat hnull hb
  | scalar name nonNull value hi hd hnull =>
    obtain ⟨_, rfl⟩ := hn.of_named
    obtain ⟨hwide, hat⟩ := hplain name hi hu
    rw [DeclWidened, hd] at hat
    exact .scalar _ _ _ hwide hat hnull
  | enum name nonNull value enum hi hd hv =>
    obtain ⟨_, rfl⟩ := hn.of_named
    obtain ⟨hwide, hat⟩ := hplain name hi hu
    rw [DeclWidened, hd] at hat
    obtain ⟨wideEnum, hdecl, hvariants⟩ := hat
    obtain ⟨variant, hm, hnames⟩ := hv
    exact .enum _ _ _ wideEnum hwide hdecl ⟨variant, hvariants variant hm, hnames⟩
  | union name nonNull value union member hi hd hm _ ih =>
    obtain ⟨_, rfl⟩ := hn.of_named
    obtain ⟨hwide, hat⟩ := hplain name hi hu
    rw [DeclWidened, hd] at hat
    obtain ⟨wideUnion, hdecl, hmembers⟩ := hat
    obtain ⟨hmember, hp⟩ := hmembers member hm
    exact .union _ _ _ wideUnion member hwide hdecl hmember (ih _ (.refl _) hp)
  | object name nonNull fields type hi hd hk _ ih =>
    obtain ⟨_, rfl⟩ := hn.of_named
    obtain ⟨hwide, hat⟩ := hplain name hi hu
    rw [DeclWidened, hd] at hat
    obtain ⟨wideType, hdecl, hfields⟩ := hat
    refine .object _ _ _ wideType hwide hdecl (fun key value hmem => ?_) fun key value hmem wideField hf => ?_
    · obtain ⟨field, hfield⟩ := hk key value hmem
      obtain ⟨wideField, hf, -⟩ := hfields key field hfield
      exact ⟨wideField, hf⟩
    · obtain ⟨field, hfield⟩ := hk key value hmem
      obtain ⟨wideField', hf', hnarrow, hp⟩ := hfields key field hfield
      obtain rfl := Option.some.inj (hf.symm.trans hf')
      exact ih key value hmem field hfield _ hnarrow hp

end Outputs

end Gqlforge.SchemaValues
