import Gqlforge.MergeLookups
import Gqlforge.SchemaValues

namespace Gqlforge.SchemaMerge

open Config Schema Validation SchemaUsage SchemaValues

theorem mergeType_eq_ok (nonNullMerge : Bool → Bool → Bool) (t u e : WrappingType)
    (h : mergeType nonNullMerge t u = .ok e) :
    (∃ name nonNull otherNonNull, t = .named name nonNull ∧ u = .named name otherNonNull ∧
      e = .named name (nonNullMerge nonNull otherNonNull)) ∨
    ∃ ofType nonNull otherOfType otherNonNull merged, t = .list ofType nonNull ∧ u = .list otherOfType otherNonNull ∧
      mergeType nonNullMerge ofType otherOfType = .ok merged ∧
      e = .list merged (nonNullMerge nonNull otherNonNull) := by
  cases t with
  | named name nonNull =>
    cases u with
    | named otherName otherNonNull =>
      rw [mergeType] at h
      split at h
      · cases h
      · next hname =>
        obtain rfl := not_not.mp hname
        exact .inl ⟨name, nonNull, otherNonNull, rfl, rfl, (Except.ok.inj h).symm⟩
    | list otherOfType otherNonNull => cases h
  | list ofType nonNull =>
    cases u with
    | named otherName otherNonNull => cases h
    | list otherOfType otherNonNull =>
      obtain ⟨merged, hm, rfl⟩ := (Valid.mapOk_eq_ok _ _ _).mp h
      exact .inr ⟨ofType, nonNull, otherOfType, otherNonNull, merged, rfl, rfl, hm, rfl⟩

theorem shrinkType_narrows (t u e : WrappingType) (h : shrinkType t u = .ok e) : Narrows e t ∧ Narrows e u := by
  induction t generalizing u e with
  | named name nonNull =>
    rcases mergeType_eq_ok _ _ _ _ h with ⟨name', nonNull', otherNonNull, ht, rfl, rfl⟩ | ⟨_, _, _, _, _, ht, _⟩
    · obtain ⟨rfl, rfl⟩ := WrappingType.named.inj ht
      refine ⟨⟨rfl, fun hn => ?_⟩, ⟨rfl, fun hn => ?_⟩⟩ <;> simp [hn]
    · cases ht
  | list ofType nonNull ih =>
    rcases mergeType_eq_ok _ _ _ _ h with ⟨_, _, _, ht, _⟩ | ⟨ofType', nonNull', otherOfType, otherNonNull, merged,
      ht, rfl, hm, rfl⟩
    · cases ht
    · obtain ⟨rfl, rfl⟩ := WrappingType.list.inj ht
      obtain ⟨hleft, hright⟩ := ih otherOfType merged hm
      refine ⟨⟨hleft, fun hn => ?_⟩, ⟨hright, fun hn => ?_⟩⟩ <;> simp [hn]

theorem expandType_narrows (t u e : WrappingType) (h : expandType t u = .ok e) : Narrows t e ∧ Narrows u e := by
  induction t generalizing u e with
  | named name nonNull =>
    rcases mergeType_eq_ok _ _ _ _ h with ⟨name', nonNull', otherNonNull, ht, rfl, rfl⟩ | ⟨_, _, _, _, _, ht, _⟩
    · obtain ⟨rfl, rfl⟩ := WrappingType.named.inj ht
      refine ⟨⟨rfl, fun hn => ?_⟩, ⟨rfl, fun hn => ?_⟩⟩ <;> simp_all
    · cases ht
  | list ofType nonNull ih =>
    rcases mergeType_eq_ok _ _ _ _ h with ⟨_, _, _, ht, _⟩ | ⟨ofType', nonNull', otherOfType, otherNonNull, merged,
      ht, rfl, hm, rfl⟩
    · cases ht
    · obtain ⟨rfl, rfl⟩ := WrappingType.list.inj ht
      obtain ⟨hleft, hright⟩ := ih otherOfType merged hm
      refine ⟨⟨hleft, fun hn => ?_⟩, ⟨hright, fun hn => ?_⟩⟩ <;> simp_all

section Definitions

variable {P : Payloads} (R : Merging P)

structure ShrunkTo (t u e : TypeDef P) : Prop where
  fields : ∀ key h, e.fields.get? key = some h → ∃ f g, t.fields.get? key = some f ∧ u.fields.get? key = some g ∧
    Narrows h.typeOf f.typeOf ∧ Narrows h.typeOf g.typeOf ∧
    (h.defaultValue = none ↔ f.defaultValue = none ∧ g.defaultValue = none)
  shared : ∀ key f g, t.fields.get? key = some f → u.fields.get? key = some g → ∃ h, e.fields.get? key = some h
  left : ∀ key f, t.fields.get? key = some f → u.fields.get? key = none → f.typeOf.isNullable = true
  right : ∀ key g, u.fields.get? key = some g → t.fields.get? key = none → g.typeOf.isNullable = true

theorem ShrunkTo.symm {t u e : TypeDef P} (h : ShrunkTo t u e) : ShrunkTo u t e := by
  refine ⟨fun key field hf => ?_, fun key f g hf hg => h.shared key g f hg hf, h.right, h.left⟩
  obtain ⟨f, g, hf, hg, hleft, hright, hd⟩ := h.fields key field hf
  exact ⟨g, f, hg, hf, hright, hleft, hd.trans and_comm⟩

structure ExpandedTo (t u e : TypeDef P) : Prop where
  left : ∀ key f, t.fields.get? key = some f → ∃ h, e.fields.get? key = some h ∧ Narrows f.typeOf h.typeOf
  right : ∀ key g, u.fields.get? key = some g → ∃ h, e.fields.get? key = some h ∧ Narrows g.typeOf h.typeOf

theorem ExpandedTo.symm {t u e : TypeDef P} (h : ExpandedTo t u e) : ExpandedTo u t e := ⟨h.right, h.left⟩

theorem shrinkTypeDef_shrunkTo (t u e : TypeDef P) (h : shrinkTypeDef R t u = .ok e) : ShrunkTo t u e := by
  have hf := shrinkTypeDef_eq_ok R t u e h
  have hs := (shrinkDict_succeeds_iff Config.Field.typeOf (shrinkField R) _ _).mp ⟨_, hf⟩
  have hget := get?_shrinkDict Config.Field.typeOf (shrinkField R) _ _ _ hf
  refine ⟨fun key field hfield => ?_, fun key f g hf hg => ?_, hs.left, hs.right⟩
  · obtain ⟨f, g, hf, hg, he⟩ := (hget key field).mp hfield
    obtain ⟨ht, -, hd⟩ := mergeField_eq_ok R shrinkType f g field he
    obtain ⟨hleft, hright⟩ := shrinkType_narrows _ _ _ ht
    refine ⟨f, g, hf, hg, hleft, hright, ?_⟩
    rw [hd]
    cases f.defaultValue <;> simp
  · obtain ⟨e, he⟩ := hs.shared key f g hf hg
    exact ⟨e, (hget key e).mpr ⟨f, g, hf, hg, he⟩⟩

theorem expandTypeDef_expandedTo (t u e : TypeDef P) (h : expandTypeDef R t u = .ok e) : ExpandedTo t u e := by
  have hf := expandTypeDef_eq_ok R t u e h
  have hs := (expandDict_succeeds_iff (expandField R) _ _).mp ⟨_, hf⟩
  have hm := expandDict_mergesTo (expandField R) _ _ _ hf
  have hshared (key : String) (f g : Config.Field P) (hf : t.fields.get? key = some f) (hg : u.fields.get? key = some g) :
      ∃ h, e.fields.get? key = some h ∧ Narrows f.typeOf h.typeOf ∧ Narrows g.typeOf h.typeOf := by
    obtain ⟨field, he⟩ := hs key f g hf hg
    obtain ⟨ht, -, -⟩ := mergeField_eq_ok R expandType f g field he
    exact ⟨field, (hm key field).mpr (.inl ⟨f, g, hf, hg, he⟩), expandType_narrows _ _ _ ht⟩
  refine ⟨fun key f hf => ?_, fun key g hg => ?_⟩
  · cases hg : u.fields.get? key with
    | some g =>
      obtain ⟨field, hfield, hn, -⟩ := hshared key f g hf hg
      exact ⟨field, hfield, hn⟩
    | none => exact ⟨f, (hm key f).mpr (.inr (.inr ⟨hf, hg⟩)), .refl _⟩
  · cases hf : t.fields.get? key with
    | some f =>
      obtain ⟨field, hfield, -, hn⟩ := hshared key f g hf hg
      exact ⟨field, hfield, hn⟩
    | none => exact ⟨g, (hm key g).mpr (.inr (.inl ⟨hf, hg⟩)), .refl _⟩

theorem mergeTypeDef_of_input (a b c d : Bool) (hi : a = true ∨ c = true) (t u e : TypeDef P)
    (h : mergeTypeDef R (usage a b c d) t u = .ok e) : shrinkTypeDef R t u = .ok e := by
  rcases hi with rfl | rfl
  · cases b <;> cases c <;> cases d <;> first | exact h | cases h
  · cases a <;> cases b <;> cases d <;> first | exact h | cases h

theorem mergeTypeDef_of_not_input (way : Usage) (hw : way ≠ .input) (t u e : TypeDef P)
    (h : mergeTypeDef R way t u = .ok e) : expandTypeDef R t u = .ok e := by
  cases way with
  | input => exact absurd rfl hw
  | output => exact h
  | both => cases h
  | different => cases h
  | unknown => cases h

theorem usage_comm (a b c d : Bool) : usage a b c d = usage c d a b := by
  cases a <;> cases b <;> cases c <;> cases d <;> rfl

theorem sameEnum_variants (self other : Enum) (h : sameEnum self other = true) (variant : Variant) :
    variant ∈ self.variants.items ↔ variant ∈ other.variants.items := by
  rw [sameEnum, Bool.and_eq_true, Bool.and_eq_true, List.all_eq_true, List.all_eq_true] at h
  obtain ⟨⟨hself, hother⟩, -⟩ := h
  exact ⟨fun hm => by simpa using hself variant hm, fun hm => by simpa using hother variant hm⟩

theorem mergeEnum_of_input (a b c d : Bool) (hi : a = true ∨ c = true) (self other e : Enum)
    (h : mergeEnum (usage a b c d) self other = .ok e) (variant : Variant) (hv : variant ∈ e.variants.items) :
    variant ∈ self.variants.items ∧ variant ∈ other.variants.items := by
  have hshrink (hs : Valid.succeed (shrinkEnum self other) = (.ok e : Valid Enum String)) :
      variant ∈ self.variants.items ∧ variant ∈ other.variants.items := by
    obtain rfl := Except.ok.inj hs
    simpa [shrinkEnum, Distinct.retain] using hv
  have hboth (hs : (if sameEnum self other then Valid.succeed self else Valid.fail ("Enum is used both as input " ++
      "and output types and in that case the enum content should be equal for every subgraph")) =
        (.ok e : Valid Enum String)) : variant ∈ self.variants.items ∧ variant ∈ other.variants.items := by
    split at hs
    · next hsame =>
      obtain rfl := Except.ok.inj hs
      exact ⟨hv, (sameEnum_variants self other hsame variant).mp hv⟩
    · cases hs
  rcases hi with rfl | rfl
  · cases b <;> cases c <;> cases d <;> first | exact hshrink h | exact hboth h | cases h
  · cases a <;> cases b <;> cases d <;> first | exact hshrink h | exact hboth h | cases h

theorem mergeEnum_of_not_input (way : Usage) (hw : way ≠ .input) (self other e : Enum)
    (h : mergeEnum way self other = .ok e) (variant : Variant)
    (hv : variant ∈ self.variants.items ∨ variant ∈ other.variants.items) : variant ∈ e.variants.items := by
  cases way with
  | input => exact absurd rfl hw
  | output =>
    obtain rfl := Except.ok.inj h
    exact (Distinct.mem_mergeRight _ _ _).mpr hv
  | both =>
    rw [mergeEnum] at h
    split at h
    · next hsame =>
      obtain rfl := Except.ok.inj h
      exact hv.elim id (sameEnum_variants _ _ hsame variant).mpr
    · cases h
  | different => cases h
  | unknown => cases h

end Definitions

section Declarations

variable {P : Payloads} {config : Config P}

theorem declOf_union_iff (name : String) (union : Union) :
    declOf config name = .union union ↔ config.unions.get? name = some union := by
  rw [declOf, Config.findUnion]
  cases config.unions.get? name with
  | some u => simp
  | none =>
    cases config.findType name with
    | some type => cases h : type.scalar <;> simp [h]
    | none => cases config.findEnum name <;> simp

theorem declOf_object_iff (name : String) (type : TypeDef P) :
    declOf config name = .object type ↔
      config.unions.get? name = none ∧ config.types.get? name = some type ∧ type.scalar = false := by
  rw [declOf, Config.findUnion, Config.findType]
  cases config.unions.get? name with
  | some u => simp
  | none =>
    cases config.types.get? name with
    | some t =>
      by_cases h : t.scalar = true
      · simp only [h, if_true, reduceCtorEq, true_and, Option.some.injEq, false_iff, not_and]
        rintro rfl
        simp [h]
      · simp only [h, Bool.false_eq_true, if_false, Decl.object.injEq, true_and, Option.some.injEq]
        constructor
        · rintro rfl
          exact ⟨rfl, by simpa using h⟩
        · exact And.left
    | none => cases config.findEnum name <;> simp

theorem declOf_scalar_iff (name : String) :
    declOf config name = .scalar ↔
      config.unions.get? name = none ∧ ∃ type, config.types.get? name = some type ∧ type.scalar = true := by
  rw [declOf, Config.findUnion, Config.findType]
  cases config.unions.get? name with
  | some u => simp
  | none =>
    cases config.types.get? name with
    | some t => cases h : t.scalar <;> simp [h]
    | none => cases config.findEnum name <;> simp

theorem declOf_enum_iff (name : String) (enum : Enum) :
    declOf config name = .enum enum ↔
      config.unions.get? name = none ∧ config.types.get? name = none ∧ config.enums.get? name = some enum := by
  rw [declOf, Config.findUnion, Config.findType, Config.findEnum]
  cases config.unions.get? name with
  | some u => simp
  | none =>
    cases config.types.get? name with
    | some t => cases h : t.scalar <;> simp [h]
    | none => cases config.enums.get? name <;> simp

theorem declOf_undeclared_iff (name : String) :
    declOf config name = .undeclared ↔
      config.unions.get? name = none ∧ config.types.get? name = none ∧ config.enums.get? name = none := by
  rw [declOf, Config.findUnion, Config.findType, Config.findEnum]
  cases config.unions.get? name with
  | some u => simp
  | none =>
    cases config.types.get? name with
    | some t => cases h : t.scalar <;> simp [h]
    | none => cases config.enums.get? name <;> simp

theorem declOf_eq_of_get?_eq (other : Config P) (name : String)
    (hu : other.unions.get? name = config.unions.get? name) (ht : other.types.get? name = config.types.get? name)
    (he : other.enums.get? name = config.enums.get? name) : declOf other name = declOf config name := by
  rw [declOf, declOf, Config.findUnion, Config.findUnion, Config.findType, Config.findType, Config.findEnum,
    Config.findEnum, hu, ht, he]

theorem scalar_eq_false (type : TypeDef P) (key : String) (field : Config.Field P)
    (h : type.fields.get? key = some field) : type.scalar = false := by
  have hm := (Dict.get?_eq_some_iff type.fields key field).mp h
  rw [TypeDef.scalar]
  cases he : type.fields.entries with
  | nil =>
    rw [he] at hm
    cases hm
  | cons entry rest => rfl

theorem get?_of_scalar (type : TypeDef P) (h : type.scalar = true) (key : String) : type.fields.get? key = none := by
  rw [Option.eq_none_iff_forall_ne_some]
  intro field hf
  exact absurd h (by rw [scalar_eq_false type key field hf]; decide)

theorem exists_field (type : TypeDef P) (h : type.scalar = false) : ∃ key field, type.fields.get? key = some field := by
  rw [TypeDef.scalar] at h
  cases he : type.fields.entries with
  | nil => simp [he] at h
  | cons entry rest =>
    exact ⟨entry.1, entry.2, (Dict.get?_eq_some_iff _ _ _).mpr (by rw [he]; exact List.mem_cons_self)⟩

end Declarations

section Merged

variable {P : Payloads} (R : Merging P)

def IsInput (X Y : Cache P) (name : String) : Prop :=
  name ∈ X.inputTypes ∨ name ∈ Y.inputTypes

theorem IsInput.symm {X Y : Cache P} {name : String} (h : IsInput X Y name) : IsInput Y X name := Or.symm h

structure MergeOf (X Y M : Cache P) : Prop where
  left : ∀ name, declOf Y.config name = .undeclared → declOf M.config name = declOf X.config name
  right : ∀ name, declOf X.config name = .undeclared → declOf M.config name = declOf Y.config name
  unions : ∀ name u v, declOf X.config name = .union u → declOf Y.config name = .union v →
    ∃ w, declOf M.config name = .union w ∧
      ∀ member, member ∈ w.types.items ↔ member ∈ u.types.items ∨ member ∈ v.types.items
  scalars : ∀ name, declOf X.config name = .scalar → declOf Y.config name = .scalar →
    declOf M.config name = .scalar
  inputObjects : ∀ name t u, declOf X.config name = .object t → declOf Y.config name = .object u →
    IsInput X Y name → ∃ e, ShrunkTo t u e ∧ declOf M.config name = if e.scalar then .scalar else .object e
  outputObjects : ∀ name t u, declOf X.config name = .object t → declOf Y.config name = .object u →
    typeUsage X Y name ≠ .input → ∃ e, ExpandedTo t u e ∧ declOf M.config name = .object e
  inputEnums : ∀ name a b, declOf X.config name = .enum a → declOf Y.config name = .enum b →
    IsInput X Y name → ∃ e, declOf M.config name = .enum e ∧
      ∀ variant ∈ e.variants.items, variant ∈ a.variants.items ∧ variant ∈ b.variants.items
  outputEnums : ∀ name a b, declOf X.config name = .enum a → declOf Y.config name = .enum b →
    enumUsage X Y name ≠ .input → ∃ e, declOf M.config name = .enum e ∧
      ∀ variant, variant ∈ a.variants.items ∨ variant ∈ b.variants.items → variant ∈ e.variants.items
  noInterface : ∀ name, X.interfacesTypesMap.get? name = none → Y.interfacesTypesMap.get? name = none →
    M.interfacesTypesMap.get? name = none
  leftInterface : ∀ name types, X.interfacesTypesMap.get? name = some types →
    ∃ wide, M.interfacesTypesMap.get? name = some wide ∧ types ⊆ wide
  rightInterface : ∀ name types, Y.interfacesTypesMap.get? name = some types →
    ∃ wide, M.interfacesTypesMap.get? name = some wide ∧ types ⊆ wide

theorem MergeOf.symm {X Y M : Cache P} (h : MergeOf X Y M) : MergeOf Y X M where
  left := h.right
  right := h.left
  unions name u v hu hv := by
    obtain ⟨w, hw, hmem⟩ := h.unions name v u hv hu
    exact ⟨w, hw, fun member => (hmem member).trans or_comm⟩
  scalars name hx hy := h.scalars name hy hx
  inputObjects name t u ht hu hi := by
    obtain ⟨e, he, hd⟩ := h.inputObjects name u t hu ht hi.symm
    exact ⟨e, he.symm, hd⟩
  outputObjects name t u ht hu hn := by
    obtain ⟨e, he, hd⟩ := h.outputObjects name u t hu ht (by rwa [typeUsage, usage_comm])
    exact ⟨e, he.symm, hd⟩
  inputEnums name a b ha hb hi := by
    obtain ⟨e, he, hv⟩ := h.inputEnums name b a hb ha hi.symm
    exact ⟨e, he, fun variant hm => (hv variant hm).symm⟩
  outputEnums name a b ha hb hn := by
    obtain ⟨e, he, hv⟩ := h.outputEnums name b a hb ha (by rwa [enumUsage, usage_comm])
    exact ⟨e, he, fun variant hm => hv variant hm.symm⟩
  noInterface name hx hy := h.noInterface name hy hx
  leftInterface := h.rightInterface
  rightInterface := h.leftInterface

theorem MergesTo.of_right_none {E : Type} {merge : String → E → E → Valid E String} {self other result : Dict E}
    (h : MergesTo merge self other result) (name : String) (hn : other.get? name = none) :
    result.get? name = self.get? name := by
  refine Option.ext fun e => ?_
  rw [h name e, hn]
  simp

theorem MergesTo.of_left_none {E : Type} {merge : String → E → E → Valid E String} {self other result : Dict E}
    (h : MergesTo merge self other result) (name : String) (hn : self.get? name = none) :
    result.get? name = other.get? name := by
  refine Option.ext fun e => ?_
  rw [h name e, hn]
  simp

theorem Unified.unions_left {X Y M : Cache P} (h : Unified R X Y M) (name : String)
    (hn : Y.config.unions.get? name = none) : M.config.unions.get? name = X.config.unions.get? name := by
  rw [h.unions, Dict.get?_mergeRight, hn]
  cases X.config.unions.get? name <;> rfl

theorem Unified.unions_right {X Y M : Cache P} (h : Unified R X Y M) (name : String)
    (hn : X.config.unions.get? name = none) : M.config.unions.get? name = Y.config.unions.get? name := by
  rw [h.unions, Dict.get?_mergeRight, hn]

theorem isInput_flags (X Y : Cache P) (name : String) (h : IsInput X Y name) :
    decide (name ∈ X.inputTypes) = true ∨ decide (name ∈ Y.inputTypes) = true := by
  rwa [decide_eq_true_eq, decide_eq_true_eq]

theorem mergeOf_of_unify (X Y M : Cache P) (h : unify R X Y = .ok M) : MergeOf X Y M := by
  have hu := unify_spec R X Y M h
  obtain ⟨hmergedTypes, hmergedEnums⟩ := (unify_succeeds_iff R X Y).mp ⟨M, h⟩
  have henum (name : String) (a b : Enum) (hx : declOf X.config name = .enum a) (hy : declOf Y.config name = .enum b) :
      ∃ e, mergeEnum (enumUsage X Y name) a b = .ok e ∧ declOf M.config name = .enum e := by
    obtain ⟨hxu, hxt, ha⟩ := (declOf_enum_iff name a).mp hx
    obtain ⟨hyu, hyt, hb⟩ := (declOf_enum_iff name b).mp hy
    obtain ⟨e, he⟩ := hmergedEnums name a b ha hb
    exact ⟨e, he, (declOf_enum_iff name e).mpr ⟨by rw [hu.unions_left R name hyu, hxu],
      by rw [hu.types.of_right_none name hyt, hxt], (hu.enums name e).mpr (.inl ⟨a, b, ha, hb, he⟩)⟩⟩
  constructor
  case left =>
    intro name hn
    obtain ⟨hunion, htype, henum⟩ := (declOf_undeclared_iff name).mp hn
    exact declOf_eq_of_get?_eq _ name (hu.unions_left R name hunion) (hu.types.of_right_none name htype)
      (hu.enums.of_right_none name henum)
  case right =>
    intro name hn
    obtain ⟨hunion, htype, henum⟩ := (declOf_undeclared_iff name).mp hn
    exact declOf_eq_of_get?_eq _ name (hu.unions_right R name hunion) (hu.types.of_left_none name htype)
      (hu.enums.of_left_none name henum)
  case unions =>
    intro name u v hx hy
    rw [declOf_union_iff] at hx hy
    refine ⟨mergeUnion u v, (declOf_union_iff name _).mpr ?_, fun member => Distinct.mem_mergeRight _ _ member⟩
    rw [hu.unions, Dict.get?_mergeRight, hx, hy]
  case scalars =>
    intro name hx hy
    obtain ⟨hxu, t, ht, hts⟩ := (declOf_scalar_iff name).mp hx
    obtain ⟨hyu, u, hu', hus⟩ := (declOf_scalar_iff name).mp hy
    obtain ⟨e, he⟩ := hmergedTypes name t u ht hu'
    refine (declOf_scalar_iff name).mpr ⟨by rw [hu.unions_left R name hyu, hxu], e,
      (hu.types name e).mpr (.inl ⟨t, u, ht, hu', he⟩), ?_⟩
    by_contra hne
    obtain ⟨key, field, hf⟩ := exists_field e (by simpa using hne)
    by_cases hin : typeUsage X Y name = .input
    · rw [hin] at he
      obtain ⟨f, g, hf, _⟩ := (shrinkTypeDef_shrunkTo R t u e he).fields key field hf
      exact nomatch hf.symm.trans (get?_of_scalar t hts key)
    · have hm := expandDict_mergesTo _ _ _ _
        (expandTypeDef_eq_ok R t u e (mergeTypeDef_of_not_input R _ hin t u e he))
      have hnone : e.fields.get? key = none := by
        rw [hm.of_right_none key (get?_of_scalar u hus key), get?_of_scalar t hts key]
      exact nomatch hf.symm.trans hnone
  case inputObjects =>
    intro name t u hx hy hi
    obtain ⟨hxu, ht, -⟩ := (declOf_object_iff name t).mp hx
    obtain ⟨hyu, hu', -⟩ := (declOf_object_iff name u).mp hy
    obtain ⟨e, he⟩ := hmergedTypes name t u ht hu'
    have hs := mergeTypeDef_of_input R _ _ _ _ (isInput_flags X Y name hi) t u e he
    have hunion : M.config.unions.get? name = none := by rw [hu.unions_left R name hyu, hxu]
    have htype : M.config.types.get? name = some e := (hu.types name e).mpr (.inl ⟨t, u, ht, hu', he⟩)
    refine ⟨e, shrinkTypeDef_shrunkTo R t u e hs, ?_⟩
    rw [declOf, Config.findUnion, hunion, Config.findType, htype]
  case outputObjects =>
    intro name t u hx hy hn
    obtain ⟨hxu, ht, hts⟩ := (declOf_object_iff name t).mp hx
    obtain ⟨hyu, hu', -⟩ := (declOf_object_iff name u).mp hy
    obtain ⟨e, he⟩ := hmergedTypes name t u ht hu'
    have hs := expandTypeDef_expandedTo R t u e (mergeTypeDef_of_not_input R _ hn t u e he)
    obtain ⟨key, f, hf⟩ := exists_field t hts
    obtain ⟨field, hfield, -⟩ := hs.left key f hf
    exact ⟨e, hs, (declOf_object_iff name e).mpr ⟨by rw [hu.unions_left R name hyu, hxu],
      (hu.types name e).mpr (.inl ⟨t, u, ht, hu', he⟩), scalar_eq_false e key field hfield⟩⟩
  case inputEnums =>
    intro name a b hx hy hi
    obtain ⟨e, he, hdecl⟩ := henum name a b hx hy
    exact ⟨e, hdecl, mergeEnum_of_input _ _ _ _ (isInput_flags X Y name hi) a b e he⟩
  case outputEnums =>
    intro name a b hx hy hn
    obtain ⟨e, he, hdecl⟩ := henum name a b hx hy
    exact ⟨e, hdecl, mergeEnum_of_not_input _ hn a b e he⟩
  case noInterface =>
    intro name hx hy
    rw [hu.interfacesTypesMap, Dict.get?_mergeRight, hx, hy]
  case leftInterface =>
    intro name types hx
    rw [hu.interfacesTypesMap, Dict.get?_mergeRight, hx]
    cases Y.interfacesTypesMap.get? name with
    | some others => exact ⟨_, rfl, Finset.subset_union_left⟩
    | none => exact ⟨_, rfl, subset_rfl⟩
  case rightInterface =>
    intro name types hy
    rw [hu.interfacesTypesMap, Dict.get?_mergeRight, hy]
    cases X.interfacesTypesMap.get? name with
    | some others => exact ⟨_, rfl, Finset.subset_union_right⟩
    | none => exact ⟨_, rfl, subset_rfl⟩

end Merged

end Gqlforge.SchemaMerge
