import Gqlforge.Eval
import Gqlforge.RelatedLists

namespace Gqlforge.Discriminators

open Eval Json RelatedLists Resolvers

def Named (fields : Object ConstValue) : Prop :=
  ∃ name, fields.getKey typenameField = some (.string name)

/-- The type that an object is found to be of, and the value that is to carry its name. -/
inductive HasType : Discriminator → Object ConstValue → String → ConstValue → Prop
  | keyed {types : List String} {typeName name : String} (value : ConstValue) :
    name ∈ types → HasType (.keyed types typeName) [(name, value)] name value
  | typeField {field : String} {types : List String} {typeName name : String} {fields : Object ConstValue} :
    fields.getKey field = some (.string name) → name ∈ types →
    HasType (.typeField field types typeName) fields name (.object fields)

structure Typed (name : String) (source fields : Object ConstValue) : Prop where
  name : fields.getKey typenameField = some (.string name)
  others : ∀ key, key ≠ typenameField → fields.getKey key = source.getKey key

inductive Resolved (discriminator : Discriminator) : ConstValue → ConstValue → Prop
  | null : Resolved discriminator .null .null
  | list {items items' : List ConstValue} :
    List.Forall₂ (Resolved discriminator) items items' → Resolved discriminator (.list items) (.list items')
  | named {fields : Object ConstValue} : Named fields → Resolved discriminator (.object fields) (.object fields)
  | typed {fields source fields' : Object ConstValue} {name : String} :
    ¬ Named fields → HasType discriminator fields name (.object source) → Typed name source fields' →
    Resolved discriminator (.object fields) (.object fields')
  | nullEntry {fields : Object ConstValue} {name : String} :
    ¬ Named fields → HasType discriminator fields name .null → Resolved discriminator (.object fields) .null

inductive Discriminable (discriminator : Discriminator) : ConstValue → Prop
  | null : Discriminable discriminator .null
  | list {items : List ConstValue} :
    (∀ item ∈ items, Discriminable discriminator item) → Discriminable discriminator (.list items)
  | named {fields : Object ConstValue} : Named fields → Discriminable discriminator (.object fields)
  | typed {fields source : Object ConstValue} {name : String} :
    HasType discriminator fields name (.object source) → Discriminable discriminator (.object fields)
  | nullEntry {fields : Object ConstValue} {name : String} :
    HasType discriminator fields name .null → Discriminable discriminator (.object fields)

theorem items_induction {motive : ConstValue → Prop}
    (list : ∀ items, (∀ item ∈ items, motive item) → motive (.list items))
    (other : ∀ value, value.asArray = none → motive value) (value : ConstValue) : motive value :=
  @ConstValue.rec motive (fun items => ∀ item ∈ items, motive item) (fun _ => True) (fun _ => True) (other .null rfl) (fun value => other (.number value) rfl)
    (fun value => other (.string value) rfl) (fun value => other (.boolean value) rfl)
    (fun name => other (.enum name) rfl) list (fun fields _ => other (.object fields) rfl) (List.forall_mem_nil _)
    (fun _ _ hitem hitems => List.forall_mem_cons.mpr ⟨hitem, hitems⟩) trivial (fun _ _ _ _ => trivial)
    (fun _ _ _ => trivial) value

theorem getTypeName_isSome {fields : Object ConstValue} :
    (ConstValue.object fields).getTypeName.isSome = true ↔ Named fields := by
  rw [ConstValue.getTypeName, ConstValue.getKey, ConstValue.asObject, Option.bind_some, Named, typenameField]
  cases fields.getKey "__typename" with
  | none => simp
  | some value => cases value <;> simp [ConstValue.asStr]

theorem setTypeName_eq_ok {name : String} {value result : ConstValue} : setTypeName name value = .ok result ↔
    value = .null ∧ result = .null ∨ ∃ source, value = .object source ∧
      result = .object (Object.insertKey source typenameField (.string name)) := by
  cases value <;> simp [setTypeName, eq_comm]

theorem typed_insertKey (name : String) (source : Object ConstValue) :
    Typed name source (Object.insertKey source typenameField (.string name)) :=
  ⟨Object.getKey_insertKey _ _ _, fun _ hkey => Object.getKey_insertKey_of_ne _ _ _ _ hkey⟩

section

variable {discriminator : Discriminator}

def resolveObject (discriminator : Discriminator) (fields : Object ConstValue) : Except String ConstValue :=
  match discriminator with
  | .keyed types typeName => resolveKeyed types typeName fields
  | .typeField field types typeName => resolveTypeField field types typeName fields

example (name : String) : (resolveType discriminator (.enum name)).toOption = none := by
  simp [resolveType, Except.toOption]

theorem resolveType_object (fields : Object ConstValue) : resolveType discriminator (.object fields) =
    if (ConstValue.object fields).getTypeName.isSome then .ok (.object fields)
    else resolveObject discriminator fields := by
  cases discriminator with
  | keyed types typeName => rw [resolveType.eq_3]; rfl
  | typeField field types typeName => rw [resolveType]; rfl

variable {fields : Object ConstValue} {result : ConstValue}

theorem resolveKeyed_eq_ok {types : List String} {typeName : String} : resolveKeyed types typeName fields = .ok result ↔
      ∃ name value, fields = [(name, value)] ∧ name ∈ types ∧ setTypeName name value = .ok result := by
  constructor
  · intro h
    unfold resolveKeyed at h
    split at h
    next name value =>
      split at h
      next hmem => exact ⟨name, value, rfl, List.contains_iff_mem.mp hmem, h⟩
      next => cases h
    next => cases h
    next => cases h
  · rintro ⟨name, value, rfl, hmem, h⟩
    rw [resolveKeyed, if_pos (List.contains_iff_mem.mpr hmem), h]

theorem resolveTypeField_eq_ok {field : String} {types : List String} {typeName : String} :
    resolveTypeField field types typeName fields = .ok result ↔
      ∃ name, fields.getKey field = some (.string name) ∧ name ∈ types ∧
        setTypeName name (.object fields) = .ok result := by
  rw [resolveTypeField]
  constructor
  · intro h
    split at h
    next => cases h
    next name hname =>
      split at h
      next hmem => exact ⟨name, hname, List.contains_iff_mem.mp hmem, h⟩
      next => cases h
    next => cases h
  · rintro ⟨name, hname, hmem, h⟩
    simp only [hname, List.contains_iff_mem.mpr hmem, if_true, h]

theorem resolveObject_eq_ok :
    resolveObject discriminator fields = .ok result ↔
      ∃ name value, HasType discriminator fields name value ∧ setTypeName name value = .ok result := by
  cases discriminator with
  | keyed types typeName =>
    rw [resolveObject, resolveKeyed_eq_ok]
    constructor
    · rintro ⟨name, value, rfl, hmem, h⟩
      exact ⟨name, value, .keyed value hmem, h⟩
    · rintro ⟨name, value, htype, h⟩
      cases htype with
      | keyed _ hmem => exact ⟨name, value, rfl, hmem, h⟩
  | typeField field types typeName =>
    rw [resolveObject, resolveTypeField_eq_ok]
    constructor
    · rintro ⟨name, hname, hmem, h⟩
      exact ⟨name, .object fields, .typeField hname hmem, h⟩
    · rintro ⟨name, value, htype, h⟩
      cases htype with
      | typeField hname hmem => exact ⟨name, hname, hmem, h⟩

theorem resolveTypes_eq_ok {items results : List ConstValue} : resolveTypes discriminator items = .ok results ↔
    List.Forall₂ (fun item result => resolveType discriminator item = .ok result) items results := by
  induction items generalizing results with
  | nil => simp [resolveTypes, List.forall₂_nil_left_iff, eq_comm]
  | cons item items ih =>
    rw [resolveTypes, List.forall₂_cons_left_iff]
    simp only [← ih]
    cases hitem : resolveType discriminator item with
    | error message => simp [bind, Except.bind]
    | ok result =>
      cases hitems : resolveTypes discriminator items with
      | error message => simp [bind, Except.bind]
      | ok results' => simp [bind, Except.bind, pure, Except.pure, eq_comm]

theorem resolveType_list_eq_ok {items : List ConstValue} :
    resolveType discriminator (.list items) = .ok result ↔ ∃ results, result = .list results ∧
      List.Forall₂ (fun item result => resolveType discriminator item = .ok result) items results := by
  rw [resolveType]
  simp only [← resolveTypes_eq_ok]
  cases resolveTypes discriminator items with
  | error message => simp [Except.map]
  | ok results => simp [Except.map, eq_comm]

theorem resolveType_null : resolveType discriminator .null = .ok .null := by
  rw [resolveType]

theorem resolveType_named (h : Named fields) : resolveType discriminator (.object fields) = .ok (.object fields) := by
  rw [resolveType_object, if_pos (getTypeName_isSome.mpr h)]

theorem resolveType_unnamed (h : ¬ Named fields) :
    resolveType discriminator (.object fields) = resolveObject discriminator fields := by
  rw [resolveType_object, if_neg (mt getTypeName_isSome.mp h)]

theorem resolved_of_ok {value : ConstValue} (h : resolveType discriminator value = .ok result) :
    Resolved discriminator value result := by
  induction value using items_induction generalizing result with
  | list items ih =>
    obtain ⟨results, rfl, hitems⟩ := (resolveType_list_eq_ok).mp h
    have hboth := (List.forall₂_and_left _ _).mpr ⟨ih, hitems⟩
    exact .list (hboth.imp fun item result hitem => hitem.1 hitem.2)
  | other value hvalue =>
    cases value with
    | null =>
      rw [resolveType_null] at h
      cases h
      exact .null
    | object fields =>
      by_cases hnamed : Named fields
      · rw [resolveType_named hnamed] at h
        cases h
        exact .named hnamed
      · rw [resolveType_unnamed hnamed, resolveObject_eq_ok] at h
        obtain ⟨name, value, htype, hset⟩ := h
        rcases setTypeName_eq_ok.mp hset with ⟨rfl, rfl⟩ | ⟨source, rfl, rfl⟩
        · exact .nullEntry hnamed htype
        · exact .typed hnamed htype (typed_insertKey name source)
    | list items => cases hvalue
    | _ => simp [resolveType] at h

theorem ok_iff_discriminable (value : ConstValue) :
    (∃ result, resolveType discriminator value = .ok result) ↔ Discriminable discriminator value := by
  induction value using items_induction with
  | list items ih =>
    constructor
    · rintro ⟨result, h⟩
      obtain ⟨results, _, hitems⟩ := (resolveType_list_eq_ok).mp h
      refine .list fun item hitem => (ih item hitem).mp ?_
      obtain ⟨result, _, hresult⟩ := exists_related_of_mem hitems hitem
      exact ⟨result, hresult⟩
    · intro h
      cases h with
      | list hitems =>
        obtain ⟨results, hresults⟩ := exists_forall₂ fun item hitem => (ih item hitem).mpr (hitems item hitem)
        exact ⟨.list results, resolveType_list_eq_ok.mpr ⟨results, rfl, hresults⟩⟩
  | other value hvalue =>
    cases value with
    | null => exact iff_of_true ⟨.null, resolveType_null⟩ .null
    | object fields =>
      by_cases hnamed : Named fields
      · exact iff_of_true ⟨_, resolveType_named hnamed⟩ (.named hnamed)
      rw [resolveType_unnamed hnamed]
      simp only [resolveObject_eq_ok]
      constructor
      · rintro ⟨result, name, value, htype, hset⟩
        rcases setTypeName_eq_ok.mp hset with ⟨rfl, _⟩ | ⟨source, rfl, _⟩
        · exact .nullEntry htype
        · exact .typed htype
      · intro h
        cases h with
        | named h => exact absurd h hnamed
        | typed htype => exact ⟨_, _, _, htype, setTypeName_eq_ok.mpr (.inr ⟨_, rfl, rfl⟩)⟩
        | nullEntry htype => exact ⟨_, _, _, htype, setTypeName_eq_ok.mpr (.inl ⟨rfl, rfl⟩)⟩
    | list items => cases hvalue
    | _ =>
      refine iff_of_false ?_ fun h => by cases h
      rintro ⟨result, h⟩
      simp [resolveType] at h

theorem resolveType_resolved {value : ConstValue} (h : Resolved discriminator value result) :
    resolveType discriminator result = .ok result := by
  induction value using items_induction generalizing result with
  | list items ih =>
    cases h with
    | list hitems =>
      refine resolveType_list_eq_ok.mpr ⟨_, rfl, List.forall₂_same.mpr fun result hresult => ?_⟩
      obtain ⟨item, hitem, hrelated⟩ := exists_related hitems hresult
      exact ih item hitem hrelated
  | other value hvalue =>
    cases h with
    | null => exact resolveType_null
    | list hitems => cases hvalue
    | named hnamed => exact resolveType_named hnamed
    | typed _ _ htyped => exact resolveType_named ⟨_, htyped.name⟩
    | nullEntry _ _ => exact resolveType_null

end

/-- A value keeps its structure, except that a type's entry that is null takes the place of its object. -/
theorem resolveType_structure (discriminator : Discriminator) (value : ConstValue) :
    (∀ result, resolveType discriminator value = .ok result →
      Resolved discriminator value result ∧ resolveType discriminator result = .ok result) ∧
    ((∃ result, resolveType discriminator value = .ok result) ↔ Discriminable discriminator value) := by
  refine ⟨fun result h => ?_, ok_iff_discriminable value⟩
  have hresolved := resolved_of_ok h
  exact ⟨hresolved, resolveType_resolved hresolved⟩

theorem resolveType_null_entry :
    ∃ result, resolveType (.keyed ["Foo"] "Test") (.object [("Foo", .null)]) = .ok result ∧
      result.isNull ≠ (ConstValue.object [("Foo", .null)]).isNull :=
  ⟨.null, rfl, Bool.noConfusion⟩

end Gqlforge.Discriminators
