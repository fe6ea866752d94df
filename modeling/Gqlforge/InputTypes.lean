import Gqlforge.InputResolver
import Mathlib.Data.List.Forall2
import Mathlib.Logic.Relation

namespace Gqlforge.InputTypes

open Json Schema Relation

section

variable (index : Index)

/-- Values of a type, with the defaults of all missing fields filled in. What a scalar allows beyond null is left open. -/
inductive Conforms : WrappingType → ConstValue → Prop
  | null (typeOf : WrappingType) (h : typeOf.isNullable = true) : Conforms typeOf .null
  | leaf (name : String) (nonNull : Bool) (value : ConstValue) (h : index.getInputTypeDefinition name = none)
    (hv : value ≠ .null) : Conforms (.named name nonNull) value
  | object (name : String) (nonNull : Bool) (fields : List InputFieldDefinition) (object : Object ConstValue)
    (h : index.getInputTypeDefinition name = some fields)
    (hgiven : ∀ field ∈ fields, ∀ value, object.getKey field.name = some value → Conforms field.ofType value)
    (hmissing : ∀ field ∈ fields, object.getKey field.name = none →
      field.ofType.isNullable = true ∧ field.defaultValue = none) : Conforms (.named name nonNull) (.object object)
  | list (ofType : WrappingType) (nonNull : Bool) (items : List ConstValue) (h : ∀ item ∈ items, Conforms ofType item) :
    Conforms (.list ofType nonNull) (.list items)

/-- An argument or field may be missing if its type is nullable and it has no default. -/
def ConformsAt (typeOf : WrappingType) (default : Option ConstValue) : Option ConstValue → Prop
  | some value => Conforms index typeOf value
  | none => typeOf.isNullable = true ∧ default = none

structure Position where
  declared : WrappingType
  checked : WrappingType
  default : Option ConstValue
  value : Option ConstValue

namespace Position

def given (pos : Position) : Option ConstValue :=
  pos.value <|> pos.default

def field (field : InputFieldDefinition) (object : Object ConstValue) : Position :=
  ⟨field.ofType, field.ofType, field.defaultValue, object.getKey field.name⟩

end Position

def itemType : WrappingType → WrappingType
  | .list ofType _ => ofType
  | .named name nonNull => .named name nonNull

def Position.item (pos : Position) (item : ConstValue) : Position :=
  ⟨itemType pos.declared, pos.checked, none, some item⟩

inductive Below : Position → Position → Prop
  | field (pos : Position) (object : Object ConstValue) (fields : List InputFieldDefinition)
    (field : InputFieldDefinition) (hgiven : pos.given = some (.object object))
    (hdef : index.getInputTypeDefinition pos.checked.name = some fields) (hf : field ∈ fields) :
    Below (.field field object) pos
  | item (pos : Position) (items : List ConstValue) (fields : List InputFieldDefinition) (item : ConstValue)
    (hgiven : pos.given = some (.list items))
    (hdef : index.getInputTypeDefinition pos.checked.name = some fields) (hi : item ∈ items) : Below (pos.item item) pos

def Throughout (P : Position → Prop) (pos : Position) : Prop :=
  ∀ other, ReflTransGen (Below index) other pos → P other

def Absent (pos : Position) : Prop :=
  pos.value = none ∧ pos.default = none ∨ pos.value = some .null

/-- The test of the code: the value is missing or null, and the type the code looks at is not nullable. -/
def Rejected (pos : Position) : Prop :=
  pos.checked.isNullable = false ∧ Absent pos

def NullsFit : WrappingType → ConstValue → Prop
  | typeOf, .null => typeOf.isNullable = true
  | .named _ _, _ => True
  | .list ofType _, .list items => ∀ item ∈ items, NullsFit ofType item
  | .list _ _, _ => False

/-- The value is of the kind the type asks for: an object of an input type, or a list. -/
def Shaped (typeOf : WrappingType) (value : ConstValue) : Prop :=
  match typeOf, value with
  | .named _ _, .object _ => True
  | .list _ _, .list _ => True
  | _, _ => False

/-- The test of the declared type, where the parts of the value have tests of their own. -/
def IllTyped (pos : Position) : Prop :=
  match pos.given with
  | none => pos.declared.isNullable = false
  | some .null => pos.declared.isNullable = false
  | some value => match index.getInputTypeDefinition pos.declared.name with
    | some _ => ¬ Shaped pos.declared value
    | none => ¬ NullsFit pos.declared value

def insertFields (results : InputFieldDefinition → Option ConstValue) (object : Object ConstValue)
    (fields : List InputFieldDefinition) : Object ConstValue :=
  fields.foldl (fun object field => match results field with
    | some value => object.insertKey field.name value
    | none => object) object

/-- The value with defaults for everything that is missing, and for what is missing in defaults. -/
inductive Filled : Position → Option ConstValue → Prop
  | missing (pos : Position) (h : pos.given = none) : Filled pos none
  | leaf (pos : Position) (value : ConstValue) (h : pos.given = some value)
    (hleaf : index.getInputTypeDefinition pos.checked.name = none ∨ value.asObject = none ∧ value.asArray = none) :
    Filled pos (some value)
  | object (pos : Position) (object : Object ConstValue) (fields : List InputFieldDefinition)
    (results : InputFieldDefinition → Option ConstValue) (h : pos.given = some (.object object))
    (hdef : index.getInputTypeDefinition pos.checked.name = some fields)
    (hfields : ∀ field ∈ fields, Filled (.field field object) (results field)) :
    Filled pos (some (.object (insertFields results object fields)))
  | list (pos : Position) (items items' : List ConstValue) (fields : List InputFieldDefinition)
    (h : pos.given = some (.list items)) (hdef : index.getInputTypeDefinition pos.checked.name = some fields)
    (hlength : items.length = items'.length)
    (hitems : ∀ i h₁ h₂, Filled (pos.item (items.get ⟨i, h₁⟩)) (some (items'.get ⟨i, h₂⟩))) :
    Filled pos (some (.list items'))

def FieldsDistinct : Prop :=
  ∀ name fields, index.getInputTypeDefinition name = some fields → (fields.map (·.name)).Nodup

variable {index}

variable {P : Position → Prop} {pos : Position}

theorem throughout_iff : Throughout index P pos ↔ P pos ∧ ∀ next, Below index next pos → Throughout index P next := by
  constructor
  · intro h
    exact ⟨h pos .refl, fun next hnext other hother => h other (hother.tail hnext)⟩
  · rintro ⟨hself, hbelow⟩ other hother
    rcases ReflTransGen.cases_tail hother with rfl | ⟨next, hother, hnext⟩
    · exact hself
    · exact hbelow next hnext other hother

theorem throughout_of_leaf (h : ∀ next, ¬ Below index next pos) : Throughout index P pos ↔ P pos := by
  rw [throughout_iff]
  exact ⟨And.left, fun hself => ⟨hself, fun next hnext => absurd hnext (h next)⟩⟩

variable {fields : List InputFieldDefinition}

theorem throughout_object {object : Object ConstValue}
 (hgiven : pos.given = some (.object object))
    (hdef : index.getInputTypeDefinition pos.checked.name = some fields) :
    Throughout index P pos ↔ P pos ∧ ∀ field ∈ fields, Throughout index P (.field field object) := by
  rw [throughout_iff]
  refine and_congr_right fun _ => ⟨fun h field hf => h _ (.field pos object fields field hgiven hdef hf), ?_⟩
  intro h next hnext
  cases hnext with
  | field _ object' fields' field hgiven' hdef' hf =>
    obtain rfl := ConstValue.object.inj (Option.some.inj (hgiven.symm.trans hgiven'))
    obtain rfl := Option.some.inj (hdef.symm.trans hdef')
    exact h field hf
  | item _ items _ item hgiven' =>
    rw [hgiven] at hgiven'
    cases hgiven'

theorem throughout_list {items : List ConstValue}
 (hgiven : pos.given = some (.list items))
    (hdef : index.getInputTypeDefinition pos.checked.name = some fields) :
    Throughout index P pos ↔ P pos ∧ ∀ item ∈ items, Throughout index P (pos.item item) := by
  rw [throughout_iff]
  refine and_congr_right fun _ => ⟨fun h item hi => h _ (.item pos items fields item hgiven hdef hi), ?_⟩
  intro h next hnext
  cases hnext with
  | field _ object' fields' field hgiven' =>
    rw [hgiven] at hgiven'
    cases hgiven'
  | item _ items' _ item hgiven' _ hi =>
    obtain rfl := ConstValue.list.inj (Option.some.inj (hgiven.symm.trans hgiven'))
    exact h item hi

theorem getKey_insertFields_of_notMem (results : InputFieldDefinition → Option ConstValue) (key : String)
    (fields : List InputFieldDefinition) (hkey : key ∉ fields.map (·.name)) (object : Object ConstValue) :
    (insertFields results object fields).getKey key = object.getKey key := by
  induction fields generalizing object with
  | nil => rfl
  | cons field rest ih =>
    rw [List.map_cons, List.mem_cons, not_or] at hkey
    rw [insertFields, List.foldl_cons, ← insertFields, ih hkey.2]
    cases results field with
    | none => rfl
    | some value => exact Object.getKey_insertKey_of_ne object field.name key value hkey.1

theorem getKey_insertFields (results : InputFieldDefinition → Option ConstValue) (fields : List InputFieldDefinition)
    (hnodup : (fields.map (·.name)).Nodup) (object : Object ConstValue)
    (hnone : ∀ field ∈ fields, results field = none → object.getKey field.name = none) :
    ∀ field ∈ fields, (insertFields results object fields).getKey field.name = results field := by
  induction fields generalizing object with
  | nil => simp
  | cons first rest ih =>
    rw [List.map_cons, List.nodup_cons] at hnodup
    rw [List.forall_mem_cons] at hnone ⊢
    rw [insertFields, List.foldl_cons, ← insertFields]
    have hsame : ∀ field ∈ rest, field.name ≠ first.name := fun field hf he =>
      hnodup.1 (List.mem_map.mpr ⟨field, hf, he⟩)
    constructor
    · rw [getKey_insertFields_of_notMem results first.name rest hnodup.1]
      cases hresult : results first with
      | none => exact hnone.1 hresult
      | some value => exact Object.getKey_insertKey object first.name value
    · apply ih hnodup.2
      intro field hf hresult
      cases results first with
      | none => exact hnone.2 field hf hresult
      | some value =>
        exact (Object.getKey_insertKey_of_ne object first.name field.name value (hsame field hf)).trans
          (hnone.2 field hf hresult)

theorem filled_none (h : Filled index pos none) : pos.given = none := by
  cases h
  assumption

variable {typeOf : WrappingType}

theorem conforms_null : Conforms index typeOf .null ↔ typeOf.isNullable = true := by
  constructor
  · intro h
    cases h with
    | null _ h => exact h
    | leaf _ _ _ _ hv => exact absurd rfl hv
  · exact .null typeOf

variable {value : ConstValue}

theorem conforms_leaf (hdef : index.getInputTypeDefinition typeOf.name = none) :
    Conforms index typeOf value ↔ NullsFit typeOf value := by
  by_cases hnull : value = .null
  · subst hnull
    cases typeOf <;> exact conforms_null
  induction typeOf generalizing value with
  | named name nonNull =>
    have hfit : NullsFit (.named name nonNull) value := by
      cases value <;> first | exact absurd rfl hnull | trivial
    exact iff_of_true (.leaf name nonNull value hdef hnull) hfit
  | list ofType nonNull ih =>
    cases value with
    | null => exact absurd rfl hnull
    | list items =>
      have hitem (item : ConstValue) : Conforms index ofType item ↔ NullsFit ofType item := by
        by_cases hnull : item = .null
        · subst hnull
          cases ofType <;> exact conforms_null
        · exact ih hdef hnull
      rw [NullsFit]
      constructor
      · intro h item hi
        cases h with
        | list _ _ _ h => exact (hitem item).mp (h item hi)
      · intro h
        exact .list ofType nonNull items fun item hi => (hitem item).mpr (h item hi)
    | _ =>
      refine iff_of_false ?_ id
      intro h
      cases h

theorem illTyped_null (h : pos.given = some .null) : IllTyped index pos ↔ pos.declared.isNullable = false := by
  rw [IllTyped, h]

theorem illTyped_input (h : pos.given = some value) (hnull : value ≠ .null)
    (hdef : index.getInputTypeDefinition pos.declared.name = some fields) :
    IllTyped index pos ↔ ¬ Shaped pos.declared value := by
  rw [IllTyped, h]
  cases value <;> first | exact absurd rfl hnull | simp only [hdef]

theorem illTyped_leaf (h : pos.given = some value) (hnull : value ≠ .null)
    (hdef : index.getInputTypeDefinition pos.declared.name = none) :
    IllTyped index pos ↔ ¬ NullsFit pos.declared value := by
  rw [IllTyped, h]
  cases value <;> first | exact absurd rfl hnull | simp only [hdef]

theorem not_shaped (typeOf : WrappingType) (hobject : value.asObject = none)
    (hlist : value.asArray = none) : ¬ Shaped typeOf value := by
  intro h
  cases typeOf with
  | named _ _ =>
    cases value with
    | object _ => cases hobject
    | _ => exact h
  | list _ _ =>
    cases value with
    | list _ => cases hlist
    | _ => exact h

theorem conforms_unshaped (hdef : index.getInputTypeDefinition typeOf.name = some fields) (hnull : value ≠ .null)
    (h : Conforms index typeOf value) : Shaped typeOf value := by
  cases h with
  | null => exact absurd rfl hnull
  | leaf name nonNull _ hnone =>
    rw [WrappingType.name, hnone] at hdef
    cases hdef
  | object => trivial
  | list => trivial

theorem conforms_iff (hdistinct : FieldsDistinct index) {result : Option ConstValue}
    (h : Filled index pos result) (hname : pos.declared.name = pos.checked.name) :
    ConformsAt index pos.declared pos.default result ↔ Throughout index (fun pos => ¬ IllTyped index pos) pos := by
  induction h with
  | missing pos hgiven =>
    rw [throughout_of_leaf]
    · have hdefault : pos.default = none := by
        cases hv : pos.value with
        | none => simpa [Position.given, hv] using hgiven
        | some value => simp [Position.given, hv] at hgiven
      simp [ConformsAt, IllTyped, hgiven, hdefault]
    · intro next hnext
      cases hnext with
      | field _ _ _ _ h => rw [hgiven] at h; cases h
      | item _ _ _ _ h => rw [hgiven] at h; cases h
  | leaf pos value hgiven hleaf =>
    rw [throughout_of_leaf]
    · by_cases hnull : value = .null
      · subst hnull
        rw [illTyped_null hgiven, ConformsAt, conforms_null, Bool.not_eq_false]
      · cases hdef : index.getInputTypeDefinition pos.declared.name with
        | none => rw [illTyped_leaf hgiven hnull hdef, ConformsAt, conforms_leaf hdef, not_not]
        | some fields =>
          rw [illTyped_input hgiven hnull hdef, ConformsAt, not_not]
          obtain hnone | ⟨hobject, hlist⟩ := hleaf
          · rw [← hname, hdef] at hnone
            cases hnone
          · have hshape := not_shaped pos.declared hobject hlist
            exact iff_of_false (fun h => hshape (conforms_unshaped hdef hnull h)) hshape
    · intro next hnext
      cases hnext with
      | field _ object _ _ h hdef =>
        obtain rfl := Option.some.inj (hgiven.symm.trans h)
        obtain hnone | ⟨hobject, -⟩ := hleaf
        · rw [hnone] at hdef
          cases hdef
        · cases hobject
      | item _ items _ _ h hdef =>
        obtain rfl := Option.some.inj (hgiven.symm.trans h)
        obtain hnone | ⟨-, hlist⟩ := hleaf
        · rw [hnone] at hdef
          cases hdef
        · cases hlist
  | object pos object fields results hgiven hdef hfields ih =>
    have hdef' : index.getInputTypeDefinition pos.declared.name = some fields := by rw [hname, hdef]
    rw [throughout_object hgiven hdef, illTyped_input hgiven (by simp) hdef', not_not, ConformsAt]
    have hkey := getKey_insertFields results fields (hdistinct _ _ hdef) object fun field hf hresult => by
      have hfield := hfields field hf
      rw [hresult] at hfield
      have hnone := filled_none hfield
      cases hv : object.getKey field.name with
      | none => rfl
      | some value => simp [Position.given, Position.field, hv] at hnone
    have hall : (∀ field ∈ fields, ConformsAt index field.ofType field.defaultValue (results field)) ↔
        ∀ field ∈ fields, Throughout index (fun pos => ¬ IllTyped index pos) (.field field object) :=
      forall₂_congr fun field hf => ih field hf rfl
    rw [← hall]
    constructor
    · intro h
      cases hd : pos.declared with
      | list ofType nonNull =>
        rw [hd] at h
        cases h
      | named name nonNull =>
        refine ⟨trivial, fun field hf => ?_⟩
        rw [hd] at h hdef'
        cases h with
        | leaf _ _ _ hnone =>
          rw [WrappingType.name, hnone] at hdef'
          cases hdef'
        | object _ _ fields' _ hfields' hgiven' hmissing =>
          obtain rfl := Option.some.inj (hfields'.symm.trans hdef')
          have hfield := hkey field hf
          cases hresult : results field with
          | none => exact hmissing field hf (hfield.trans hresult)
          | some value => exact hgiven' field hf value (hfield.trans hresult)
    · rintro ⟨hshape, hfields'⟩
      cases hd : pos.declared with
      | list ofType nonNull =>
        rw [hd] at hshape
        exact absurd hshape id
      | named name nonNull =>
        rw [hd] at hdef'
        refine .object name nonNull fields _ hdef' ?_ ?_
        · intro field hf value hvalue
          have hfield := hfields' field hf
          rw [(hkey field hf).symm.trans hvalue] at hfield
          exact hfield
        · intro field hf hnone
          have hfield := hfields' field hf
          rw [(hkey field hf).symm.trans hnone] at hfield
          exact hfield
  | list pos items items' fields hgiven hdef hlength hitems ih =>
    have hdef' : index.getInputTypeDefinition pos.declared.name = some fields := by rw [hname, hdef]
    rw [throughout_list hgiven hdef, illTyped_input hgiven (by simp) hdef', not_not, ConformsAt]
    have hnames : (itemType pos.declared).name = pos.declared.name := by cases pos.declared <;> rfl
    have hall : List.Forall₂ (fun item item' => Conforms index (itemType pos.declared) item' ↔
        Throughout index (fun pos => ¬ IllTyped index pos) (pos.item item)) items items' :=
      List.forall₂_iff_get.mpr ⟨hlength, fun i h₁ h₂ => ih i h₁ h₂ (hnames.trans hname)⟩
    have hiff : (∀ item' ∈ items', Conforms index (itemType pos.declared) item') ↔
        ∀ item ∈ items, Throughout index (fun pos => ¬ IllTyped index pos) (pos.item item) := by
      clear hgiven hlength hitems ih
      induction hall with
      | nil => simp
      | cons hfirst _ ih => rw [List.forall_mem_cons, List.forall_mem_cons, hfirst, ih]
    rw [← hiff]
    constructor
    · intro h
      cases hd : pos.declared with
      | named name nonNull =>
        rw [hd] at h hdef'
        cases h with
        | leaf _ _ _ hnone =>
          rw [WrappingType.name, hnone] at hdef'
          cases hdef'
      | list ofType nonNull =>
        rw [hd] at h
        cases h with
        | list _ _ _ h => exact ⟨trivial, h⟩
    · rintro ⟨hshape, hitems'⟩
      cases hd : pos.declared with
      | named name nonNull =>
        rw [hd] at hshape
        exact absurd hshape id
      | list ofType nonNull =>
        rw [hd] at hitems'
        exact .list ofType nonNull items' hitems'

end

end Gqlforge.InputTypes
