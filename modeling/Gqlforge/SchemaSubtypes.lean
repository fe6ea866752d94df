import Gqlforge.JsonSchemas
import Mathlib.Data.String.Basic

namespace Gqlforge.JsonSchemas.JsonSchema

open Json Validation

theorem induction {motive : JsonSchema → Prop}
    (obj : ∀ fields, (∀ field ∈ fields, motive field.2) → motive (.obj fields))
    (arr : ∀ schema, motive schema → motive (.arr schema)) (opt : ∀ schema, motive schema → motive (.opt schema))
    (enum : ∀ values, motive (.enum values)) (str : motive .str) (num : motive .num) (bool : motive .bool)
    (empty : motive .empty) (any : motive .any) (schema : JsonSchema) : motive schema :=
  @JsonSchema.rec motive (fun fields => ∀ field ∈ fields, motive field.2) (fun field => motive field.2) obj arr opt enum str num bool empty any (List.forall_mem_nil _)
    (fun _ _ hfield hfields => List.forall_mem_cons.mpr ⟨hfield, hfields⟩) (fun _ _ h => h) schema

def isOptional : JsonSchema → Bool
  | .opt _ => true
  | _ => false

def isRequired (schema : JsonSchema) : Bool :=
  !schema.isOptional

def sorted (texts : List String) : List String :=
  texts.mergeSort fun text other => decide (text ≤ other)

mutual

def display : JsonSchema → String
  | .obj fields => "\x7b" ++ ", ".intercalate (sorted (displayFields fields)) ++ "\x7d"
  | .arr schema => "[" ++ display schema ++ "]"
  | .opt schema => "Option<" ++ display schema ++ ">"
  | .enum values => "enum \x7b" ++ ", ".intercalate (sorted values) ++ "\x7d"
  | .str => "String"
  | .num => "Number"
  | .bool => "Boolean"
  | .empty => "Empty"
  | .any => "Any"

def displayFields : List (String × JsonSchema) → List String
  | [] => []
  | (key, schema) :: rest => (key ++ ": " ++ display schema) :: displayFields rest

end

def check (holds : Bool) (message : String) : Valid Unit String :=
  if holds then .succeed () else .fail message

mutual

def validate : JsonSchema → ConstValue → Valid Unit String
  | .str, value => check (value matches .string _) "expected string"
  | .num, value => check (value matches .number _) "expected number"
  | .bool, value => check (value matches .boolean _) "expected boolean"
  | .empty, value => check (value matches .null || value matches .object []) "expected empty"
  | .arr schema, value => match value with
    | .list list =>
      (Valid.fromIter list.zipIdx fun item => (validate schema item.1).trace (toString item.2)).mapOk fun _ => ()
    | _ => .fail "expected array"
  | .obj fields, value => match value with
    | .object map => (Valid.collect (validateFields fields map)).mapOk fun _ => ()
    | _ => .fail "expected object"
  | .opt schema, value => match value with
    | .null => .succeed ()
    | _ => validate schema value
  | .enum _, _ => .succeed ()
  | .any, _ => .succeed ()

def validateFields : List (String × JsonSchema) → Object ConstValue → List (Valid Unit String)
  | [], _ => []
  | (name, schema) :: rest, map =>
    (match map.getKey name with
    | some fieldValue => (validate schema fieldValue).trace name
    | none => if schema.isRequired then (Valid.fail "expected field to be non-nullable").trace name else .succeed ()) ::
      validateFields rest map

end

def notAssignable (subType superType : JsonSchema) (name : String) : Valid Unit String :=
  (Valid.fail ("Type '" ++ display subType ++ "' is not assignable to type '" ++ display superType ++ "'")).trace name

mutual

def isA (subType : JsonSchema) : JsonSchema → String → Valid Unit String
  | .any, _ => .succeed ()
  | .str, name => if subType matches .str then .succeed () else notAssignable subType .str name
  | .num, name => if subType matches .num then .succeed () else notAssignable subType .num name
  | .bool, name => if subType matches .bool then .succeed () else notAssignable subType .bool name
  | .empty, name => if subType matches .empty then .succeed () else notAssignable subType .empty name
  | .obj expected, name => match subType with
    | .obj actual => ((Valid.collect (fieldsAre actual expected)).trace name).mapOk fun _ => ()
    | _ => notAssignable subType (.obj expected) name
  | .arr expected, name => match subType with
    | .arr actual => isA actual expected name
    | _ => notAssignable subType (.arr expected) name
  | .opt expected, name => match subType with
    | .opt actual => isA actual expected name
    | _ => isA subType expected name
  | .enum expected, name => match subType with
    | .enum actual => if actual ≠ expected then notAssignable subType (.enum expected) name else .succeed ()
    | _ => notAssignable subType (.enum expected) name

def fieldsAre (actual : List (String × JsonSchema)) : List (String × JsonSchema) → List (Valid Unit String)
  | [] => []
  | (key, expected) :: rest =>
    (Valid.fromOption (actual.lookup key) ("missing key: " ++ key)).andThen (fun actual => isA actual expected key) ::
      fieldsAre actual rest

end

/-- A value of the subtype has no entry under a key for which the subtype is optional while the other type takes
anything that is there. -/
inductive Missing : JsonSchema → JsonSchema → ConstValue → Prop
  | key {actual expected : List (String × JsonSchema)} {map : Object ConstValue} (name : String) (schema : JsonSchema) :
    (name, .any) ∈ expected → actual.lookup name = some (.opt schema) → map.getKey name = none →
    Missing (.obj actual) (.obj expected) (.object map)
  | field {actual expected : List (String × JsonSchema)} {map : Object ConstValue} (name : String)
    (subType superType : JsonSchema) (value : ConstValue) :
    (name, superType) ∈ expected → actual.lookup name = some subType → map.getKey name = some value →
    Missing subType superType value → Missing (.obj actual) (.obj expected) (.object map)
  | item {subType superType : JsonSchema} {list : List ConstValue} (value : ConstValue) :
    value ∈ list → Missing subType superType value → Missing (.arr subType) (.arr superType) (.list list)
  | opts {subType superType : JsonSchema} {value : ConstValue} :
    Missing subType superType value → Missing (.opt subType) (.opt superType) value
  | opt {subType superType : JsonSchema} {value : ConstValue} :
    subType.isOptional = false → Missing subType superType value → Missing subType (.opt superType) value

def Accepts (schema : JsonSchema) (value : ConstValue) : Prop :=
  validate schema value = .ok ()

def Fits (subType superType : JsonSchema) : Prop :=
  ∀ name, isA subType superType name = .ok ()

example : Accepts (.opt .str) .null ∧ isA .str (.opt .str) "t" = .ok () := by
  simp [Accepts, validate, isA, Valid.succeed]

section

theorem unit_eq_ok {α : Type} {valid : Valid α String} : (valid.mapOk fun _ => ()) = .ok () ↔ ∃ a, valid = .ok a := by
  simp [Valid.mapOk_eq_ok]

theorem collect_succeeds_iff {valids : List (Valid Unit String)} :
    (∃ units, Valid.collect valids = .ok units) ↔ ∀ valid ∈ valids, valid = .ok () := by
  have h := Valid.fromIter_succeeds_iff valids id
  rw [Valid.fromIter, List.map_id] at h
  rw [h]
  refine forall₂_congr fun valid _ => ⟨?_, fun hunit => ⟨(), hunit⟩⟩
  rintro ⟨_, hunit⟩
  exact hunit

variable {subType : JsonSchema} {name : String}

theorem notAssignable_ne {superType : JsonSchema} : notAssignable subType superType name ≠ .ok () := by
  intro h
  cases h

theorem mem_validateFields {fields : List (String × JsonSchema)} {map : Object ConstValue} :
    (∀ valid ∈ validateFields fields map, valid = .ok ()) ↔
      ∀ field ∈ fields, (∀ entry, map.getKey field.1 = some entry → Accepts field.2 entry) ∧
        (map.getKey field.1 = none → field.2.isOptional = true) := by
  induction fields with
  | nil => simp [validateFields]
  | cons field fields ih =>
    obtain ⟨name, schema⟩ := field
    rw [validateFields, List.forall_mem_cons, List.forall_mem_cons, ih]
    refine and_congr_left fun _ => ?_
    cases map.getKey name with
    | some entry => simp [Valid.trace_eq_ok, Accepts]
    | none =>
      rw [isRequired]
      cases schema.isOptional with
      | true => simp [Valid.succeed]
      | false => simp [Valid.fail, Valid.trace]

variable {value : ConstValue}

theorem accepts_obj {fields : List (String × JsonSchema)} : Accepts (.obj fields) value ↔
    ∃ map : Object ConstValue, value = .object map ∧
      ∀ field ∈ fields, (∀ entry, map.getKey field.1 = some entry → Accepts field.2 entry) ∧
        (map.getKey field.1 = none → field.2.isOptional = true) := by
  rw [Accepts]
  cases value with
  | object map => simp [validate, unit_eq_ok, collect_succeeds_iff, mem_validateFields]
  | _ => simp [validate, Valid.fail]

variable {schema : JsonSchema}

theorem accepts_arr :
    Accepts (.arr schema) value ↔ ∃ list, value = .list list ∧ ∀ item ∈ list, Accepts schema item := by
  rw [Accepts]
  cases value with
  | list list =>
    simp only [validate, unit_eq_ok, Valid.fromIter_succeeds_iff, Valid.trace_succeeds_iff, ConstValue.list.injEq,
      exists_eq_left']
    constructor
    · intro h item hitem
      obtain ⟨i, hi⟩ := List.mem_iff_getElem?.mp hitem
      obtain ⟨_, hok⟩ := h (item, i) (List.mem_zipIdx_iff_getElem?.mpr hi)
      exact hok
    · intro h item hitem
      exact ⟨(), h item.1 (List.fst_mem_of_mem_zipIdx hitem)⟩
  | _ => simp [validate, Valid.fail]

theorem accepts_opt : Accepts (.opt schema) value ↔ value = .null ∨ Accepts schema value := by
  rw [Accepts, Accepts]
  cases value with
  | null => simp [validate, Valid.succeed]
  | _ => simp [validate]

theorem mem_fieldsAre {actual expected : List (String × JsonSchema)} :
    (∀ valid ∈ fieldsAre actual expected, valid = .ok ()) ↔
      ∀ field ∈ expected, ∃ schema, actual.lookup field.1 = some schema ∧ isA schema field.2 field.1 = .ok () := by
  induction expected with
  | nil => simp [fieldsAre]
  | cons field expected ih =>
    obtain ⟨key, superType⟩ := field
    rw [fieldsAre, List.forall_mem_cons, List.forall_mem_cons, ih]
    refine and_congr_left fun _ => ?_
    cases actual.lookup key with
    | some schema => simp [Valid.andThen, Valid.fromOption, Valid.succeed]
    | none => simp [Valid.andThen, Valid.fromOption, Valid.fail]

theorem isA_obj {expected : List (String × JsonSchema)} :
    isA subType (.obj expected) name = .ok () ↔ ∃ actual, subType = .obj actual ∧
      ∀ field ∈ expected, ∃ schema, actual.lookup field.1 = some schema ∧ isA schema field.2 field.1 = .ok () := by
  cases subType with
  | obj actual =>
    simp only [isA, unit_eq_ok, Valid.trace_succeeds_iff, collect_succeeds_iff, mem_fieldsAre, JsonSchema.obj.injEq,
      exists_eq_left']
  | _ => simp [isA, notAssignable_ne]

theorem isA_arr {expected : JsonSchema} : isA subType (.arr expected) name = .ok () ↔
    ∃ actual, subType = .arr actual ∧ isA actual expected name = .ok () := by
  cases subType with
  | arr actual => simp [isA]
  | _ => simp [isA, notAssignable_ne]

theorem isA_opt {expected : JsonSchema} : isA subType (.opt expected) name = .ok () ↔
    (∃ actual, subType = .opt actual ∧ isA actual expected name = .ok ()) ∨
      subType.isOptional = false ∧ isA subType expected name = .ok () := by
  cases subType with
  | opt actual => simp [isA, isOptional]
  | _ => simp [isA, isOptional]

theorem isA_of_opt {superType : JsonSchema} (h : isA (.opt schema) superType name = .ok ()) :
    superType = .any ∨ superType.isOptional = true := by
  cases superType with
  | any => exact .inl rfl
  | opt _ => exact .inr rfl
  | _ => simp [isA, notAssignable_ne] at h

end

section

theorem missing_obj {actual expected : List (String × JsonSchema)} {map : Object ConstValue} :
    Missing (.obj actual) (.obj expected) (.object map) ↔ ∃ field ∈ expected, ∃ subType,
      actual.lookup field.1 = some subType ∧
        ((∃ value, map.getKey field.1 = some value ∧ Missing subType field.2 value) ∨
          map.getKey field.1 = none ∧ field.2 = .any ∧ subType.isOptional = true) := by
  constructor
  · intro h
    cases h with
    | key name schema hmem hsub hnone => exact ⟨_, hmem, _, hsub, .inr ⟨hnone, rfl, rfl⟩⟩
    | field name subType superType value hmem hsub hvalue hmissing =>
      exact ⟨_, hmem, _, hsub, .inl ⟨value, hvalue, hmissing⟩⟩
  · rintro ⟨⟨name, superType⟩, hmem, subType, hsub, ⟨value, hvalue, hmissing⟩ | ⟨hnone, hany, hopt⟩⟩
    · exact .field name subType superType value hmem hsub hvalue hmissing
    · cases subType with
      | opt schema =>
        cases hany
        exact .key name schema hmem hsub hnone
      | _ => cases hopt

variable {subType superType : JsonSchema}

theorem isA_atom {name : String} (hatom : superType = .str ∨ superType = .num ∨ superType = .bool ∨ superType = .empty)
    (h : isA subType superType name = .ok ()) : subType = superType := by
  rcases hatom with rfl | rfl | rfl | rfl <;> cases subType <;> first | rfl | simp [isA, notAssignable_ne] at h

theorem not_missing_atom {value : ConstValue}
    (hatom : superType = .str ∨ superType = .num ∨ superType = .bool ∨ superType = .empty) :
    ¬ Missing subType superType value := by
  intro h
  rcases hatom with rfl | rfl | rfl | rfl <;> cases h

theorem not_missing_null {value : ConstValue} (h : Missing subType superType value) : value ≠ .null := by
  induction h with
  | opts _ ih => exact ih
  | opt _ _ ih => exact ih
  | _ => exact ConstValue.noConfusion

theorem not_missing_any (subType : JsonSchema) (value : ConstValue) : ¬ Missing subType .any value := by
  intro h
  cases h

theorem mem_of_lookup {fields : List (String × JsonSchema)} {name : String} {schema : JsonSchema}
    (h : fields.lookup name = some schema) : (name, schema) ∈ fields := by
  obtain ⟨front, rest, he, _⟩ := List.lookup_eq_some_iff.mp h
  rw [he]
  exact List.mem_append_right _ List.mem_cons_self

theorem accepts_iff (subType superType : JsonSchema) (value : ConstValue) (name : String)
    (hsub : isA subType superType name = .ok ()) (hvalue : Accepts subType value) :
    Accepts superType value ↔ ¬ Missing subType superType value := by
  induction superType using induction generalizing subType value name with
  | obj expected ih =>
    obtain ⟨actual, rfl, hfields⟩ := isA_obj.mp hsub
    obtain ⟨map, rfl, hmap⟩ := accepts_obj.mp hvalue
    rw [missing_obj]
    constructor
    · rintro haccepts ⟨field, hmem, schema, hlookup, hmissing⟩
      obtain ⟨map', he, hmap'⟩ := accepts_obj.mp haccepts
      cases he
      obtain ⟨schema', hlookup', hfield⟩ := hfields field hmem
      rw [hlookup] at hlookup'
      cases hlookup'
      rcases hmissing with ⟨entry, hentry, hmissing⟩ | ⟨hnone, hany, _⟩
      · have hsubEntry := (hmap (field.1, schema) (mem_of_lookup hlookup)).1 entry hentry
        have hiff := ih field hmem schema entry field.1 hfield hsubEntry
        exact hiff.mp ((hmap' field hmem).1 entry hentry) hmissing
      · have hopt := (hmap' field hmem).2 hnone
        rw [hany] at hopt
        cases hopt
    · intro hnot
      refine accepts_obj.mpr ⟨map, rfl, fun field hmem => ?_⟩
      obtain ⟨schema, hlookup, hfield⟩ := hfields field hmem
      have hactual := hmap (field.1, schema) (mem_of_lookup hlookup)
      constructor
      · intro entry hentry
        refine (ih field hmem schema entry field.1 hfield (hactual.1 entry hentry)).mpr fun hmissing => hnot ?_
        exact ⟨field, hmem, schema, hlookup, .inl ⟨entry, hentry, hmissing⟩⟩
      · intro hnone
        have hopt := hactual.2 hnone
        cases schema with
        | opt inner =>
          refine (isA_of_opt hfield).resolve_left fun hany => hnot ?_
          exact ⟨field, hmem, _, hlookup, .inr ⟨hnone, hany, rfl⟩⟩
        | _ => cases hopt
  | arr expected ih =>
    obtain ⟨actual, rfl, hitems⟩ := isA_arr.mp hsub
    obtain ⟨list, rfl, hlist⟩ := accepts_arr.mp hvalue
    have hiff (item : ConstValue) (hitem : item ∈ list) := ih actual item name hitems (hlist item hitem)
    constructor
    · intro haccepts hmissing
      obtain ⟨list', he, hlist'⟩ := accepts_arr.mp haccepts
      cases he
      cases hmissing with
      | item item hitem hmissing => exact (hiff item hitem).mp (hlist' item hitem) hmissing
    · intro hnot
      exact accepts_arr.mpr ⟨list, rfl, fun item hitem =>
        (hiff item hitem).mpr fun hmissing => hnot (.item item hitem hmissing)⟩
  | opt expected ih =>
    rw [accepts_opt]
    rcases isA_opt.mp hsub with ⟨actual, rfl, hsub⟩ | ⟨hopt, hsub⟩
    · rcases accepts_opt.mp hvalue with hnull | hvalue
      · exact iff_of_true (.inl hnull) fun hmissing => not_missing_null hmissing hnull
      · have hiff := ih actual value name hsub hvalue
        constructor
        · rintro (hnull | haccepts) hmissing
          · exact not_missing_null hmissing hnull
          · cases hmissing with
            | opts hmissing => exact hiff.mp haccepts hmissing
            | opt hopt _ => cases hopt
        · exact fun hnot => .inr (hiff.mpr fun hmissing => hnot (.opts hmissing))
    · have hiff := ih subType value name hsub hvalue
      constructor
      · rintro (hnull | haccepts) hmissing
        · exact not_missing_null hmissing hnull
        · cases hmissing with
          | opts _ => cases hopt
          | opt _ hmissing => exact hiff.mp haccepts hmissing
      · exact fun hnot => .inr (hiff.mpr fun hmissing => hnot (.opt hopt hmissing))
  | enum expected =>
    refine iff_of_true rfl fun hmissing => ?_
    cases hmissing
  | any => exact iff_of_true rfl (not_missing_any subType value)
  | str | num | bool | empty =>
    rw [isA_atom (by simp) hsub] at hvalue
    exact iff_of_true hvalue (not_missing_atom (by simp))

/-- A subtype's value is taken by the other type exactly where no optional entry is missing that may be anything. -/
theorem subtype_validates_iff (subType superType : JsonSchema) (value : ConstValue) (name : String)
    (hsub : isA subType superType name = .ok ()) (hvalue : validate subType value = .ok ()) :
    validate superType value = .ok () ↔ ¬ Missing subType superType value :=
  accepts_iff subType superType value name hsub hvalue

theorem subtype_rejects :
    isA (.obj [("a", .opt .str)]) (.obj [("a", .any)]) "input" = .ok () ∧
      validate (.obj [("a", .opt .str)]) (.object []) = .ok () ∧
      validate (.obj [("a", .any)]) (.object []) ≠ .ok () := by
  refine ⟨rfl, rfl, fun h => ?_⟩
  cases h

theorem subtype_validates_text :
    validate (.obj [("a", .any)]) (.object [("a", .string "x")]) = .ok () ↔
      ¬ Missing (.obj [("a", .opt .str)]) (.obj [("a", .any)]) (.object [("a", .string "x")]) :=
  subtype_validates_iff _ _ _ "input" rfl rfl

end

inductive Keyed : JsonSchema → Prop
  | obj {fields : List (String × JsonSchema)} :
    (fields.map Prod.fst).Nodup → (∀ field ∈ fields, Keyed field.2) → Keyed (.obj fields)
  | arr {schema : JsonSchema} : Keyed schema → Keyed (.arr schema)
  | opt {schema : JsonSchema} : Keyed schema → Keyed (.opt schema)
  | enum (values : List String) : Keyed (.enum values)
  | str : Keyed .str
  | num : Keyed .num
  | bool : Keyed .bool
  | empty : Keyed .empty
  | any : Keyed .any

section

variable {name : String}

theorem isA_enum {subType : JsonSchema} {expected : List String} :
    isA subType (.enum expected) name = .ok () ↔ subType = .enum expected := by
  cases subType with
  | enum actual =>
    rw [isA]
    by_cases he : actual = expected
    · rw [if_neg (not_not.mpr he), he]
      exact iff_of_true rfl rfl
    · rw [if_pos he]
      exact iff_of_false notAssignable_ne fun h => he (JsonSchema.enum.inj h)
  | _ => simp [isA, notAssignable_ne]

theorem isA_atom_self {schema : JsonSchema} (name : String)
    (hatom : schema = .str ∨ schema = .num ∨ schema = .bool ∨ schema = .empty) : isA schema schema name = .ok () := by
  rcases hatom with rfl | rfl | rfl | rfl <;> rfl

theorem isA_refl {schema : JsonSchema} (h : Keyed schema) (name : String) : isA schema schema name = .ok () := by
  induction h generalizing name with
  | obj hnodup _ ih =>
    refine isA_obj.mpr ⟨_, rfl, fun field hfield => ⟨field.2, ?_, ih field hfield field.1⟩⟩
    exact (Dict.lookup_eq_some_iff _ hnodup _ _).mpr hfield
  | arr _ ih => exact isA_arr.mpr ⟨_, rfl, ih name⟩
  | opt _ ih => exact isA_opt.mpr (.inl ⟨_, rfl, ih name⟩)
  | enum values => exact isA_enum.mpr rfl
  | any => rfl
  | _ => exact isA_atom_self name (by simp)

theorem isA_of_any {superType : JsonSchema} (h : isA .any superType name = .ok ())
    (subType : JsonSchema) (name' : String) : isA subType superType name' = .ok () := by
  induction superType using induction generalizing subType name name' with
  | any => rfl
  | opt expected ih =>
    have hany : isA .any expected name = .ok () := by
      rcases isA_opt.mp h with ⟨_, he, _⟩ | ⟨_, hany⟩
      · cases he
      · exact hany
    cases subType with
    | opt actual => exact isA_opt.mpr (.inl ⟨actual, rfl, ih hany actual name'⟩)
    | _ => exact isA_opt.mpr (.inr ⟨rfl, ih hany _ name'⟩)
  | obj expected =>
    obtain ⟨_, he, _⟩ := isA_obj.mp h
    cases he
  | arr expected =>
    obtain ⟨_, he, _⟩ := isA_arr.mp h
    cases he
  | enum expected => cases isA_enum.mp h
  | _ => cases isA_atom (by simp) h

theorem isA_trans {first second third : JsonSchema} {name' : String} (hfirst : isA first second name = .ok ())
    (hsecond : isA second third name' = .ok ()) (name'' : String) : isA first third name'' = .ok () := by
  induction third using induction generalizing first second name name' name'' with
  | obj expected ih =>
    obtain ⟨middle, rfl, hmiddle⟩ := isA_obj.mp hsecond
    obtain ⟨actual, rfl, hactual⟩ := isA_obj.mp hfirst
    refine isA_obj.mpr ⟨actual, rfl, fun field hfield => ?_⟩
    obtain ⟨schema, hschema, hfits⟩ := hmiddle field hfield
    obtain ⟨schema', hschema', hfits'⟩ := hactual (field.1, schema) (mem_of_lookup hschema)
    exact ⟨schema', hschema', ih field hfield hfits' hfits field.1⟩
  | arr expected ih =>
    obtain ⟨middle, rfl, hmiddle⟩ := isA_arr.mp hsecond
    obtain ⟨actual, rfl, hactual⟩ := isA_arr.mp hfirst
    exact isA_arr.mpr ⟨actual, rfl, ih hactual hmiddle name''⟩
  | opt expected ih =>
    rcases isA_opt.mp hsecond with ⟨middle, rfl, hmiddle⟩ | ⟨hrequired, hmiddle⟩
    · rcases isA_opt.mp hfirst with ⟨actual, rfl, hactual⟩ | ⟨hrequired, hactual⟩
      · exact isA_opt.mpr (.inl ⟨actual, rfl, ih hactual hmiddle name''⟩)
      · exact isA_opt.mpr (.inr ⟨hrequired, ih hactual hmiddle name''⟩)
    · cases hopt : first.isOptional with
      | false => exact isA_opt.mpr (.inr ⟨hopt, ih hfirst hmiddle name''⟩)
      | true =>
        -- what takes an optional value without being optional takes everything
        cases first with
        | opt actual =>
          rcases isA_of_opt hfirst with rfl | hsuper
          · exact isA_opt.mpr (.inl ⟨actual, rfl, isA_of_any hmiddle actual name''⟩)
          · rw [hrequired] at hsuper
            cases hsuper
        | _ => cases hopt
  | enum expected =>
    rw [isA_enum.mp hsecond] at hfirst
    exact isA_enum.mpr (isA_enum.mp hfirst)
  | any => rfl
  | str =>
    rw [isA_atom (by simp) hsecond] at hfirst
    rw [isA_atom (by simp) hfirst]
    rfl
  | num =>
    rw [isA_atom (by simp) hsecond] at hfirst
    rw [isA_atom (by simp) hfirst]
    rfl
  | bool =>
    rw [isA_atom (by simp) hsecond] at hfirst
    rw [isA_atom (by simp) hfirst]
    rfl
  | empty =>
    rw [isA_atom (by simp) hsecond] at hfirst
    rw [isA_atom (by simp) hfirst]
    rfl

end

theorem isA_preorder (first second third : JsonSchema) (name name' name'' : String) :
    (Keyed first → isA first first name = .ok ()) ∧
      (isA first second name = .ok () → isA second third name' = .ok () → isA first third name'' = .ok ()) :=
  ⟨fun hkeyed => isA_refl hkeyed name, fun hfirst hsecond => isA_trans hfirst hsecond name''⟩

theorem isA_preorder_objects : isA (.obj [("a", .opt .str)]) (.obj []) "t" = .ok () :=
  (isA_preorder (.obj [("a", .opt .str)]) (.obj [("a", .any)]) (.obj []) "a" "b" "t").2 rfl rfl

end Gqlforge.JsonSchemas.JsonSchema
