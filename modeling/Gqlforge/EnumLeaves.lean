import Gqlforge.AddedReads
import Gqlforge.SynthesisTypes

namespace Gqlforge.EnumLeaves

open Json Errors Resolvers Schema Config Plan Executor Validation FieldCompiler FieldPasses PassEffects
open EvalContext Eval EvalStarts Synth SynthesisTypes

section Law

variable (enum : Enum)

def options (variant : Variant) : List String :=
  (variant.aliases.map fun a => a.options.sort (· ≤ ·)).getD []

def Has (variant : Variant) (text : String) : Prop :=
  variant.name = text ∨ text ∈ options variant

instance (variant : Variant) (text : String) : Decidable (Has variant text) :=
  inferInstanceAs (Decidable (_ ∨ _))

def IsVariant (text : String) : Prop :=
  ∃ variant ∈ enum.variants.items, variant.name = text

instance (text : String) : Decidable (IsVariant enum text) :=
  inferInstanceAs (Decidable (∃ variant ∈ enum.variants.items, variant.name = text))

/-- A declared variant stands for itself, another text for a variant that it is an alias of. -/
def StandsFor (text name : String) : Prop :=
  if IsVariant enum text then name = text
  else ∃ variant ∈ enum.variants.items, text ∈ options variant ∧ name = variant.name

inductive Renamed : ConstValue → Output → Prop where
  | null : Renamed .null .null
  | text {text name : String} : StandsFor enum text name → Renamed (.string text) (.str name)
  | list {items : List ConstValue} {outputs : List Output} :
      List.Forall₂ Renamed items outputs → Renamed (.list items) (.array outputs)

def Known (value : ConstValue) : Prop :=
  ∃ output, Renamed enum value output

def Fits : WrappingType → ConstValue → Prop
  | .named _ nonNull, value => (value = .null → nonNull = false) ∧ value.asArray = none
  | .list ofType nonNull, value =>
    (value = .null ∧ nonNull = false) ∨ ∃ items, value = .list items ∧ ∀ item ∈ items, Fits ofType item

/-- What a client may be served for a value of an enum from upstream; nothing stands for an error. -/
structure Lawful (typeOf : WrappingType) (value : ConstValue) (served : Option Output) : Prop where
  renamed : ∀ output, served = some output → Known enum value ∧ (output = .null ∨ Renamed enum value output)
  kept : value ≠ .null → Fits typeOf value → Known enum value →
    ∃ output, served = some output ∧ Renamed enum value output

def Flat : ConstValue → Prop
  | .list items => ∃ texts : List String, items = texts.map .string
  | _ => True

def textsOf : ConstValue → List String
  | .list items => items.filterMap ConstValue.asStr
  | value => value.asStr.toList

def lastOwner (text : String) : Option String :=
  (enum.variants.items.reverse.find? (Has · text)).map Variant.name

def Served (resolved : Bool) (text : String) : Prop :=
  if resolved then IsVariant enum text → lastOwner enum text = some text else IsVariant enum text

/-- The value has no lists within lists or nulls in lists, and no text that is served as something else. -/
def Unharmed (typeOf : WrappingType) (resolved : Bool) (value : ConstValue) : Prop :=
  Known enum value →
    (Flat value → (resolved = true → typeOf.isList = value.asArray.isSome) →
      ∀ text ∈ textsOf value, Served enum resolved text) ∧ (Fits typeOf value → Flat value)

end Law

section Map

variable {enum : Enum}

theorem get?_aliasEntries (dict : Dict String) (variant : Variant) (text : String) :
    (dict.extend (aliasEntries variant)).get? text = if Has variant text then some variant.name else dict.get? text := by
  have hoptions (names : List String) (dict : Dict String) :
      (dict.extend (names.map fun option => (option, variant.name))).get? text =
        if text ∈ names then some variant.name else dict.get? text := by
    induction names generalizing dict with
    | nil => simp [Dict.extend]
    | cons name names ih =>
      change ((dict.insert name variant.name).extend _).get? text = _
      rw [ih, Dict.get?_insert]
      by_cases hmem : text ∈ names
      · simp [hmem]
      · by_cases hname : text = name <;> simp [hmem, hname]
  change ((dict.insert variant.name variant.name).extend ((options variant).map fun option =>
    (option, variant.name))).get? text = _
  rw [hoptions, Dict.get?_insert]
  by_cases hmem : text ∈ options variant
  · rw [if_pos hmem, if_pos (show Has variant text from .inr hmem)]
  · by_cases hname : text = variant.name
    · rw [if_neg hmem, if_pos hname, if_pos (show Has variant text from .inl hname.symm)]
    · rw [if_neg hmem, if_neg hname, if_neg (show ¬ Has variant text from not_or.mpr ⟨Ne.symm hname, hmem⟩)]

theorem get?_aliasMap (text : String) : (aliasMap enum).get? text = lastOwner enum text := by
  have hvariants (variants : List Variant) (dict : Dict String) :
      (dict.extend (variants.flatMap aliasEntries)).get? text =
        ((variants.reverse.find? (Has · text)).map Variant.name).or (dict.get? text) := by
    induction variants generalizing dict with
    | nil => simp [Dict.extend]
    | cons variant variants ih =>
      rw [List.flatMap_cons, Dict.extend, List.foldl_append]
      change ((dict.extend (aliasEntries variant)).extend _).get? text = _
      rw [ih, get?_aliasEntries, List.reverse_cons, List.find?_append]
      cases variants.reverse.find? (Has · text) with
      | some found => simp
      | none => by_cases hhas : Has variant text <;> simp [hhas]
  rw [aliasMap, Dict.ofEntries, hvariants, Dict.get?_empty, Option.or_none, lastOwner]

theorem lastOwner_isSome_iff {text : String} :
    (lastOwner enum text).isSome = true ↔ ∃ variant ∈ enum.variants.items, Has variant text := by
  simp [lastOwner, List.find?_isSome]

theorem lastOwner_has {text name : String} (h : lastOwner enum text = some name) :
    ∃ variant ∈ enum.variants.items, Has variant text ∧ name = variant.name := by
  obtain ⟨variant, hfound, rfl⟩ := Option.map_eq_some_iff.mp h
  exact ⟨variant, List.mem_reverse.mp (List.mem_of_find?_eq_some hfound), by simpa using List.find?_some hfound, rfl⟩

theorem standsFor_exists_iff {text : String} :
    (∃ name, StandsFor enum text name) ↔ ∃ variant ∈ enum.variants.items, Has variant text := by
  unfold StandsFor
  by_cases hvariant : IsVariant enum text
  · obtain ⟨variant, hmem, hname⟩ := hvariant
    simp only [if_pos (show IsVariant enum text from ⟨variant, hmem, hname⟩)]
    exact iff_of_true ⟨text, rfl⟩ ⟨variant, hmem, .inl hname⟩
  · simp only [if_neg hvariant]
    constructor
    · rintro ⟨_, variant, hmem, hoption, -⟩
      exact ⟨variant, hmem, .inr hoption⟩
    · rintro ⟨variant, hmem, hname | hoption⟩
      · exact absurd ⟨variant, hmem, hname⟩ hvariant
      · exact ⟨_, variant, hmem, hoption, rfl⟩

theorem standsFor_lastOwner_iff {text name : String} (h : lastOwner enum text = some name) :
    StandsFor enum text name ↔ Served enum true text := by
  rw [show Served enum true text ↔ (IsVariant enum text → lastOwner enum text = some text) from Iff.rfl, StandsFor, h]
  split
  next hvariant => exact ⟨fun hname _ => congrArg some hname, fun h => Option.some.inj (h hvariant)⟩
  next hvariant =>
    obtain ⟨variant, hmem, hname | hoption, rfl⟩ := lastOwner_has h
    · exact absurd ⟨variant, hmem, hname⟩ hvariant
    · exact iff_of_true ⟨variant, hmem, hoption, rfl⟩ fun hvariant' => absurd hvariant' hvariant

theorem standsFor_self_iff {text : String} : StandsFor enum text text ↔ Served enum false text := by
  rw [show Served enum false text ↔ IsVariant enum text from Iff.rfl, StandsFor]
  split
  next hvariant => exact iff_of_true rfl hvariant
  next hvariant =>
    refine iff_of_false ?_ hvariant
    rintro ⟨variant, hmem, -, hname⟩
    exact hvariant ⟨variant, hmem, hname.symm⟩

end Map

section Values

variable {enum : Enum}

theorem known_text_iff {text : String} : Known enum (.string text) ↔ (lastOwner enum text).isSome = true := by
  rw [lastOwner_isSome_iff, ← standsFor_exists_iff]
  constructor
  · rintro ⟨_, h⟩
    cases h with
    | text h => exact ⟨_, h⟩
  · rintro ⟨name, h⟩
    exact ⟨.str name, .text h⟩

theorem known_list_iff {items : List ConstValue} :
    Known enum (.list items) ↔ ∃ outputs, List.Forall₂ (Renamed enum) items outputs := by
  constructor
  · rintro ⟨_, h⟩
    cases h with
    | list h => exact ⟨_, h⟩
  · rintro ⟨outputs, h⟩
    exact ⟨.array outputs, .list h⟩

theorem mapEnum_text (text : String) : mapEnum (aliasMap enum).entries (.string text) =
    match lastOwner enum text with
    | some name => .ok (.string name)
    | none => .error (.exprEval ("Can't find mapped key: " ++ text ++ ".")) := by
  rw [← get?_aliasMap, mapEnum]
  rfl

mutual

theorem mapEnum_known : (value : ConstValue) →
    ((∃ result, mapEnum (aliasMap enum).entries value = .ok result) ↔ Known enum value)
  | .null => iff_of_true ⟨.null, rfl⟩ ⟨.null, .null⟩
  | .string text => by
    rw [known_text_iff, mapEnum_text]
    cases lastOwner enum text with
    | some name => exact iff_of_true ⟨_, rfl⟩ rfl
    | none => exact iff_of_false (not_exists.mpr fun _ h => by cases h) (by decide)
  | .list items => by
    rw [known_list_iff, ← mapEnums_known items, mapEnum]
    cases mapEnums (aliasMap enum).entries items with
    | ok results => exact iff_of_true ⟨_, rfl⟩ ⟨_, rfl⟩
    | error error => exact iff_of_false (not_exists.mpr fun _ h => by cases h) (not_exists.mpr fun _ h => by cases h)
  | .number _ => iff_of_false (not_exists.mpr fun _ h => by cases h) (not_exists.mpr fun _ h => by cases h)
  | .boolean _ => iff_of_false (not_exists.mpr fun _ h => by cases h) (not_exists.mpr fun _ h => by cases h)
  | .enum _ => iff_of_false (not_exists.mpr fun _ h => by cases h) (not_exists.mpr fun _ h => by cases h)
  | .object _ => iff_of_false (not_exists.mpr fun _ h => by cases h) (not_exists.mpr fun _ h => by cases h)

theorem mapEnums_known : (items : List ConstValue) →
    ((∃ results, mapEnums (aliasMap enum).entries items = .ok results) ↔
      ∃ outputs, List.Forall₂ (Renamed enum) items outputs)
  | [] => iff_of_true ⟨[], rfl⟩ ⟨[], .nil⟩
  | value :: rest => by
    have hvalue := mapEnum_known value
    have hrest := mapEnums_known rest
    rw [mapEnums]
    constructor
    · rintro ⟨results, h⟩
      cases hfirst : mapEnum (aliasMap enum).entries value with
      | error error =>
        rw [hfirst] at h
        cases h
      | ok first =>
        cases hothers : mapEnums (aliasMap enum).entries rest with
        | error error =>
          rw [hfirst, hothers] at h
          cases h
        | ok others =>
          obtain ⟨output, houtput⟩ := hvalue.mp ⟨first, hfirst⟩
          obtain ⟨outputs, houtputs⟩ := hrest.mp ⟨others, hothers⟩
          exact ⟨output :: outputs, .cons houtput houtputs⟩
    · rintro ⟨outputs, h⟩
      cases h with
      | cons hfirst hothers =>
        obtain ⟨first, hfirst⟩ := hvalue.mpr ⟨_, hfirst⟩
        obtain ⟨others, hothers⟩ := hrest.mpr ⟨_, hothers⟩
        exact ⟨first :: others, by rw [hfirst, hothers]; rfl⟩

end

def Changes (enum : Enum) (resolved : Bool) (value result : ConstValue) : Prop :=
  if resolved then mapEnum (aliasMap enum).entries value = .ok result else value = result

variable {resolved : Bool}

theorem mapEnums_forall₂ {items results : List ConstValue} (h : mapEnums (aliasMap enum).entries items = .ok results) :
    List.Forall₂ (Changes enum true) items results := by
  induction items generalizing results with
  | nil =>
    obtain rfl := Except.ok.inj h
    exact .nil
  | cons value rest ih =>
    rw [mapEnums] at h
    cases hfirst : mapEnum (aliasMap enum).entries value with
    | error error =>
      rw [hfirst] at h
      cases h
    | ok first =>
      cases hothers : mapEnums (aliasMap enum).entries rest with
      | error error =>
        rw [hfirst, hothers] at h
        cases h
      | ok others =>
        rw [hfirst, hothers] at h
        obtain rfl := Except.ok.inj h
        exact .cons hfirst (ih hothers)

theorem Changes.list {items : List ConstValue} {result : ConstValue} (h : Changes enum resolved (.list items) result) :
    ∃ results, result = .list results ∧ List.Forall₂ (Changes enum resolved) items results := by
  cases resolved with
  | false => exact ⟨items, h.symm, List.forall₂_same.mpr fun _ _ => rfl⟩
  | true =>
    rw [Changes, if_pos rfl, mapEnum] at h
    cases hresults : mapEnums (aliasMap enum).entries items with
    | error error =>
      rw [hresults] at h
      cases h
    | ok results =>
      rw [hresults] at h
      exact ⟨results, (Except.ok.inj h).symm, mapEnums_forall₂ hresults⟩

theorem Changes.known {text : String} {result : ConstValue} (h : Changes enum true (.string text) result) :
    ∃ name, lastOwner enum text = some name ∧ result = .string name := by
  rw [Changes, if_pos rfl, mapEnum_text] at h
  cases howner : lastOwner enum text with
  | none =>
    rw [howner] at h
    cases h
  | some name =>
    rw [howner] at h
    exact ⟨name, rfl, (Except.ok.inj h).symm⟩

theorem Changes.text {text : String} {result : ConstValue} (h : Changes enum resolved (.string text) result)
    (hknown : Known enum (.string text)) :
    ∃ name, result = .string name ∧ (∃ variant ∈ enum.variants.items, Has variant name) ∧
      (StandsFor enum text name ↔ Served enum resolved text) := by
  cases resolved with
  | false =>
    obtain rfl : ConstValue.string text = result := h
    exact ⟨text, rfl, lastOwner_isSome_iff.mp (known_text_iff.mp hknown), standsFor_self_iff⟩
  | true =>
    obtain ⟨name, howner, rfl⟩ := h.known
    obtain ⟨variant, hmem, -, rfl⟩ := lastOwner_has howner
    exact ⟨variant.name, rfl, ⟨variant, hmem, .inl rfl⟩, standsFor_lastOwner_iff howner⟩

theorem Changes.of_text {value : ConstValue} {name : String} (h : Changes enum resolved value (.string name)) :
    ∃ text, value = .string text := by
  cases resolved with
  | false => exact ⟨name, h⟩
  | true =>
    rw [Changes, if_pos rfl] at h
    cases value with
    | string text => exact ⟨text, rfl⟩
    | list items =>
      rw [mapEnum] at h
      cases hresults : mapEnums (aliasMap enum).entries items <;> rw [hresults] at h <;> cases h
    | _ => cases h

section Checks

variable {plan : OperationPlan ConstValue} {node : Field ConstValue}

theorem item_valid
    (hvalid : ∀ text, plan.fieldValidateEnumValue node text = true ↔ ∃ variant ∈ enum.variants.items, Has variant text)
    {item result : ConstValue} (h : Changes enum resolved item result) :
    result.asStr.any (plan.fieldValidateEnumValue node) = true ↔ ∃ text, item = .string text ∧ Known enum item := by
  constructor
  · intro hany
    obtain ⟨name, hname, hchecked⟩ := (Option.any_eq_true _ _).mp hany
    obtain rfl : result = .string name := by
      cases result with
      | string text => exact congrArg _ (Option.some.inj hname)
      | _ => cases hname
    obtain ⟨text, rfl⟩ := h.of_text
    refine ⟨text, rfl, ?_⟩
    cases resolved with
    | true => exact (mapEnum_known _).mp ⟨_, h⟩
    | false =>
      obtain rfl := ConstValue.string.inj h
      exact known_text_iff.mpr (lastOwner_isSome_iff.mpr ((hvalid _).mp hchecked))
  · rintro ⟨text, rfl, hknown⟩
    obtain ⟨name, rfl, hhas, -⟩ := h.text hknown
    exact (hvalid name).mpr hhas

theorem items_valid
    (hvalid : ∀ text, plan.fieldValidateEnumValue node text = true ↔ ∃ variant ∈ enum.variants.items, Has variant text)
    {items results : List ConstValue} (h : List.Forall₂ (Changes enum resolved) items results) :
    (results.all fun result => result.asStr.any (plan.fieldValidateEnumValue node)) = true ↔
      ∃ texts : List String, items = texts.map .string ∧ ∀ text ∈ texts, Known enum (.string text) := by
  induction h with
  | nil => exact iff_of_true rfl ⟨[], rfl, by simp⟩
  | cons hitem _ ih =>
    rw [List.all_cons, Bool.and_eq_true, item_valid hvalid hitem, ih]
    constructor
    · rintro ⟨⟨text, rfl, hknown⟩, texts, rfl, hknowns⟩
      exact ⟨text :: texts, rfl, List.forall_mem_cons.mpr ⟨hknown, hknowns⟩⟩
    · rintro ⟨texts, htexts, hknowns⟩
      cases texts with
      | nil => cases htexts
      | cons text texts =>
        obtain ⟨rfl, rfl⟩ := List.cons.inj htexts
        obtain ⟨hknown, hknowns⟩ := List.forall_mem_cons.mp hknowns
        exact ⟨⟨text, rfl, hknown⟩, texts, rfl, hknowns⟩

theorem texts_renamed {texts : List String} {results : List ConstValue}
    (h : List.Forall₂ (Changes enum resolved) (texts.map .string) results)
    (hknown : ∀ text ∈ texts, Known enum (.string text)) :
    List.Forall₂ (Renamed enum) (texts.map .string) (results.map Output.cloneFrom) ↔
      ∀ text ∈ texts, Served enum resolved text := by
  induction texts generalizing results with
  | nil =>
    cases h with
    | nil => simp
  | cons text texts ih =>
    cases h with
    | cons hitem hitems =>
      obtain ⟨hfirst, hrest⟩ := List.forall_mem_cons.mp hknown
      obtain ⟨name, rfl, -, hserved⟩ := hitem.text hfirst
      rw [List.map_cons, List.map_cons, List.forall₂_cons, List.forall_mem_cons, ih hitems hrest, ← hserved]
      refine and_congr_left fun _ => ⟨fun h => ?_, .text⟩
      cases h with
      | text h => exact h

theorem known_texts_iff {texts : List String} :
    Known enum (.list (texts.map .string)) ↔ ∀ text ∈ texts, Known enum (.string text) := by
  rw [known_list_iff]
  induction texts with
  | nil => exact iff_of_true ⟨[], .nil⟩ (by simp)
  | cons text texts ih =>
    rw [List.map_cons, List.forall_mem_cons, ← ih]
    constructor
    · rintro ⟨_, h⟩
      cases h with
      | cons hfirst hrest => exact ⟨⟨_, hfirst⟩, _, hrest⟩
    · rintro ⟨⟨_, hfirst⟩, _, hrest⟩
      exact ⟨_, .cons hfirst hrest⟩

theorem isValidEnum_iff
    (hvalid : ∀ text, plan.fieldValidateEnumValue node text = true ↔ ∃ variant ∈ enum.variants.items, Has variant text)
    {value result : ConstValue} (hne : value ≠ .null) (h : Changes enum resolved value result) :
    isValidEnum plan node result = true ↔ Flat value ∧ Known enum value := by
  by_cases hlist : ∃ items, value = .list items
  · obtain ⟨items, rfl⟩ := hlist
    obtain ⟨results, rfl, hresults⟩ := h.list
    refine (items_valid hvalid hresults).trans ⟨?_, ?_⟩
    · rintro ⟨texts, rfl, hknown⟩
      exact ⟨⟨texts, rfl⟩, known_texts_iff.mpr hknown⟩
    · rintro ⟨⟨texts, rfl⟩, hknown⟩
      exact ⟨texts, rfl, known_texts_iff.mp hknown⟩
  · have hresult : ∀ results, result ≠ .list results := by
      rintro results rfl
      cases resolved with
      | false => exact hlist ⟨results, h⟩
      | true =>
        rw [Changes, if_pos rfl] at h
        cases value with
        | list items => exact hlist ⟨items, rfl⟩
        | string text =>
          obtain ⟨_, -, hname⟩ := Changes.known h
          cases hname
        | _ => cases h
    have hcheck : isValidEnum plan node result = result.asStr.any (plan.fieldValidateEnumValue node) := by
      cases result with
      | list results => exact absurd rfl (hresult results)
      | _ => rfl
    rw [hcheck, item_valid hvalid h]
    constructor
    · rintro ⟨text, rfl, hknown⟩
      exact ⟨trivial, hknown⟩
    · rintro ⟨-, hknown⟩
      obtain ⟨_, hrenamed⟩ := hknown
      cases hrenamed with
      | null => exact absurd rfl hne
      | text hstands => exact ⟨_, rfl, _, .text hstands⟩
      | list _ => exact absurd ⟨_, rfl⟩ hlist

theorem renamed_iff {value result : ConstValue} (hne : value ≠ .null) (h : Changes enum resolved value result)
    (hflat : Flat value) (hknown : Known enum value) :
    Renamed enum value (.cloneFrom result) ↔ ∀ text ∈ textsOf value, Served enum resolved text := by
  have hcases : (∃ text, value = .string text) ∨ ∃ items, value = .list items := by
    obtain ⟨_, hrenamed⟩ := hknown
    cases hrenamed with
    | null => exact absurd rfl hne
    | text _ => exact .inl ⟨_, rfl⟩
    | list _ => exact .inr ⟨_, rfl⟩
  rcases hcases with ⟨text, rfl⟩ | ⟨items, rfl⟩
  · obtain ⟨name, rfl, -, hserved⟩ := h.text hknown
    rw [show textsOf (.string text) = [text] from rfl, List.forall_mem_singleton, ← hserved]
    refine ⟨fun h => ?_, .text⟩
    cases h with
    | text h => exact h
  · obtain ⟨texts, rfl⟩ := hflat
    obtain ⟨results, rfl, hresults⟩ := h.list
    have htexts : textsOf (.list (texts.map .string)) = texts := by
      rw [textsOf, List.filterMap_map]
      exact List.filterMap_some
    rw [htexts, ← texts_renamed hresults (known_texts_iff.mp hknown), Output.cloneFrom, Output.cloneItems_eq_map]
    refine ⟨fun h => ?_, .list⟩
    cases h with
    | list h => exact h

end Checks

end Values

section Synthesis

variable (B : Backends) (formats : Scalar.Formats) (plan : OperationPlan ConstValue) (vars : Variables)

structure OfEnum (field : Gqlforge.Field ConstValue) (type : WrappingType) (enum : Enum) : Prop where
  typeOf : field.typeOf = type
  isEnum : field.isEnum = true
  scalar : field.scalar = none
  included : field.skip vars = false
  defined : ∃ definition, (toEnumTypeDefinition (type.name, enum) : Checked B Definition) = .ok definition ∧
    plan.index.definition type.name = some definition

def output (run : Synthesis Output) (path : List PathSegment) : Option Output :=
  (run.run path).toOption.map Prod.fst

def leafOf (node : Gqlforge.Field ConstValue) (value : ConstValue) : Option Output :=
  if value.isNull then if (nullType node.typeOf).isNullable then some .null else none
  else if isValidEnum plan node value then some (.cloneFrom value) else none

variable {B formats plan vars} {node : Gqlforge.Field ConstValue} {typeOf : WrappingType} {enum : Enum}

theorem OfEnum.valid (h : OfEnum B plan vars node typeOf enum) (text : String) :
    plan.fieldValidateEnumValue node text = true ↔ ∃ variant ∈ enum.variants.items, Has variant text := by
  obtain ⟨_, hdefinition, hdefined⟩ := h.defined
  rw [toEnumTypeDefinition] at hdefinition
  split at hdefinition
  · cases hdefinition
  obtain rfl := Except.ok.inj hdefinition
  rw [OperationPlan.fieldValidateEnumValue, Index.validateEnumValue, h.typeOf, hdefined]
  simp [Has, options, List.any_eq_true]

theorem output_pop (run : Synthesis Output) (path : List PathSegment) :
    output (do
      let output ← run
      pop
      return output) path = output run path := by
  unfold output
  rw [StateT.run_bind]
  cases run.run path with
  | error error => rfl
  | ok result => rfl

theorem output_push (segment : PathSegment) (run : Synthesis Output) (path : List PathSegment) :
    output (do
      push segment
      run) path = output run (path ++ [segment]) := rfl

theorem output_iterInner (h : OfEnum B plan vars node typeOf enum)
    (objectFields : List Nat → ConstValue → Synthesis (List (String × Output))) (dataPath : List Nat)
    (value : ConstValue) (path : List PathSegment) :
    output (iterInner formats plan vars node objectFields dataPath value) path = leafOf plan node value := by
  have hcheck : ∃ result, checkLeaf formats plan vars node value = some result ∧
      result.toOption = leafOf plan node value := by
    rw [checkLeaf, leafOf, h.included, if_neg (by decide)]
    cases value.isNull with
    | true => cases (nullType node.typeOf).isNullable <;> exact ⟨_, rfl, rfl⟩
    | false =>
      simp only [h.scalar, h.isEnum]
      cases isValidEnum plan node value <;> exact ⟨_, rfl, rfl⟩
  obtain ⟨result, hresult, hleaf⟩ := hcheck
  rw [← hleaf]
  cases value <;> cases result <;> simp only [iterInner, hresult] <;> rfl

theorem output_nodeNullableGuard (path : List PathSegment) :
    output (nodeNullableGuard node none) path = if node.typeOf.isNullable then some .null else none := by
  unfold nodeNullableGuard
  cases node.typeOf.isNullable <;> rfl

variable {store : Store} {dataPath : List Nat} {rootName : Option String} {path : List PathSegment}

theorem processNode_given (h : OfEnum B plan vars node typeOf enum) (hstore : store.get node.id = none)
    (value : ConstValue) :
    output (processNode formats plan vars store (some value) dataPath rootName node) path = leafOf plan node value := by
  rw [processNode_eq, output_push]
  simp only [hstore]
  rw [output_pop, output_iterInner h]

theorem processNode_stored (h : OfEnum B plan vars node typeOf enum) {given : Option ConstValue}
    {stored value : ConstValue} (hstore : store.get node.id = some (.ok stored))
    (hindex : indexValue dataPath stored = .value value) :
    output (processNode formats plan vars store given dataPath rootName node) path =
      if typeOf.isList = value.asArray.isSome then leafOf plan node value
      else if typeOf.isNullable then some .null else none := by
  have hmismatched : mismatched node value = !decide (typeOf.isList = value.asArray.isSome) := by
    rw [mismatched, h.scalar, h.typeOf]
    cases typeOf.isList <;> cases value.asArray.isSome <;> rfl
  rw [processNode_eq, output_push]
  simp only [hstore, hindex, hmismatched]
  split
  next hshaped => rw [if_neg (by simpa using hshaped), output_nodeNullableGuard, h.typeOf]
  next hshaped => rw [if_pos (by simpa using hshaped), output_pop, output_iterInner h]

theorem processNode_failed {given : Option ConstValue} {error : Positioned}
    (hstore : store.get node.id = some (.error error)) :
    output (processNode formats plan vars store given dataPath rootName node) path = none := by
  rw [processNode_eq, output_push]
  simp only [hstore]
  rfl

theorem Changes.shape {resolved : Bool} {value result : ConstValue} (h : Changes enum resolved value result) :
    result.isNull = value.isNull ∧ result.asArray.isSome = value.asArray.isSome := by
  cases resolved with
  | false =>
    obtain rfl : value = result := h
    exact ⟨rfl, rfl⟩
  | true =>
    cases value with
    | null =>
      obtain rfl := Except.ok.inj h
      exact ⟨rfl, rfl⟩
    | string text =>
      obtain ⟨_, -, rfl⟩ := Changes.known h
      exact ⟨rfl, rfl⟩
    | list items =>
      obtain ⟨_, rfl, -⟩ := Changes.list h
      exact ⟨rfl, rfl⟩
    | _ => cases h

theorem Fits.shape {value : ConstValue} (h : Fits typeOf value) (hne : value ≠ .null) :
    typeOf.isList = value.asArray.isSome := by
  cases typeOf with
  | named _ nonNull => rw [h.2]; rfl
  | list ofType nonNull =>
    rcases h with ⟨hnull, -⟩ | ⟨items, rfl, -⟩
    · exact absurd hnull hne
    · rfl

variable {resolved : Bool} {value result : ConstValue} {served : Option Output}

theorem lawful_null_iff (h : ∀ output, served = some output → output = .null) :
    Lawful enum typeOf .null served ↔ Unharmed enum typeOf resolved .null :=
  iff_of_true ⟨fun output houtput => ⟨⟨.null, .null⟩, .inl (h output houtput)⟩, fun hne => absurd rfl hne⟩
    fun _ => ⟨fun _ _ _ htext => (List.not_mem_nil htext).elim, fun _ => trivial⟩

theorem lawful_unknown_iff (hknown : ¬ Known enum value) (hserved : served = none) :
    Lawful enum typeOf value served ↔ Unharmed enum typeOf resolved value := by
  refine iff_of_true ⟨fun output houtput => ?_, fun _ _ h => absurd h hknown⟩ fun h => absurd h hknown
  rw [hserved] at houtput
  cases houtput

theorem lawful_changes_iff (h : OfEnum B plan vars node typeOf enum) (hne : value ≠ .null)
    (hchange : Changes enum resolved value result)
    (hshaped : (resolved = true → typeOf.isList = value.asArray.isSome) → served = leafOf plan node result)
    (hguarded : ¬ (resolved = true → typeOf.isList = value.asArray.isSome) →
      served = if typeOf.isNullable then some .null else none) (hmapped : resolved = true → Known enum value) :
    Lawful enum typeOf value served ↔ Unharmed enum typeOf resolved value := by
  have hnull : result.isNull = false := by
    rw [hchange.shape.1]
    cases value with
    | null => exact absurd rfl hne
    | _ => rfl
  have hvalid := isValidEnum_iff h.valid hne hchange
  have hleaf : leafOf plan node result = if isValidEnum plan node result then some (.cloneFrom result) else none := by
    rw [leafOf, hnull, if_neg (by decide)]
  constructor
  · refine fun hlawful hknown => ⟨fun hflat hshape => ?_, fun hfits => ?_⟩
    · have hserved := hshaped hshape
      rw [hleaf, if_pos (hvalid.mpr ⟨hflat, hknown⟩)] at hserved
      obtain ⟨-, hoff | hrenamed⟩ := hlawful.renamed _ hserved
      · rw [TypeSoundness.cloneFrom_eq_null, hnull] at hoff
        cases hoff
      · exact (renamed_iff hne hchange hflat hknown).mp hrenamed
    · obtain ⟨output, houtput, -⟩ := hlawful.kept hne hfits hknown
      rw [hshaped fun _ => hfits.shape hne, hleaf] at houtput
      split at houtput
      next hok => exact (hvalid.mp hok).1
      next => cases houtput
  · intro hunharmed
    have hclone (hok : isValidEnum plan node result = true) (hshape : resolved = true → typeOf.isList = value.asArray.isSome) :
        Renamed enum value (.cloneFrom result) := by
      obtain ⟨hflat, hknown⟩ := hvalid.mp hok
      exact (renamed_iff hne hchange hflat hknown).mpr ((hunharmed hknown).1 hflat hshape)
    constructor
    · intro output houtput
      by_cases hshape : resolved = true → typeOf.isList = value.asArray.isSome
      · rw [hshaped hshape, hleaf] at houtput
        split at houtput
        next hok =>
          obtain rfl := Option.some.inj houtput
          exact ⟨(hvalid.mp hok).2, .inr (hclone hok hshape)⟩
        next => cases houtput
      · rw [hguarded hshape] at houtput
        split at houtput
        next => exact ⟨hmapped (Classical.not_imp.mp hshape).1, .inl (Option.some.inj houtput).symm⟩
        next => cases houtput
    · intro _ hfits hknown
      have hshape : resolved = true → typeOf.isList = value.asArray.isSome := fun _ => hfits.shape hne
      have hok := hvalid.mpr ⟨(hunharmed hknown).2 hfits, hknown⟩
      exact ⟨_, by rw [hshaped hshape, hleaf, if_pos hok], hclone hok hshape⟩

end Synthesis

section Compiled

def IsStored (store : Store) (id : ℕ) (dataPath : List ℕ) : Except EvalError ConstValue → Prop
  | .ok value => ∃ stored, store.get id = some (.ok stored) ∧ indexValue dataPath stored = .value value
  | .error _ => ∃ error, store.get id = some (.error error)

/-- A value comes to a field from its parent, or from its resolver without the step put around it. -/
inductive Arrives {Key σ : Type} [DecidableEq Key] (runtime : Runtime Key σ) (bField : FieldDefinition)
    (node : Gqlforge.Field ConstValue) (store : Store) (given : Option ConstValue) (dataPath : List ℕ) :
    ConstValue → Prop where
  | given {value : ConstValue} : bField.resolver = none → store.get node.id = none → given = some value →
      Arrives runtime bField node store given dataPath value
  | resolved {way : Way} {core : IR} {map : List (String × String)} {ctx : EvalContext} {state : RequestState Key σ}
      {value : ConstValue} : bField.resolver = some (.map core map) →
      (Evaluation.run runtime ⟨way.down .below, core, ctx, entering way (.map core map) state⟩).1 = .ok value →
      IsStored store node.id dataPath (Evaluation.run runtime ⟨way, .map core map, ctx, state⟩).1 →
      Arrives runtime bField node store given dataPath value

variable {P : Payloads} {B : Backends} {passes : Passes P B} {module : Module P B} {C : Compiler P B}
variable {field : Config.Field (withResolvers P B)} {typeOf : TypeDef (withResolvers P B)} {enum : Enum}
variable {objectName name : String}

theorem discriminateField_map {bField bField' : CompiledField}
    (henum : module.config.findEnum field.typeOf.name = some enum)
    (haliased : (enum.variants.items.any fun variant => variant.aliases.isSome) = true)
    (hunion : module.config.findUnion field.typeOf.name = none)
    (hinterface : module.interfacesTypesMap.get? field.typeOf.name = none)
    (h : discriminateField passes module field bField = .ok bField') :
    bField'.resolver = bField.resolver.map fun expr => .map expr (aliasMap enum).entries := by
  obtain ⟨second, hsecond, h⟩ := (Valid.tryFoldAnd_eq_ok _ _ _ _).mp h
  obtain ⟨first, hfirst, hsecond⟩ := (Valid.tryFoldAnd_eq_ok _ _ _ _).mp hsecond
  rw [updateInterfaceResolver, hinterface] at h
  obtain rfl := Except.ok.inj h
  rw [updateUnionResolver, hunion] at hsecond
  obtain rfl := Except.ok.inj hsecond
  rw [updateEnumAlias, henum] at hfirst
  simp only [haliased, if_true] at hfirst
  obtain rfl := Except.ok.inj hfirst
  rfl

theorem lawful_iff {Key σ : Type} [DecidableEq Key] {runtime : Runtime Key σ} {bField : FieldDefinition}
    {formats : Scalar.Formats} {plan : OperationPlan ConstValue} {vars : Variables} {store : Store}
    {node : Gqlforge.Field ConstValue} {given : Option ConstValue} {dataPath : List ℕ} {rootName : Option String}
    {path : List PathSegment} {type : WrappingType} {value : ConstValue}
    (hmap : ∀ ir, bField.resolver = some ir → ∃ core, ir = .map core (aliasMap enum).entries)
    (hnode : OfEnum B plan vars node type enum) (h : Arrives runtime bField node store given dataPath value) :
    Lawful enum type value (output (processNode formats plan vars store given dataPath rootName node) path) ↔
      Unharmed enum type bField.resolver.isSome value := by
  have hleafNull (result : Option Output) (h : result = leafOf plan node .null) (output : Output)
      (houtput : result = some output) : output = .null := by
    rw [h, leafOf] at houtput
    split at houtput
    · split at houtput
      · exact (Option.some.inj houtput).symm
      · cases houtput
    next hnull => exact absurd rfl hnull
  cases h with
  | given hnone hstore hgiven =>
    subst hgiven
    rw [hnone, processNode_given hnode hstore]
    by_cases hne : value = .null
    · rw [hne]
      exact lawful_null_iff (hleafNull _ rfl)
    · exact lawful_changes_iff hnode hne rfl (fun _ => rfl) (fun h => absurd (fun h => by cases h) h) fun h => by cases h
  | @resolved way core map ctx state _ hsome hcore hstored =>
    obtain ⟨_, heq⟩ := hmap _ hsome
    obtain ⟨rfl, rfl⟩ := IR.map.inj heq
    have hrun : (Evaluation.run runtime ⟨way, .map core (aliasMap enum).entries, ctx, state⟩).1 =
        mapEnum (aliasMap enum).entries value := by
      refine (congrArg Prod.fst (run_below runtime rfl)).trans ?_
      rw [hcore]
      rfl
    rw [hrun] at hstored
    rw [hsome, Option.isSome_some]
    cases hmapped : mapEnum (aliasMap enum).entries value with
    | error error =>
      rw [hmapped] at hstored
      obtain ⟨_, hstored⟩ := hstored
      refine lawful_unknown_iff (fun hknown => ?_) (processNode_failed hstored)
      obtain ⟨result, hresult⟩ := (mapEnum_known value).mpr hknown
      rw [hmapped] at hresult
      cases hresult
    | ok result =>
      rw [hmapped] at hstored
      obtain ⟨_, hstored, hindex⟩ := hstored
      have hchange : Changes enum true value result := hmapped
      rw [processNode_stored hnode hstored hindex, hchange.shape.2]
      by_cases hne : value = .null
      · subst hne
        obtain rfl := Except.ok.inj hmapped
        refine lawful_null_iff fun output houtput => ?_
        split at houtput
        · exact hleafNull _ rfl output houtput
        · split at houtput
          · exact (Option.some.inj houtput).symm
          · cases houtput
      · exact lawful_changes_iff hnode hne hchange (fun hshape => if_pos (hshape rfl))
          (fun hshape => if_neg fun h => hshape fun _ => h) fun _ => (mapEnum_known value).mp ⟨result, hmapped⟩

end Compiled

section Colors

open GuardedFields AddedFields AddedReads

def color : Enum :=
  ⟨⟨[⟨"RED", some ⟨{"r"}⟩⟩], by simp⟩, none⟩

def paintType : TypeDef (withResolvers secretPayloads bare) :=
  secretType ⟨[("color", plainField "Color" [] none)], by simp⟩ none

def paints : Module secretPayloads bare where
  config :=
    { server := ()
      upstream := ()
      schema := ⟨some "Query", none, none⟩
      types := ⟨[("Query", secretType ⟨[("paint", plainField "Paint" [.other ()] none)], by simp⟩ none),
        ("Paint", paintType)], by simp⟩
      unions := Dict.empty
      enums := ⟨[("Color", color)], by simp⟩
      links := []
      telemetry := () }
  inputTypes := ∅
  outputTypes := {"Query", "Paint", "Color"}
  interfacesTypesMap := Dict.empty

theorem paints_accepted : ∃ draft, tryFrom (compiler secretPasses secretCompiler) 1 paints = some (.ok draft) :=
  ⟨⟨⟨_, ⟨"", none, none⟩⟩, ()⟩, rfl⟩

def colorNode : Gqlforge.Field ConstValue :=
  ⟨0, "color", "color", none, .named "Color" false, none, none, none, [], [], none, ⟨1, 1⟩, [], true, none⟩

def colorPlan : OperationPlan ConstValue :=
  .new "Query" [colorNode] .query
    ⟨[("Color", .enum "Color" (color.variants.items.map fun variant => ⟨variant.name, options variant⟩), [])],
      ⟨"Query", none, none⟩⟩ false none

end Colors

end Gqlforge.EnumLeaves
