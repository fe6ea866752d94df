import Gqlforge.SampleFits
import Mathlib.Data.Nat.Digits.Defs

namespace Gqlforge.JsonSamples

open Json Schema Config JsonSchemas

variable {P : Payloads}

theorem toList_nameOf (namePrefix : String) (id : ℕ) :
    (nameOf namePrefix id).toList = namePrefix.toList ++ Nat.toDigits 10 id := by
  have hdigits : toString id = String.ofList (Nat.toDigits 10 id) := Nat.repr_eq_ofList_toDigits
  rw [nameOf, String.toList_append, hdigits, String.toList_ofList]

theorem nameOf_injective (namePrefix : String) {id other : ℕ} (h : nameOf namePrefix id = nameOf namePrefix other) :
    id = other := by
  have hlist := congrArg String.toList h
  rw [toList_nameOf, toList_nameOf] at hlist
  have hdigits := List.append_cancel_left hlist
  simpa using congrArg (fun digits => Nat.ofDigitChars 10 digits 0) hdigits

theorem nameOf_ne (namePrefix : String) (id : ℕ) {name : String}
    (h : name.toList.getLast?.any Char.isDigit = false) : nameOf namePrefix id ≠ name := by
  rintro rfl
  have hne : Nat.toDigits 10 id ≠ [] := Nat.toDigits_ne_nil
  have hdigit := Nat.isDigit_of_mem_toDigits (by decide) (by decide) (List.getLast_mem hne)
  rw [toList_nameOf, List.getLast?_append, List.getLast?_eq_some_getLast hne, Option.some_or, Option.any_some,
    hdigit] at h
  cases h

section Equations

variable (types : Dict (TypeDef P))

theorem conformsAll_iff (items : List Output) (typeOf : WrappingType) :
    conformsAll types items typeOf = true ↔ ∀ item ∈ items, conforms types item typeOf = true := by
  induction items with
  | nil => simp [conformsAll]
  | cons item rest ih => simp [conformsAll, ih]

theorem conformsFields_iff (members : Object Output) (type : TypeDef P) :
    conformsFields types members type = true ↔ ∀ entry ∈ members, ∃ field,
      type.fields.get? entry.1 = some field ∧ conforms types entry.2 field.typeOf = true := by
  induction members with
  | nil => simp [conformsFields]
  | cons entry rest ih =>
    obtain ⟨key, value⟩ := entry
    rw [conformsFields, Bool.and_eq_true, ih, List.forall_mem_cons]
    cases type.fields.get? key <;> simp

theorem fits_null (sample : Output) : Fits sample .null := by
  rw [Fits.eq_def]
  exact .inl rfl

theorem fitsField_array (items : List Output) (value : Output) :
    FitsField (.array items) value ↔
      value = .null ∨ ∃ others, value = .array others ∧ ∀ other ∈ others, Fits (.array items) other := by
  rw [FitsField]

theorem fitsField_of_not_array {sample : Output} (h : ∀ items, sample ≠ .array items) (value : Output) :
    FitsField sample value ↔ Fits sample value := by
  have hnull : value = .null → Fits sample value := fun heq => heq ▸ fits_null sample
  cases sample with
  | array items => exact absurd rfl (h items)
  | _ =>
    rw [FitsField.eq_def]
    exact or_iff_right_of_imp hnull

theorem fits_object {fields : Object Output} (h : isGraphqlCompatible (.object fields) = true) (value : Output) :
    Fits (.object fields) value ↔ value = .null ∨ ∃ members, value = .object members ∧
      ∀ entry ∈ members, ∃ sample, valueAt fields entry.1 = some sample ∧ FitsField sample entry.2 := by
  rw [Fits]
  simp only [h, Bool.true_eq_false, false_or, exists_prop]

theorem fits_incompatible {fields : Object Output} (h : isGraphqlCompatible (.object fields) = false)
    (value : Output) : Fits (.object fields) value := by
  rw [Fits]
  exact .inr (.inl h)

variable {items : List Output} {item : Output}

theorem fits_deciding (h : (items.find? fun item => !isKnownObject item) = some item) (value : Output) :
    Fits (.array items) value ↔ Fits item value := by
  rw [Fits]
  split
  next other hother =>
    rw [h] at hother
    cases hother
    exact or_iff_right_of_imp fun heq => heq ▸ fits_null _
  next hnone =>
    rw [h] at hnone
    cases hnone

theorem fits_objects (hne : items ≠ []) (h : ∀ item ∈ items, isKnownObject item = true) (value : Output) :
    Fits (.array items) value ↔ value = .null ∨ ∃ members, value = .object members ∧
      ∀ entry ∈ members, ∃ sample, seenAt items entry.1 = some sample ∧ FitsField sample entry.2 := by
  have hnone : (items.find? fun item => !isKnownObject item) = none :=
    List.find?_eq_none.mpr fun item hitem => by simp [h item hitem]
  rw [Fits]
  split
  next other hother =>
    rw [hnone] at hother
    cases hother
  next => simp only [hne, false_or, exists_prop]

theorem fits_empty (value : Output) : Fits (.array []) value := by
  rw [Fits]
  exact .inr (.inl rfl)

theorem isUnknownItems_append {before : List Output} (h : ∀ item ∈ before, isKnownObject item = true)
    (items : List Output) : isUnknownItems (before ++ items) = isUnknownItems items := by
  induction before with
  | nil => rfl
  | cons item rest ih =>
    have hitem := h item List.mem_cons_self
    cases item with
    | object fields =>
      rw [isKnownObject] at hitem
      rw [List.cons_append, isUnknownItems, if_pos hitem]
      exact ih fun other hother => h other (List.mem_cons_of_mem _ hother)
    | _ => cases hitem

theorem isUnknown_array (h : items ≠ []) : isUnknown (.array items) = isUnknownItems items := by
  cases items with
  | nil => exact absurd rfl h
  | cons item rest => rw [isUnknown]

theorem isUnknownItems_deciding (h : isKnownObject item = false) (rest : List Output) :
    isUnknownItems (item :: rest) = isUnknown item := by
  cases item with
  | object fields =>
    have hincompatible : isGraphqlCompatible (.object fields) = false := h
    rw [isUnknownItems, isUnknown, hincompatible]
    rfl
  | _ => rfl

theorem find?_deciding {before : List Output} (h : ∀ item ∈ before, isKnownObject item = true)
    (hitem : isKnownObject item = false) (rest : List Output) :
    ((before ++ item :: rest).find? fun item => !isKnownObject item) = some item := by
  have hnone : (before.find? fun item => !isKnownObject item) = none :=
    List.find?_eq_none.mpr fun other hother => by simp [h other hother]
  rw [List.find?_append, hnone, Option.none_or, List.find?_cons_of_pos]
  rw [hitem]
  rfl

end Equations

section Generations

variable (namePrefix : String)

def scalarNames : List String := ["JSON", "Int", "String", "Boolean"]

/-- The types made so far are there, and the scalars are not taken by types with fields. -/
structure Extends (generation : Generation P) (types : Dict (TypeDef P)) : Prop where
  kept : ∀ id < generation.counter,
    types.get? (nameOf namePrefix id) = generation.types.get? (nameOf namePrefix id)
  scalars : ∀ name ∈ scalarNames, objectType types name = none

structure Later (generation later : Generation P) : Prop where
  counter : generation.counter ≤ later.counter
  extends' : Extends namePrefix generation later.types

variable {namePrefix}

variable {generation later : Generation P}

theorem Extends.mono {types : Dict (TypeDef P)} (hlater : Later namePrefix generation later)
    (h : Extends namePrefix later types) : Extends namePrefix generation types := by
  refine ⟨fun id hid => ?_, h.scalars⟩
  rw [h.kept id (hid.trans_le hlater.counter), hlater.extends'.kept id hid]

theorem Later.refl (h : ∀ name ∈ scalarNames, objectType generation.types name = none) :
    Later namePrefix generation generation := ⟨le_rfl, fun _ _ => rfl, h⟩

theorem Later.trans {first second third : Generation P} (h : Later namePrefix first second)
    (h' : Later namePrefix second third) : Later namePrefix first third :=
  ⟨h.counter.trans h'.counter, h'.extends'.mono h⟩

variable {name : String}

theorem nameOf_ne_scalar (id : ℕ) (h : name ∈ scalarNames) : nameOf namePrefix id ≠ name := by
  apply nameOf_ne
  rw [scalarNames] at h
  simp only [List.mem_cons, List.not_mem_nil, or_false] at h
  obtain rfl | rfl | rfl | rfl := h <;> rfl

theorem Later.add (type : TypeDef P) (h : ∀ name ∈ scalarNames, objectType generation.types name = none) :
    Later namePrefix generation (generation.add namePrefix type).2 := by
  refine ⟨Nat.le_succ _, fun id hid => ?_, fun name hname => ?_⟩
  · rw [Generation.add, Dict.get?_insert, if_neg fun heq => hid.ne (nameOf_injective namePrefix heq)]
  · rw [objectType, Generation.add, Dict.get?_insert, if_neg (nameOf_ne_scalar _ hname).symm]
    exact h name hname

variable (namePrefix) in
structure Stands (generation : Generation P) (name : String) (sample : Output) : Prop where
  unknown : name = "JSON" ↔ isUnknown sample = true
  mergeable : name ≠ "" ∧ name ≠ "Empty"
  conforms : ∀ types, Extends namePrefix generation types → ∀ value,
    conforms types value (.named name false) = true ↔ Fits sample value

variable {sample : Output}

theorem Stands.mono (hlater : Later namePrefix generation later) (h : Stands namePrefix generation name sample) :
    Stands namePrefix later name sample :=
  ⟨h.unknown, h.mergeable, fun types htypes => h.conforms types (htypes.mono hlater)⟩

variable (namePrefix) in
def StandsField (generation : Generation P) (field : Config.Field P) (sample : Output) : Prop :=
  ∃ name, field.typeOf = listOf sample (.named name false) ∧ Stands namePrefix generation name sample

theorem name_listOf (sample : Output) (name : String) : (listOf sample (.named name false)).name = name := by
  cases sample <;> rfl

theorem StandsField.conforms {generation : Generation P} {field : Config.Field P} {sample : Output}
    (h : StandsField namePrefix generation field sample) {types : Dict (TypeDef P)}
    (htypes : Extends namePrefix generation types) (value : Output) :
    conforms types value field.typeOf = true ↔ FitsField sample value := by
  obtain ⟨name, htypeOf, hname⟩ := h
  rw [htypeOf]
  cases sample with
  | array items =>
    rw [fitsField_array, listOf]
    cases value with
    | null => simp [JsonSamples.conforms, WrappingType.isNullable]
    | array others =>
      rw [JsonSamples.conforms, conformsAll_iff]
      simp only [hname.conforms types htypes]
      simp
    | _ => simp [JsonSamples.conforms]
  | _ => exact (hname.conforms types htypes value).trans (fitsField_of_not_array (by simp) value).symm

variable (namePrefix) in
def Described (generation : Generation P) (fields : Dict (Config.Field P)) (seen : String → Option Output) : Prop :=
  ∀ key, (seen key = none ∧ fields.get? key = none) ∨
    ∃ sample field, seen key = some sample ∧ fields.get? key = some field ∧
      StandsField namePrefix generation field sample

variable {fields : Dict (Config.Field P)} {seen : String → Option Output}

theorem Described.mono (hlater : Later namePrefix generation later) (h : Described namePrefix generation fields seen) :
    Described namePrefix later fields seen := by
  intro key
  rcases h key with hnone | ⟨sample, field, hseen, hfield, name, htypeOf, hname⟩
  · exact .inl hnone
  · exact .inr ⟨sample, field, hseen, hfield, name, htypeOf, hname.mono hlater⟩

theorem Described.insert {generation : Generation P} {fields : Dict (Config.Field P)} {seen : Dict Output} {key : String}
    {field : Config.Field P} {sample : Output} (h : Described namePrefix generation fields seen.get?)
    (hfield : StandsField namePrefix generation field sample) :
    Described namePrefix generation (fields.insert key field) (seen.insert key sample).get? := by
  intro other
  rw [Dict.get?_insert, Dict.get?_insert]
  split
  · exact .inr ⟨sample, field, rfl, rfl, hfield⟩
  · exact h other

theorem Described.nullable (h : Described namePrefix generation fields seen) {entry : String × Config.Field P}
    (hentry : entry ∈ fields.entries) : entry.2.typeOf.isNullable = true := by
  have hget := (fields.get?_eq_some_iff entry.1 entry.2).mpr hentry
  rcases h entry.1 with ⟨-, hnone⟩ | ⟨sample, field, -, hfield, name, htypeOf, -⟩
  · rw [hget] at hnone
    cases hnone
  · rw [hget] at hfield
    cases hfield
    rw [htypeOf]
    cases sample <;> rfl

variable {type : TypeDef P}

theorem Described.conforms_iff (h : Described namePrefix generation type.fields seen) {types : Dict (TypeDef P)}
    (htypes : Extends namePrefix generation types) (htype : objectType types name = some type) (value : Output) :
    conforms types value (.named name false) = true ↔ value = .null ∨ ∃ members, value = .object members ∧
      ∀ entry ∈ members, ∃ sample, seen entry.1 = some sample ∧ FitsField sample entry.2 := by
  cases value with
  | null => simp [JsonSamples.conforms, WrappingType.isNullable]
  | object members =>
    have hmissing : missingNullable type members = true :=
      List.all_eq_true.mpr fun field hfield => by rw [h.nullable hfield, Bool.true_or]
    rw [JsonSamples.conforms, htype]
    simp only [hmissing, Bool.and_true, conformsFields_iff, Output.object.injEq, exists_eq_left', reduceCtorEq,
      false_or]
    refine forall₂_congr fun entry _ => ?_
    rcases h entry.1 with ⟨hseen, hfield⟩ | ⟨sample, field, hseen, hfield, hstands⟩
    · simp [hseen, hfield]
    · simp [hseen, hfield, hstands.conforms htypes]
  | _ => simp [JsonSamples.conforms, isScalarValue, htype]

theorem get?_mergeField (fields : Dict (Config.Field P)) (entry : String × Config.Field P) (key : String) :
    (mergeField fields entry).get? key =
      if key = entry.1 then
        match fields.get? key with
        | some field =>
          if field.typeOf.name = "" ∨ field.typeOf.name = "Empty" ∨
              (field.typeOf.name = "JSON" ∧ entry.2.typeOf.name ≠ "Empty") then some entry.2 else some field
        | none => some entry.2
      else fields.get? key := by
  rw [mergeField]
  by_cases hkey : key = entry.1
  · subst hkey
    cases hfield : fields.get? entry.1 with
    | none => simp [Dict.get?_insert]
    | some field =>
      dsimp only
      split <;> simp [Dict.get?_insert, hfield]
  · rw [if_neg hkey]
    split
    · split
      · rw [Dict.get?_insert, if_neg hkey]
      · rfl
    · rw [Dict.get?_insert, if_neg hkey]

theorem get?_foldl_mergeField (entries : Object (Config.Field P)) (hn : (entries.map Prod.fst).Nodup)
    (fields : Dict (Config.Field P)) (key : String) :
    (entries.foldl mergeField fields).get? key =
      match entries.lookup key with
      | some field => (mergeField fields (key, field)).get? key
      | none => fields.get? key := by
  induction entries generalizing fields with
  | nil => rfl
  | cons entry rest ih =>
    obtain ⟨name, field⟩ := entry
    obtain ⟨hfresh, hrest⟩ := List.nodup_cons.mp hn
    rw [List.foldl_cons, ih hrest, List.lookup_cons]
    by_cases hkey : key = name
    · subst hkey
      simp [(Dict.lookup_eq_none_iff rest key).mpr hfresh]
    · have hb : (key == name) = false := by simpa using hkey
      rw [hb]
      cases rest.lookup key <;> simp [get?_mergeField, hkey]

theorem get?_mergeEntries (fields other : Dict (Config.Field P)) (key : String) :
    (other.entries.foldl mergeField fields).get? key =
      match other.get? key with
      | some field => (mergeField fields (key, field)).get? key
      | none => fields.get? key :=
  get?_foldl_mergeField other.entries other.nodup fields key

theorem Stands.replaced_iff {newName : String} {newSample : Output}
    (h : Stands namePrefix generation name sample) (hnew : Stands namePrefix generation newName newSample) :
    (name = "" ∨ name = "Empty" ∨ (name = "JSON" ∧ newName ≠ "Empty")) ↔ isUnknown sample = true := by
  simp [h.mergeable.1, h.mergeable.2, hnew.mergeable.2, h.unknown]

theorem described_mergeField (h : Described namePrefix generation fields seen) {new : String → Option Output}
    (hnew : Described namePrefix generation type.fields new) :
    Described namePrefix generation (type.fields.entries.foldl mergeField fields)
      fun key => replaceUnknown (seen key) (new key) := by
  intro key
  rw [get?_mergeEntries]
  dsimp only
  rcases h key with ⟨hseen, hfield⟩ | ⟨sample, field, hseen, hfield, name, htypeOf, hname⟩ <;>
    rcases hnew key with ⟨hseen', hfield'⟩ | ⟨sample', field', hseen', hfield', name', htypeOf', hname'⟩
  · exact .inl ⟨by rw [hseen, hseen']; rfl, by rw [hfield']; exact hfield⟩
  · refine .inr ⟨sample', field', by rw [hseen, hseen']; rfl, ?_, name', htypeOf', hname'⟩
    rw [hfield']
    simp [get?_mergeField, hfield]
  · exact .inr ⟨sample, field, by rw [hseen, hseen']; rfl, by rw [hfield']; exact hfield, name, htypeOf, hname⟩
  · have hiff : (field.typeOf.name = "" ∨ field.typeOf.name = "Empty" ∨
        (field.typeOf.name = "JSON" ∧ field'.typeOf.name ≠ "Empty")) ↔ isUnknown sample = true := by
      rw [htypeOf, htypeOf', name_listOf, name_listOf]
      exact hname.replaced_iff hname'
    right
    by_cases hunknown : isUnknown sample = true
    · refine ⟨sample', field', by simp [hseen, hseen', replaceUnknown, hunknown], ?_, name', htypeOf', hname'⟩
      rw [hfield']
      simp only [get?_mergeField, hfield, if_true, if_pos (hiff.mpr hunknown)]
    · refine ⟨sample, field, by simp [hseen, hseen', replaceUnknown, hunknown], ?_, name, htypeOf, hname⟩
      rw [hfield']
      simp only [get?_mergeField, hfield, if_true, if_neg (mt hiff.mp hunknown)]

theorem described_mergeFields {items : List Output} {objectTypes : List (TypeDef P)}
    (h : List.Forall₂ (fun item type => Described namePrefix generation type.fields fun key => memberAt key item)
      items objectTypes) :
    Described namePrefix generation (mergeFields objectTypes).fields (seenAt items) := by
  have hfold : ∀ (fields : Dict (Config.Field P)) (seen : String → Option Output),
      Described namePrefix generation fields seen →
      Described namePrefix generation
        (objectTypes.foldl (fun fields type => type.fields.entries.foldl mergeField fields) fields)
        fun key => items.foldl (fun seen item => replaceUnknown seen (memberAt key item)) (seen key) := by
    induction h with
    | nil => exact fun _ _ hfields => hfields
    | cons hitem _ ih => exact fun fields seen hfields => ih _ _ (described_mergeField hfields hitem)
  exact hfold .empty (fun _ => none) fun _ => .inl ⟨rfl, rfl⟩

theorem stands_deciding {before rest : List Output} {item : Output}
    (hbefore : ∀ item ∈ before, isKnownObject item = true) (hitem : isKnownObject item = false)
    (h : Stands namePrefix generation name item) :
    Stands namePrefix generation name (.array (before ++ item :: rest)) := by
  refine ⟨?_, h.mergeable, fun types htypes value => ?_⟩
  · rw [isUnknown_array (by simp), isUnknownItems_append hbefore, isUnknownItems_deciding hitem]
    exact h.unknown
  · rw [fits_deciding (find?_deciding hbefore hitem rest)]
    exact h.conforms types htypes value

theorem stands_json (hunknown : isUnknown sample = true)
    (hfits : ∀ value, Fits sample value) : Stands namePrefix generation "JSON" sample := by
  refine ⟨by simp [hunknown], by decide, fun types htypes value => ?_⟩
  have hscalar := htypes.scalars "JSON" (by decide)
  simp only [hfits value, iff_true]
  cases value <;> simp [JsonSamples.conforms, isScalarValue, hscalar, acceptsScalar, fromScalarType,
    WrappingType.isNullable]

theorem stands_incompatible {fields : Object Output}
    (h : isGraphqlCompatible (.object fields) = false) : Stands namePrefix generation "JSON" (.object fields) :=
  stands_json (by rw [isUnknown, h]; rfl) (fits_incompatible h)

variable {value : Output}

theorem stands_primitive (generation : Generation P) (h : isPrimitive value = true) :
    Stands namePrefix generation (toGqlType value) value := by
  cases value with
  | null => exact stands_json rfl fun value => by rw [Fits]; exact .inr trivial
  | array items => cases h
  | object fields => cases h
  | bool b =>
    refine ⟨by simp [toGqlType, isUnknown], by simp [toGqlType], fun types htypes other => ?_⟩
    have hscalar := htypes.scalars "Boolean" (by decide)
    rw [Fits]
    cases other <;> simp [JsonSamples.conforms, toGqlType, isScalarValue, hscalar, acceptsScalar, fromScalarType,
      WrappingType.isNullable]
  | number n =>
    refine ⟨by simp [toGqlType, isUnknown], by simp [toGqlType], fun types htypes other => ?_⟩
    have hscalar := htypes.scalars "Int" (by decide)
    rw [Fits]
    cases other <;> simp [JsonSamples.conforms, toGqlType, isScalarValue, hscalar, acceptsScalar, fromScalarType,
      WrappingType.isNullable]
  | str text =>
    refine ⟨by simp [toGqlType, isUnknown], by simp [toGqlType], fun types htypes other => ?_⟩
    have hscalar := htypes.scalars "String" (by decide)
    rw [Fits]
    cases other <;> simp [JsonSamples.conforms, toGqlType, isScalarValue, hscalar, acceptsScalar, fromScalarType,
      WrappingType.isNullable]

theorem stands_add (hdescribed : Described namePrefix generation type.fields seen) (hne : type.scalar = false)
    (hscalars : ∀ name ∈ scalarNames, objectType generation.types name = none) (hunknown : isUnknown sample = false)
    (hfits : ∀ value, Fits sample value ↔ value = .null ∨ ∃ members, value = .object members ∧
      ∀ entry ∈ members, ∃ sample, seen entry.1 = some sample ∧ FitsField sample entry.2) :
    Stands namePrefix (generation.add namePrefix type).2 (generation.add namePrefix type).1 sample := by
  have hlater : Later namePrefix generation (generation.add namePrefix type).2 := .add type hscalars
  refine ⟨?_, ⟨?_, ?_⟩, fun types htypes value => ?_⟩
  · simp only [hunknown, Bool.false_eq_true, iff_false]
    exact nameOf_ne_scalar _ List.mem_cons_self
  · exact nameOf_ne _ _ rfl
  · exact nameOf_ne _ _ rfl
  · have hget := htypes.kept generation.counter (Nat.lt_succ_self _)
    have htype : objectType types (generation.add namePrefix type).1 = some type := by
      change (types.get? (nameOf namePrefix generation.counter)).filter _ = _
      rw [hget, Generation.add, Dict.get?_insert, if_pos rfl, Option.filter_some, hne]
      rfl
    rw [hfits, (hdescribed.mono hlater).conforms_iff htypes htype]

theorem scalar_typeWith {key : String} {field : Config.Field P}
    (h : fields.get? key = some field) : (typeWith fields).scalar = false := by
  have hmem := (fields.get?_eq_some_iff key field).mp h
  cases hentries : fields.entries with
  | nil => rw [hentries] at hmem; cases hmem
  | cons entry rest => simp [TypeDef.scalar, typeWith, hentries]

theorem Described.scalar (h : Described namePrefix generation fields seen) {key : String}
    (hkey : (seen key).isSome = true) : (typeWith fields).scalar = false := by
  rcases h key with ⟨hnone, -⟩ | ⟨sample, field, -, hfield, -⟩
  · rw [hnone] at hkey
    cases hkey
  · exact scalar_typeWith hfield

theorem contains_extend (dict : Dict Output) (entries : Object Output) {entry : String × Output}
    (h : entry ∈ entries ∨ (dict.get? entry.1).isSome = true) : ((dict.extend entries).get? entry.1).isSome = true := by
  induction entries generalizing dict with
  | nil => exact h.resolve_left List.not_mem_nil
  | cons first rest ih =>
    refine ih (dict.insert first.1 first.2) ?_
    rw [Dict.get?_insert]
    rcases h with h | h
    · rcases List.mem_cons.mp h with rfl | h
      · exact .inr (by rw [if_pos rfl]; rfl)
      · exact .inl h
    · right
      split
      · rfl
      · exact h

theorem scalar_of_compatible {fields : Object Output} {created : Dict (Config.Field P)}
    (hcompatible : isGraphqlCompatible (.object fields) = true)
    (h : Described namePrefix generation created (valueAt fields)) : (typeWith created).scalar = false := by
  cases fields with
  | nil => cases hcompatible
  | cons entry rest => exact h.scalar (contains_extend .empty (entry :: rest) (.inl List.mem_cons_self))

theorem scalar_mergeFields {items : List Output} {objectTypes : List (TypeDef P)}
    (hne : items ≠ []) (hknown : ∀ item ∈ items, isKnownObject item = true)
    (h : Described namePrefix generation (mergeFields objectTypes).fields (seenAt items)) :
    (mergeFields objectTypes).scalar = false := by
  have hseen : ∀ (items : List Output) (key : String) (seen : Option Output),
      seen.isSome = true ∨ (∃ item ∈ items, (memberAt key item).isSome = true) →
      (items.foldl (fun seen item => replaceUnknown seen (memberAt key item)) seen).isSome = true := by
    intro items key
    induction items with
    | nil => exact fun seen h => h.resolve_right fun ⟨item, hitem, _⟩ => absurd hitem List.not_mem_nil
    | cons item rest ih =>
      intro seen h
      refine ih _ ?_
      by_cases hitem : (memberAt key item).isSome = true
      · left
        obtain ⟨new, hnew⟩ := Option.isSome_iff_exists.mp hitem
        dsimp only
        cases seen with
        | none => rw [hnew]; rfl
        | some old => rw [hnew, replaceUnknown]; split <;> rfl
      · rcases h with h | ⟨other, hother, h⟩
        · left
          obtain ⟨old, rfl⟩ := Option.isSome_iff_exists.mp h
          dsimp only
          rw [Option.not_isSome_iff_eq_none.mp hitem]
          rfl
        · rcases List.mem_cons.mp hother with rfl | hother
          · exact absurd h hitem
          · exact .inr ⟨other, hother, h⟩
  cases items with
  | nil => exact absurd rfl hne
  | cons item rest =>
    have hitem := hknown item List.mem_cons_self
    cases item with
    | object fields =>
      cases fields with
      | nil => cases hitem
      | cons entry others =>
        have hmember : (memberAt entry.1 (.object (entry :: others))).isSome = true :=
          contains_extend .empty (entry :: others) (.inl List.mem_cons_self)
        exact h.scalar (hseen _ entry.1 none (.inr ⟨_, List.mem_cons_self, hmember⟩))
    | _ => cases hitem

theorem generateTypes_primitive (h : isPrimitive value = true) (generation : Generation P) :
    generateTypes namePrefix value generation = (toGqlType value, generation) := by
  cases value with
  | array items => cases h
  | object fields => cases h
  | _ => rfl

theorem generateTypes_stands_primitive (hprimitive : isPrimitive value = true)
    (generation : Generation P) (h : ∀ name ∈ scalarNames, objectType generation.types name = none) :
    Later namePrefix generation (generateTypes namePrefix value generation).2 ∧
      Stands namePrefix (generateTypes namePrefix value generation).2
        (generateTypes namePrefix value generation).1 value := by
  rw [generateTypes_primitive hprimitive]
  exact ⟨.refl h, stands_primitive generation hprimitive⟩

theorem stands_of_incompatible (h : isGraphqlCompatible value = false) : Stands namePrefix generation "JSON" value := by
  cases value with
  | object fields => exact stands_incompatible h
  | array items =>
    cases items with
    | nil => exact stands_json rfl fits_empty
    | cons item rest => cases h
  | _ => cases h

mutual

theorem generateTypes_stands (value : Output) (generation : Generation P)
    (h : ∀ name ∈ scalarNames, objectType generation.types name = none) :
    Later namePrefix generation (generateTypes namePrefix value generation).2 ∧
      Stands namePrefix (generateTypes namePrefix value generation).2
        (generateTypes namePrefix value generation).1 value := by
  cases value with
  | array items =>
    rw [generateTypes]
    exact generateItems_stands [] items [] generation h .nil fun item hitem => absurd hitem List.not_mem_nil
  | object fields =>
    rw [generateTypes]
    split
    next hcompatible =>
      obtain ⟨hlater, hfields⟩ := createFields_described fields .empty .empty generation h fun _ => .inl ⟨rfl, rfl⟩
      have hscalars := hlater.extends'.scalars
      refine ⟨hlater.trans (.add _ hscalars), stands_add hfields ?_ hscalars ?_ (fits_object hcompatible)⟩
      · exact scalar_of_compatible hcompatible hfields
      · rw [isUnknown, hcompatible]
        rfl
    next hincompatible =>
      exact ⟨.refl h, stands_incompatible (by simpa using hincompatible)⟩
  | _ => exact generateTypes_stands_primitive rfl generation h

theorem generateItems_stands (before items : List Output) (objectTypes : List (TypeDef P))
    (generation : Generation P) (h : ∀ name ∈ scalarNames, objectType generation.types name = none)
    (hbefore : List.Forall₂ (fun item type => Described namePrefix generation type.fields fun key => memberAt key item)
      before objectTypes) (hknown : ∀ item ∈ before, isKnownObject item = true) :
    Later namePrefix generation (generateItems namePrefix items objectTypes generation).2 ∧
      Stands namePrefix (generateItems namePrefix items objectTypes generation).2
        (generateItems namePrefix items objectTypes generation).1 (.array (before ++ items)) := by
  cases items with
  | nil =>
    rw [generateItems, List.append_nil]
    split
    next hempty =>
      have hnil : before = [] := by
        have hlength := hbefore.length_eq
        rw [List.isEmpty_iff.mp hempty] at hlength
        exact List.eq_nil_of_length_eq_zero hlength
      subst hnil
      exact ⟨.refl h, stands_json rfl fits_empty⟩
    next hne =>
      have hbeforeNe : before ≠ [] := by
        rintro rfl
        cases hbefore
        exact hne rfl
      have hmerged := described_mergeFields hbefore
      refine ⟨.add _ h, stands_add hmerged (scalar_mergeFields hbeforeNe hknown hmerged) h ?_
        (fits_objects hbeforeNe hknown)⟩
      rw [isUnknown_array hbeforeNe, ← List.append_nil before, isUnknownItems_append hknown]
      rfl
  | cons item rest =>
    cases item with
    | object fields =>
      rw [generateItems]
      split
      next hcompatible =>
        obtain ⟨hlater, hfields⟩ := createFields_described fields .empty .empty generation h fun _ => .inl ⟨rfl, rfl⟩
        have hnext : List.Forall₂
            (fun item type => Described namePrefix (createFields namePrefix fields .empty generation).2 type.fields
              fun key => memberAt key item) (before ++ [.object fields])
            (objectTypes ++ [typeWith (createFields namePrefix fields .empty generation).1]) :=
          List.rel_append (hbefore.imp fun _ _ h => h.mono hlater) (.cons hfields .nil)
        have hobject : ∀ item ∈ before ++ [.object fields], isKnownObject item = true := by
          intro item hitem
          rcases List.mem_append.mp hitem with hitem | hitem
          · exact hknown item hitem
          · rw [List.mem_singleton.mp hitem]
            exact hcompatible
        obtain ⟨hlater', hstands⟩ := generateItems_stands (before ++ [.object fields]) rest _ _
          hlater.extends'.scalars hnext hobject
        rw [List.append_assoc] at hstands
        exact ⟨hlater.trans hlater', hstands⟩
      next hincompatible =>
        have hincompatible := by simpa using hincompatible
        exact ⟨.refl h, stands_deciding hknown hincompatible (stands_incompatible hincompatible)⟩
    | _ =>
      obtain ⟨hlater, hstands⟩ := generateTypes_stands _ generation h
      exact ⟨hlater, stands_deciding hknown rfl hstands⟩

theorem createFields_described (entries : Object Output) (created : Dict (Config.Field P)) (seen : Dict Output)
    (generation : Generation P) (h : ∀ name ∈ scalarNames, objectType generation.types name = none)
    (hcreated : Described namePrefix generation created seen.get?) :
    Later namePrefix generation (createFields namePrefix entries created generation).2 ∧
      Described namePrefix (createFields namePrefix entries created generation).2
        (createFields namePrefix entries created generation).1 (seen.extend entries).get? := by
  cases entries with
  | nil => exact ⟨.refl h, hcreated⟩
  | cons entry rest =>
    obtain ⟨property, value⟩ := entry
    let named := if isGraphqlCompatible value then
      if isPrimitive value then (toGqlType value, generation) else generateTypes namePrefix value generation
      else ("JSON", generation)
    have hnamed : Later namePrefix generation named.2 ∧ Stands namePrefix named.2 named.1 value := by
      simp only [named]
      split
      · split
        next hprimitive => exact ⟨.refl h, stands_primitive generation hprimitive⟩
        · exact generateTypes_stands value generation h
      next hincompatible => exact ⟨.refl h, stands_of_incompatible (by simpa using hincompatible)⟩
    obtain ⟨hlater, hstands⟩ := hnamed
    have hfield : StandsField namePrefix named.2 (fieldOf (listOf value (.named named.1 false)) : Config.Field P) value :=
      ⟨named.1, rfl, hstands⟩
    obtain ⟨hlater', hdescribed⟩ := createFields_described rest
      (created.insert property (fieldOf (listOf value (.named named.1 false)))) (seen.insert property value) named.2
      hlater.extends'.scalars ((hcreated.mono hlater).insert hfield)
    exact ⟨hlater.trans hlater', hdescribed⟩

end

end Generations

end Gqlforge.JsonSamples
