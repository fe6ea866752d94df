import Gqlforge.JsonSamples

namespace Gqlforge.JsonSamples

open Json Schema Config JsonSchemas

variable {P : Payloads}

def acceptsScalar (schema : JsonSchema) (value : Output) : Bool :=
  match schema, value with
  | .str, .str _ => true
  | .num, .number _ => true
  | .bool, .bool _ => true
  | .empty, .null => true
  | .empty, .object fields => fields.isEmpty
  | .any, _ => true
  | _, _ => false

def objectType (types : Dict (TypeDef P)) (name : String) : Option (TypeDef P) :=
  (types.get? name).filter fun type => !type.scalar

def isScalarValue (types : Dict (TypeDef P)) (value : Output) (name : String) : Bool :=
  (objectType types name).isNone && acceptsScalar (fromScalarType name) value

def missingNullable (type : TypeDef P) (members : Object Output) : Bool :=
  type.fields.entries.all fun field =>
    field.2.typeOf.isNullable || members.any fun entry => entry.1 == field.1

mutual

def conforms (types : Dict (TypeDef P)) : Output → WrappingType → Bool
  | .null, typeOf => typeOf.isNullable
  | .array items, .list ofType _ => conformsAll types items ofType
  | .array items, .named name _ => isScalarValue types (.array items) name
  | .object members, .named name _ =>
    match objectType types name with
    | some type => conformsFields types members type && missingNullable type members
    | none => acceptsScalar (fromScalarType name) (.object members)
  | _, .list _ _ => false
  | value, .named name _ => isScalarValue types value name

def conformsAll (types : Dict (TypeDef P)) : List Output → WrappingType → Bool
  | [], _ => true
  | item :: rest, typeOf => conforms types item typeOf && conformsAll types rest typeOf

def conformsFields (types : Dict (TypeDef P)) : Object Output → TypeDef P → Bool
  | [], _ => true
  | (key, value) :: rest, type =>
    (match type.fields.get? key with
      | some field => conforms types value field.typeOf
      | none => false) && conformsFields types rest type

end

section Fitting

def valueAt (fields : Object Output) (key : String) : Option Output :=
  (Dict.ofEntries fields).get? key

mutual

def isUnknown : Output → Bool
  | .null => true
  | .object fields => !isGraphqlCompatible (.object fields)
  | .array [] => true
  | .array (item :: rest) => isUnknownItems (item :: rest)
  | _ => false

def isUnknownItems : List Output → Bool
  | [] => false
  | .object fields :: rest => if isGraphqlCompatible (.object fields) then isUnknownItems rest else true
  | item :: _ => isUnknown item

end

def isKnownObject : Output → Bool
  | .object fields => isGraphqlCompatible (.object fields)
  | _ => false

def replaceUnknown : Option Output → Option Output → Option Output
  | some old, some new => if isUnknown old then some new else some old
  | none, new => new
  | old, none => old

def memberAt (key : String) : Output → Option Output
  | .object fields => valueAt fields key
  | _ => none

def seenAt (items : List Output) (key : String) : Option Output :=
  items.foldl (fun seen item => replaceUnknown seen (memberAt key item)) none

variable {key : String} {value : Output}

theorem valueAt_mem {fields : Object Output} (h : valueAt fields key = some value) : (key, value) ∈ fields :=
  Dict.mem_ofEntries fields _ (((Dict.ofEntries fields).get?_eq_some_iff key value).mp h)

theorem sizeOf_valueAt {fields : Object Output}
    (h : valueAt fields key = some value) : sizeOf value < sizeOf (Output.object fields) := by
  have hentry := List.sizeOf_lt_of_mem (valueAt_mem h)
  rw [Prod.mk.sizeOf_spec] at hentry
  rw [Output.object.sizeOf_spec]
  omega

theorem sizeOf_memberAt {item : Output} (h : memberAt key item = some value) : sizeOf value < sizeOf item := by
  cases item with
  | object fields => exact sizeOf_valueAt h
  | _ => cases h

theorem replaceUnknown_eq {old new : Option Output} (h : replaceUnknown old new = some value) :
    old = some value ∨ new = some value := by
  cases old <;> cases new <;> simp only [replaceUnknown] at h
  · exact .inl h
  · exact .inr h
  · exact .inl h
  · split at h
    · exact .inr h
    · exact .inl h

theorem sizeOf_seenAt {items : List Output} (h : seenAt items key = some value) :
    sizeOf value < sizeOf (Output.array items) := by
  have hmem : ∀ (items : List Output) (seen : Option Output),
      items.foldl (fun seen item => replaceUnknown seen (memberAt key item)) seen = some value →
      seen = some value ∨ ∃ item ∈ items, memberAt key item = some value := by
    intro items
    induction items with
    | nil => exact fun seen h => .inl h
    | cons item rest ih =>
      intro seen h
      rcases ih _ h with h | ⟨other, hother, h⟩
      · rcases replaceUnknown_eq h with h | h
        · exact .inl h
        · exact .inr ⟨item, List.mem_cons_self, h⟩
      · exact .inr ⟨other, List.mem_cons_of_mem _ hother, h⟩
  rcases hmem items none h with h | ⟨item, hitem, h⟩
  · cases h
  · have hvalue := sizeOf_memberAt h
    have hlt := List.sizeOf_lt_of_mem hitem
    rw [Output.array.sizeOf_spec]
    omega

mutual

/-- The value can stand where the sample was seen, or, if the sample is a list, for one of its items. -/
def Fits (sample value : Output) : Prop :=
  value = .null ∨
    match sample with
    | .null => True
    | .bool _ => ∃ b, value = .bool b
    | .number _ => ∃ n, value = .number n
    | .str _ => ∃ text, value = .str text
    | .object fields =>
      isGraphqlCompatible (.object fields) = false ∨
        ∃ members, value = .object members ∧
          ∀ entry ∈ members, ∃ seen, ∃ _ : valueAt fields entry.1 = some seen, FitsField seen entry.2
    | .array items =>
      match _ : items.find? fun item => !isKnownObject item with
      | some item => Fits item value
      | none => items = [] ∨
        ∃ members, value = .object members ∧
          ∀ entry ∈ members, ∃ seen, ∃ _ : seenAt items entry.1 = some seen, FitsField seen entry.2
termination_by (sizeOf sample, 0)
decreasing_by
  · exact .left _ _ (sizeOf_valueAt ‹_›)
  · refine .left _ _ ?_
    have := List.sizeOf_lt_of_mem (List.mem_of_find?_eq_some ‹_›)
    rw [Output.array.sizeOf_spec]
    omega
  · exact .left _ _ (sizeOf_seenAt ‹_›)

def FitsField (sample value : Output) : Prop :=
  value = .null ∨
    match sample with
    | .array items => ∃ others, value = .array others ∧ ∀ other ∈ others, Fits (.array items) other
    | sample => Fits sample value
termination_by (sizeOf sample, 1)

end

end Fitting

end Gqlforge.JsonSamples
