import Gqlforge.Outcomes
import Gqlforge.Synth

namespace Gqlforge.TypeSoundness

open Json Schema Plan Synth

def itemType : WrappingType → WrappingType
  | .list ofType _ => ofType
  | typeOf => typeOf

def isLeaf (node : Field ConstValue) : Bool :=
  node.scalar.isSome || node.isEnum

def NullsFit : WrappingType → ConstValue → Prop
  | .named _ nonNull, value => value.isNull = true → nonNull = false
  | .list ofType nonNull, value => match value with
    | .null => nonNull = false
    | .list items => ∀ item ∈ items, NullsFit ofType item
    | _ => True

def withoutNulls : ConstValue → ConstValue
  | .list items => .list (items.filter (!·.isNull))
  | value => value

section

variable (formats : Scalar.Formats) (plan : OperationPlan ConstValue)

def passes (node : Field ConstValue) (value : ConstValue) : Bool :=
  match node.scalar with
  | some scalar => scalar.validate formats value
  | none => isValidEnum plan node value

/-- An output of a field at a level of its type: no null where the level is non-null, and at the levels
below its lists scalars and enums that pass their check. -/
inductive Conforms : Field ConstValue → WrappingType → Output → Prop
  | null (node : Field ConstValue) (typeOf : WrappingType) (h : typeOf.isNullable = true) :
      Conforms node typeOf .null
  | list (node : Field ConstValue) (typeOf : WrappingType) (items : List Output)
      (hl : typeOf.isList = true ∨ isLeaf node = false)
      (h : ∀ item ∈ items, Conforms node (itemType typeOf) item) : Conforms node typeOf (.array items)
  | leaf (node : Field ConstValue) (typeOf : WrappingType) (value : ConstValue) (hl : isLeaf node = true)
      (hn : value.isNull = false) (hp : passes formats plan node value = true)
      (hs : typeOf.isList = true → value.asArray = none) : Conforms node typeOf (.cloneFrom value)
  | object (node : Field ConstValue) (typeOf : WrappingType) (entries : List (Field ConstValue × Output))
      (hc : ∀ entry ∈ entries, entry.1 ∈ node.selection)
      (h : ∀ entry ∈ entries, Conforms entry.1 entry.1.typeOf entry.2) :
      Conforms node typeOf (.object (entries.map fun entry => (entry.1.outputName, entry.2)))
  | plain (node : Field ConstValue) (typeOf : WrappingType) (value : ConstValue) (hl : isLeaf node = false)
      (hn : value.isNull = false) (ha : value.asArray = none) (ho : value.asObject = none) :
      Conforms node typeOf (.cloneFrom value)
  | typename (node : Field ConstValue) (typeOf : WrappingType) (name : String)
      (hn : node.name = "__typename") : Conforms node typeOf (.str name)

/-- The code takes a null at its level for what the level says, and a list of scalars or enums with nulls
for what its levels and the list without its nulls say. -/
def Aligned (node : Field ConstValue) (typeOf : WrappingType) (value : ConstValue) : Prop :=
  if value.isNull then (nullType node.typeOf).isNullable = typeOf.isNullable
  else isLeaf node = true → (passes formats plan node value = true → NullsFit typeOf value) ∧
    (NullsFit typeOf value → passes formats plan node (withoutNulls value) = true →
      passes formats plan node value = true)

/-- A null stands at a nullable level, and a scalar or enum is accepted once its nulls, all at nullable
levels, are taken out. -/
def Fine (node : Field ConstValue) (typeOf : WrappingType) (value : ConstValue) : Prop :=
  if value.isNull then typeOf.isNullable = true
  else isLeaf node = true →
    NullsFit typeOf value ∧ passes formats plan node (withoutNulls value) = true

variable {formats plan}

theorem cloneFrom_eq_null (value : ConstValue) : Output.cloneFrom value = .null ↔ value.isNull = true := by
  cases value <;> simp [Output.cloneFrom, ConstValue.isNull]

theorem conforms_null (node : Field ConstValue) (typeOf : WrappingType) :
    Conforms formats plan node typeOf .null ↔ typeOf.isNullable = true := by
  constructor
  · intro h
    generalize ho : Output.null = output at h
    cases h with
    | null _ _ h => exact h
    | list => exact absurd ho (by simp)
    | leaf _ _ value _ hn => exact absurd ((cloneFrom_eq_null value).mp ho.symm) (by simp [hn])
    | object => exact absurd ho (by simp)
    | plain _ _ value _ hn => exact absurd ((cloneFrom_eq_null value).mp ho.symm) (by simp [hn])
    | typename => exact absurd ho (by simp)
  · exact Conforms.null node typeOf

theorem passes_item (node : Field ConstValue) (items : List ConstValue)
    (h : passes formats plan node (.list items) = true) (item : ConstValue) (hi : item ∈ items) :
    passes formats plan node item = true := by
  unfold passes at h ⊢
  cases hs : node.scalar with
  | some scalar =>
    simp only [hs] at h ⊢
    cases scalar <;> simp_all [Scalar.validate, Scalar.evalStr, Scalar.evalInt, ConstValue.asStr, ConstValue.asInt]
  | none =>
    simp only [hs, isValidEnum] at h ⊢
    have hitem := List.all_eq_true.mp h item hi
    cases item with
    | list inner => exact absurd hitem (by simp [ConstValue.asStr])
    | _ => exact hitem

theorem leaf_conforms (node : Field ConstValue) (hl : isLeaf node = true) (typeOf : WrappingType) (value : ConstValue)
    (hf : NullsFit typeOf value) (hp : value.isNull = false → passes formats plan node value = true) :
    Conforms formats plan node typeOf (.cloneFrom value) := by
  induction typeOf generalizing value with
  | named name nonNull =>
    cases hn : value.isNull with
    | true =>
      rw [(cloneFrom_eq_null value).mpr hn]
      apply Conforms.null
      simp [WrappingType.isNullable, hf hn]
    | false => exact .leaf node _ value hl hn (hp hn) (by simp [WrappingType.isList])
  | list ofType nonNull ih =>
    cases value with
    | null =>
      apply Conforms.null
      have hnull : nonNull = false := hf
      simp [WrappingType.isNullable, hnull]
    | list items =>
      have hitems := passes_item node items (hp rfl)
      rw [Output.cloneFrom, Output.cloneItems_eq_map]
      apply Conforms.list
      · exact .inl rfl
      · intro output ho
        obtain ⟨item, hi, rfl⟩ := List.mem_map.mp ho
        exact ih item (hf item hi) fun _ => hitems item hi
    | _ => exact .leaf node _ _ hl rfl (hp rfl) (fun _ => rfl)

theorem conforms_nullsFit (node : Field ConstValue) (hl : isLeaf node = true) (typeOf : WrappingType)
    (value : ConstValue) (h : Conforms formats plan node typeOf (.cloneFrom value)) : NullsFit typeOf value := by
  induction typeOf generalizing value with
  | named name nonNull =>
    intro hn
    rw [(cloneFrom_eq_null value).mpr hn, conforms_null] at h
    simpa [WrappingType.isNullable] using h
  | list ofType nonNull ih =>
    cases value with
    | null =>
      have hnull := (conforms_null node _).mp h
      have hnonNull : nonNull = false := by simpa [WrappingType.isNullable] using hnull
      exact hnonNull
    | list items =>
      intro item hi
      rw [Output.cloneFrom, Output.cloneItems_eq_map] at h
      generalize ho : Output.array (items.map Output.cloneFrom) = output at h
      cases h with
      | null => exact absurd ho (by simp)
      | list _ _ outputs _ hitems =>
        obtain rfl := Output.array.inj ho
        exact ih item (hitems _ (List.mem_map_of_mem hi))
      | leaf _ _ value _ _ _ hs =>
        have hnone := hs rfl
        cases value <;> simp [Output.cloneFrom, ConstValue.asArray] at ho hnone
      | object => exact absurd ho (by simp)
      | plain _ _ _ hl' => exact absurd hl (by simp [hl'])
      | typename => exact absurd ho (by simp)
    | _ => trivial

theorem checkLeaf_null (vars : Variables) (node : Field ConstValue) (hskip : node.skip vars = false)
    (value : ConstValue) (hn : value.isNull = true) :
    checkLeaf formats plan vars node value =
      some (if (nullType node.typeOf).isNullable then .ok .null else .error .valueRequired) := by
  simp only [checkLeaf, hskip, hn, Bool.false_eq_true, if_false, if_true]

theorem checkLeaf_leaf (vars : Variables) (node : Field ConstValue) (hskip : node.skip vars = false)
    (value : ConstValue) (hn : value.isNull = false) (hl : isLeaf node = true) :
    ∃ error, checkLeaf formats plan vars node value =
      some (if passes formats plan node value then .ok (.cloneFrom value) else .error error) := by
  cases hs : node.scalar with
  | some scalar =>
    have hp : passes formats plan node value = scalar.validate formats value := by simp only [passes, hs]
    simp only [checkLeaf, hskip, hn, hs, hp, Bool.false_eq_true, if_false]
    exact ⟨_, rfl⟩
  | none =>
    have he : node.isEnum = true := by simpa [isLeaf, hs] using hl
    have hp : passes formats plan node value = isValidEnum plan node value := by simp only [passes, hs]
    simp only [checkLeaf, hskip, hn, hs, hp, he, Bool.false_eq_true, if_false, if_true]
    exact ⟨_, rfl⟩

theorem checkLeaf_none (vars : Variables) (node : Field ConstValue) (hskip : node.skip vars = false)
    (value : ConstValue) (hn : value.isNull = false) (hl : isLeaf node = false) :
    checkLeaf formats plan vars node value = none := by
  simp only [isLeaf, Bool.or_eq_false_iff, Option.isSome_eq_false_iff, Option.isNone_iff_eq_none] at hl
  simp only [checkLeaf, hskip, hn, hl.1, hl.2, Bool.false_eq_true, if_false]

theorem checkLeaf_eq_none (vars : Variables) (node : Field ConstValue) (hskip : node.skip vars = false)
    (value : ConstValue) (h : checkLeaf formats plan vars node value = none) :
    value.isNull = false ∧ isLeaf node = false := by
  cases hn : value.isNull with
  | true => exact absurd h (by simp [checkLeaf_null vars node hskip value hn])
  | false =>
    refine ⟨rfl, ?_⟩
    by_contra hl
    obtain ⟨error, hc⟩ := @checkLeaf_leaf formats plan vars node hskip value hn (by simpa using hl)
    exact absurd h (by simp [hc])

theorem checkLeaf_meets_iff (vars : Variables) (node : Field ConstValue) (hskip : node.skip vars = false)
    (typeOf : WrappingType) (value : ConstValue) :
    (∀ output, checkLeaf formats plan vars node value = some (.ok output) →
        Conforms formats plan node typeOf output) ∧
      (Fine formats plan node typeOf value → ∀ error,
        checkLeaf formats plan vars node value ≠ some (.error error)) ↔
      Aligned formats plan node typeOf value := by
  unfold Fine Aligned
  cases hn : value.isNull with
  | true =>
    rw [checkLeaf_null vars node hskip value hn, if_pos rfl, if_pos rfl]
    cases (nullType node.typeOf).isNullable with
    | true =>
      simp only [if_true, Option.some.injEq, Except.ok.injEq, forall_eq', conforms_null]
      cases typeOf.isNullable <;> simp
    | false => cases typeOf.isNullable <;> simp
  | false =>
    simp only [Bool.false_eq_true, if_false]
    cases hl : isLeaf node with
    | false => simp [checkLeaf_none vars node hskip value hn hl]
    | true =>
      obtain ⟨error, hcheck⟩ := @checkLeaf_leaf formats plan vars node hskip value hn hl
      have hconforms (hp : passes formats plan node value = true) :
          Conforms formats plan node typeOf (.cloneFrom value) ↔ NullsFit typeOf value :=
        ⟨conforms_nullsFit node hl typeOf value, fun hf => leaf_conforms node hl typeOf value hf fun _ => hp⟩
      rw [hcheck]
      cases hp : passes formats plan node value with
      | true => simp [hconforms hp]
      | false => simp

end

end Gqlforge.TypeSoundness
