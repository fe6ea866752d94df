import Gqlforge.InputTypes
import Gqlforge.RelatedLists

namespace Gqlforge.InputCoercion

open Json Errors Schema InputResolver InputTypes RelatedLists

section

variable {recur : String → String → WrappingType → Option ConstValue → Option ConstValue →
  Resolving (Option ConstValue)}

theorem startValue_run (parentName argName : String) (pos : Position) (given : Option ConstValue) :
    (startValue parentName argName pos.checked pos.default pos.value).run = some (.ok given) ↔
      ¬ Rejected pos ∧ given = pos.given := by
  have hpure (value : Option ConstValue) : (pure value : Resolving (Option ConstValue)).run = some (.ok given) ↔
      given = value := by rw [pure_run_eq_ok, eq_comm]
  have hthrow (error : ResolveInputError) :
      (throw error : Resolving (Option ConstValue)).run ≠ some (.ok given) := by
    intro h
    cases h
  obtain ⟨declared, checked, default, value⟩ := pos
  cases hnull : checked.isNullable with
  | true =>
    have hrun : startValue parentName argName checked default value = pure (value <|> default) := by
      cases value <;> simp [startValue, hnull]
    rw [hrun, hpure]
    simp [Rejected, Absent, Position.given, hnull]
  | false =>
    cases value with
    | none =>
      cases default with
      | none =>
        refine iff_of_false ?_ (by simp [Rejected, Absent, hnull])
        simp only [startValue, hnull]
        exact hthrow _
      | some default =>
        have hrun : startValue parentName argName checked (some default) none = pure (some default) := by
          simp [startValue, required, hnull]
        rw [hrun, hpure]
        simp [Rejected, Absent, Position.given]
    | some value =>
      by_cases hvalue : value = .null
      · subst hvalue
        refine iff_of_false ?_ (by simp [Rejected, Absent, hnull])
        simp only [startValue, hnull, ConstValue.isNull, Bool.not_false, Bool.and_self, if_true]
        exact hthrow _
      · have hrun : startValue parentName argName checked default (some value) = pure (some value) := by
          cases value <;> first | exact absurd rfl hvalue | simp [startValue, ConstValue.isNull]
        rw [hrun, hpure]
        simp [Rejected, Absent, Position.given, hvalue]

theorem insertFields_congr {results results' : InputFieldDefinition → Option ConstValue}
    {fields : List InputFieldDefinition} (h : ∀ field ∈ fields, results field = results' field)
    (object : Object ConstValue) : insertFields results object fields = insertFields results' object fields := by
  induction fields generalizing object with
  | nil => rfl
  | cons first rest ih =>
    rw [List.forall_mem_cons] at h
    rw [insertFields, insertFields, List.foldl_cons, List.foldl_cons, h.1]
    exact ih h.2 _

def insertField (object : Object ConstValue) (field : InputFieldDefinition) (value : Option ConstValue) :
    Object ConstValue :=
  match value with
  | some value => object.insertKey field.name value
  | none => object

theorem getKey_insertField {object : Object ConstValue} {field other : InputFieldDefinition}
    (value : Option ConstValue) (hne : other.name ≠ field.name) :
    (insertField object field value).getKey other.name = object.getKey other.name := by
  cases value with
  | none => rfl
  | some value => exact Object.getKey_insertKey_of_ne object field.name other.name value hne

theorem parseFields_cons (parentName : String) (object : Object ConstValue) (field : InputFieldDefinition)
    (rest : List InputFieldDefinition) (object' : Object ConstValue) :
    (parseFields recur parentName object (field :: rest)).run = some (.ok object') ↔ ∃ value,
      (recur parentName field.name field.ofType field.defaultValue (object.getKey field.name)).run =
          some (.ok value) ∧
        (parseFields recur parentName (insertField object field value) rest).run = some (.ok object') := by
  rw [parseFields, bind_run_eq_ok]
  refine exists_congr fun value => and_congr_right fun _ => ?_
  cases value <;> rfl

theorem parseFields_complete (parentName : String) (results : InputFieldDefinition → Option ConstValue)
    (fields : List InputFieldDefinition) (hnodup : (fields.map (·.name)).Nodup) (object : Object ConstValue)
    (h : ∀ field ∈ fields,
      (recur parentName field.name field.ofType field.defaultValue (object.getKey field.name)).run =
        some (.ok (results field))) :
    (parseFields recur parentName object fields).run = some (.ok (insertFields results object fields)) := by
  induction fields generalizing object with
  | nil => rfl
  | cons first rest ih =>
    rw [List.map_cons, List.nodup_cons] at hnodup
    rw [List.forall_mem_cons] at h
    rw [parseFields_cons]
    refine ⟨results first, h.1, ih hnodup.2 _ fun field hf => ?_⟩
    rw [getKey_insertField]
    · exact h.2 field hf
    · exact fun he => hnodup.1 (List.mem_map.mpr ⟨field, hf, he⟩)

theorem parseFields_sound (parentName : String) (fields : List InputFieldDefinition)
    (hnodup : (fields.map (·.name)).Nodup) (object object' : Object ConstValue)
    (h : (parseFields recur parentName object fields).run = some (.ok object')) : ∃ results,
      (∀ field ∈ fields,
        (recur parentName field.name field.ofType field.defaultValue (object.getKey field.name)).run =
          some (.ok (results field))) ∧ object' = insertFields results object fields := by
  induction fields generalizing object with
  | nil =>
    rw [parseFields, pure_run_eq_ok] at h
    exact ⟨fun _ => none, by simp, h.symm⟩
  | cons first rest ih =>
    rw [List.map_cons, List.nodup_cons] at hnodup
    obtain ⟨value, hfirst, hrest⟩ := (parseFields_cons parentName object first rest object').mp h
    obtain ⟨results, hresults, rfl⟩ := ih hnodup.2 _ hrest
    have hne : ∀ field ∈ rest, field.name ≠ first.name := fun field hf he =>
      hnodup.1 (List.mem_map.mpr ⟨field, hf, he⟩)
    refine ⟨fun field => if field.name = first.name then value else results field, ?_, ?_⟩
    · rw [List.forall_mem_cons]
      refine ⟨by simpa using hfirst, fun field hf => ?_⟩
      simp only [if_neg (hne field hf)]
      rw [← hresults field hf, getKey_insertField value (hne field hf)]
    · rw [insertFields, insertFields, List.foldl_cons, if_pos rfl]
      exact insertFields_congr (fun field hf => by simp only [if_neg (hne field hf)]) _

theorem parseItems_complete (parentName : String) (typeOf : WrappingType) {items items' : List ConstValue}
    (h : List.Forall₂ (fun item item' => ∀ parentName argName,
      (recur parentName argName typeOf none (some item)).run = some (.ok (some item'))) items items') (index : Nat) :
    (parseItems recur parentName typeOf index items).run = some (.ok items') := by
  induction h generalizing index with
  | nil => rfl
  | @cons item item' _ _ hfirst _ ih =>
    simp only [parseItems, bind_run_eq_ok, pure_run_eq_ok]
    exact ⟨some item', hfirst _ _, _, ih (index + 1), rfl⟩

theorem parseItems_sound (parentName : String) (typeOf : WrappingType) (items items' : List ConstValue) (index : Nat)
    (h : (parseItems recur parentName typeOf index items).run = some (.ok items')) :
    List.Forall₂ (fun item item' => ∃ parentName argName result,
      (recur parentName argName typeOf none (some item)).run = some (.ok result) ∧ item' = result.getD .null)
      items items' := by
  induction items generalizing index items' with
  | nil =>
    rw [parseItems, pure_run_eq_ok] at h
    rw [← h]
    exact .nil
  | cons item rest ih =>
    simp only [parseItems, bind_run_eq_ok, pure_run_eq_ok] at h
    obtain ⟨value, hvalue, rest', hrest, rfl⟩ := h
    exact .cons ⟨_, _, value, hvalue, rfl⟩ (ih rest' (index + 1) hrest)

end

section

variable {index : Index}

abbrev parse (index : Index) (fuel : Nat) (parentName argName : String) (pos : Position) :
    Resolving (Option ConstValue) :=
  recursiveParseArg index fuel parentName argName pos.checked pos.default pos.value

theorem not_below_of_given {pos : Position} (h : ∀ object, pos.given ≠ some (.object object))
    (h' : ∀ items, pos.given ≠ some (.list items)) : ∀ next, ¬ Below index next pos := by
  intro next hnext
  cases hnext with
  | field _ object _ _ hgiven => exact h object hgiven
  | item _ items _ _ hgiven => exact h' items hgiven

theorem not_below_of_def {pos : Position} (h : index.getInputTypeDefinition pos.checked.name = none) :
    ∀ next, ¬ Below index next pos := by
  intro next hnext
  cases hnext with
  | field _ _ _ _ _ hdef => rw [h] at hdef; cases hdef
  | item _ _ _ _ _ hdef => rw [h] at hdef; cases hdef

theorem parse_sound (hdistinct : FieldsDistinct index) (fuel : Nat) (parentName argName : String) (pos : Position)
    (result : Option ConstValue) (h : (parse index fuel parentName argName pos).run = some (.ok result)) :
    Filled index pos result ∧ Throughout index (fun pos => ¬ Rejected pos) pos := by
  induction fuel generalizing parentName argName pos result with
  | zero => cases h
  | succ fuel ih =>
    rw [parse, recursiveParseArg, bind_run_eq_ok] at h
    obtain ⟨given, hstart, hrest⟩ := h
    obtain ⟨haccepted, rfl⟩ := (startValue_run parentName argName pos given).mp hstart
    cases hgiven : pos.given with
    | none =>
      rw [hgiven, pure_run_eq_ok] at hrest
      rw [← hrest, throughout_of_leaf (not_below_of_given (by simp [hgiven]) (by simp [hgiven]))]
      exact ⟨.missing pos hgiven, haccepted⟩
    | some value =>
      simp only [hgiven] at hrest
      cases hdef : index.getInputTypeDefinition pos.checked.name with
      | none =>
        simp only [hdef, pure_run_eq_ok] at hrest
        rw [← hrest, throughout_of_leaf (not_below_of_def hdef)]
        exact ⟨.leaf pos value hgiven (.inl hdef), haccepted⟩
      | some fields =>
        simp only [hdef] at hrest
        cases value with
        | object object =>
          simp only [bind_run_eq_ok, pure_run_eq_ok] at hrest
          obtain ⟨object', hfields, rfl⟩ := hrest
          obtain ⟨results, hresults, rfl⟩ := parseFields_sound _ fields (hdistinct _ _ hdef) object object' hfields
          have hfield := fun field hf => ih _ _ (Position.field field object) _ (hresults field hf)
          rw [throughout_object hgiven hdef]
          exact ⟨.object pos object fields results hgiven hdef fun field hf => (hfield field hf).1, haccepted,
            fun field hf => (hfield field hf).2⟩
        | list items =>
          simp only [bind_run_eq_ok, pure_run_eq_ok] at hrest
          obtain ⟨items', hitems, rfl⟩ := hrest
          have hall : List.Forall₂ (fun item item' => Filled index (pos.item item) (some item') ∧
              Throughout index (fun pos => ¬ Rejected pos) (pos.item item)) items items' := by
            refine (parseItems_sound _ _ items items' 0 hitems).imp ?_
            rintro item item' ⟨parentName, argName, result, hresult, rfl⟩
            obtain ⟨hfilled, hthrough⟩ := ih parentName argName (pos.item item) result hresult
            cases result with
            | none => cases filled_none hfilled
            | some value => exact ⟨hfilled, hthrough⟩
          obtain ⟨hlength, hget⟩ := List.forall₂_iff_get.mp hall
          rw [throughout_list hgiven hdef]
          refine ⟨.list pos items items' fields hgiven hdef hlength fun i h₁ h₂ => (hget i h₁ h₂).1, haccepted, ?_⟩
          intro item hi
          obtain ⟨i, hget'⟩ := List.get_of_mem hi
          rw [← hget']
          exact (hget i i.isLt (hlength ▸ i.isLt)).2
        | null | number _ | string _ | boolean _ | enum _ =>
          simp only [pure_run_eq_ok] at hrest
          rw [← hrest, throughout_of_leaf (not_below_of_given (by simp [hgiven]) (by simp [hgiven]))]
          exact ⟨.leaf pos _ hgiven (.inr ⟨rfl, rfl⟩), haccepted⟩

theorem parse_complete (hdistinct : FieldsDistinct index) {pos : Position} {result : Option ConstValue}
    (h : Filled index pos result) (haccepted : Throughout index (fun pos => ¬ Rejected pos) pos) :
    ∃ n, ∀ m, n ≤ m → ∀ parentName argName, (parse index m parentName argName pos).run = some (.ok result) := by
  induction h with
  | missing pos hgiven =>
    refine ⟨1, fun m hm parentName argName => ?_⟩
    obtain ⟨m, rfl⟩ := Nat.exists_eq_add_of_le' hm
    rw [parse, recursiveParseArg, bind_run_eq_ok]
    exact ⟨none, (startValue_run _ _ pos none).mpr ⟨(throughout_iff.mp haccepted).1, hgiven.symm⟩, rfl⟩
  | leaf pos value hgiven hleaf =>
    refine ⟨1, fun m hm parentName argName => ?_⟩
    obtain ⟨m, rfl⟩ := Nat.exists_eq_add_of_le' hm
    rw [parse, recursiveParseArg, bind_run_eq_ok]
    refine ⟨some value, (startValue_run _ _ pos _).mpr ⟨(throughout_iff.mp haccepted).1, hgiven.symm⟩, ?_⟩
    cases hdef : index.getInputTypeDefinition pos.checked.name with
    | none => rfl
    | some fields =>
      obtain hnone | ⟨hobject, hlist⟩ := hleaf
      · rw [hnone] at hdef
        cases hdef
      · cases value with
        | object _ => cases hobject
        | list _ => cases hlist
        | _ => rfl
  | object pos object fields results hgiven hdef hfields ih =>
    rw [throughout_object hgiven hdef] at haccepted
    obtain ⟨n, hn⟩ := forall₂_bound (fun m field _ => ∀ parentName argName,
      (parse index m parentName argName (.field field object)).run = some (.ok (results field)))
      (List.forall₂_same.mpr fun field hf => ih field hf (haccepted.2 field hf))
    refine ⟨n + 1, fun m hm parentName argName => ?_⟩
    obtain ⟨m, rfl⟩ := Nat.exists_eq_add_of_le' (Nat.le_trans (Nat.le_add_left 1 n) hm)
    rw [parse, recursiveParseArg, bind_run_eq_ok]
    refine ⟨some (.object object), (startValue_run _ _ pos _).mpr ⟨haccepted.1, hgiven.symm⟩, ?_⟩
    simp only [hdef, bind_run_eq_ok, pure_run_eq_ok]
    refine ⟨_, parseFields_complete _ results fields (hdistinct _ _ hdef) object fun field hf => ?_, rfl⟩
    exact List.forall₂_same.mp (hn m (by omega)) field hf _ _
  | list pos items items' fields hgiven hdef hlength hitems ih =>
    rw [throughout_list hgiven hdef] at haccepted
    obtain ⟨n, hn⟩ := forall₂_bound (fun m item item' => ∀ parentName argName,
      (parse index m parentName argName (pos.item item)).run = some (.ok (some item')))
      (List.forall₂_iff_get.mpr ⟨hlength, fun i h₁ h₂ => ih i h₁ h₂ (haccepted.2 _ (List.get_mem items ⟨i, h₁⟩))⟩)
    refine ⟨n + 1, fun m hm parentName argName => ?_⟩
    obtain ⟨m, rfl⟩ := Nat.exists_eq_add_of_le' (Nat.le_trans (Nat.le_add_left 1 n) hm)
    rw [parse, recursiveParseArg, bind_run_eq_ok]
    refine ⟨some (.list items), (startValue_run _ _ pos _).mpr ⟨haccepted.1, hgiven.symm⟩, ?_⟩
    simp only [hdef, bind_run_eq_ok, pure_run_eq_ok]
    exact ⟨items', parseItems_complete _ _ (hn m (by omega)) 0, rfl⟩

end

end Gqlforge.InputCoercion
