import Gqlforge.FieldIds
import Gqlforge.InputCoercion

namespace Gqlforge.InputAcceptance

open Json Document Schema Plan InputResolver InputTypes InputCoercion RelatedLists Relation

def argsOf {Input : Type} (fields : List (Field Input)) : List (Arg Input) :=
  (Field.dfsAll fields).flatMap (·.args)

theorem argsOf_cons {Input : Type} (field : Field Input) (rest : List (Field Input)) :
    argsOf (field :: rest) = field.args ++ (argsOf field.selection ++ argsOf rest) := by
  rw [argsOf, Field.dfsAll, FieldIds.dfs_eq, List.cons_append, List.flatMap_cons, List.flatMap_append]
  rfl

def startOf (arg : Arg ConstValue) : Position :=
  ⟨arg.typeOf, arg.typeOf, arg.defaultValue, arg.value⟩

section

variable (index : Index)

def Missing (pos : Position) : Prop :=
  pos.declared.isNullable = false ∧ Rejected pos

def Refused (pos : Position) : Prop :=
  pos.declared.isNullable = true ∧ Rejected pos

inductive Overlooked (pos : Position) : Prop
  /-- A null among the items of a nullable list, where the items are not nullable. -/
  | nullItem (habsent : Absent pos) (h : pos.declared.isNullable = false) (hchecked : pos.checked.isNullable = true)
  | nullDefault (hvalue : pos.value = none) (hdefault : pos.default = some .null)
    (h : pos.declared.isNullable = false)
  | unshaped (value : ConstValue) (fields : List InputFieldDefinition) (hgiven : pos.given = some value)
    (hnull : value ≠ .null) (hdef : index.getInputTypeDefinition pos.declared.name = some fields)
    (h : ¬ Shaped pos.declared value)
  | unread (value : ConstValue) (hgiven : pos.given = some value) (hnull : value ≠ .null)
    (hdef : index.getInputTypeDefinition pos.declared.name = none) (h : ¬ NullsFit pos.declared value)

def Reached (args : List (Arg ConstValue)) (pos : Position) : Prop :=
  ∃ arg ∈ args, ReflTransGen (Below index) pos (startOf arg)

/-- Some value is missing where the code looks for it too, or the code errs in both directions or in none. -/
def Discerned (args : List (Arg ConstValue)) : Prop :=
  (∃ pos, Reached index args pos ∧ Missing pos) ∨
    ((∃ pos, Reached index args pos ∧ Refused pos) ↔ ∃ pos, Reached index args pos ∧ Overlooked index pos)

variable {index}

variable {pos : Position}

theorem rejected_iff : Rejected pos ↔ Missing pos ∨ Refused pos := by
  unfold Missing Refused
  cases pos.declared.isNullable <;> simp

theorem given_of_absent (h : Absent pos) : pos.given = none ∨ pos.given = some .null := by
  rcases h with ⟨hvalue, hdefault⟩ | hvalue
  · exact .inl (by rw [Position.given, hvalue, hdefault]; rfl)
  · exact .inr (by rw [Position.given, hvalue]; rfl)

theorem illTyped_absent (h : Absent pos) : IllTyped index pos ↔ pos.declared.isNullable = false := by
  rcases given_of_absent h with hgiven | hgiven
  · rw [IllTyped, hgiven]
  · exact illTyped_null hgiven

theorem absent_of_given_none (h : pos.given = none) : Absent pos := by
  cases hvalue : pos.value with
  | none =>
    rw [Position.given, hvalue] at h
    exact .inl ⟨hvalue, h⟩
  | some value =>
    rw [Position.given, hvalue] at h
    cases h

theorem illTyped_iff : IllTyped index pos ↔ Missing pos ∨ Overlooked index pos := by
  constructor
  · intro h
    by_cases habsent : Absent pos
    · have hdeclared := (illTyped_absent habsent).mp h
      cases hchecked : pos.checked.isNullable with
      | false => exact .inl ⟨hdeclared, hchecked, habsent⟩
      | true => exact .inr (.nullItem habsent hdeclared hchecked)
    · cases hgiven : pos.given with
      | none => exact absurd (absent_of_given_none hgiven) habsent
      | some value =>
        by_cases hnull : value = .null
        · subst hnull
          have hdeclared := (illTyped_null hgiven).mp h
          cases hvalue : pos.value with
          | none =>
            rw [Position.given, hvalue] at hgiven
            exact .inr (.nullDefault hvalue hgiven hdeclared)
          | some value =>
            rw [Position.given, hvalue] at hgiven
            exact absurd (.inr (hvalue.trans hgiven)) habsent
        · cases hdef : index.getInputTypeDefinition pos.declared.name with
          | none => exact .inr (.unread value hgiven hnull hdef ((illTyped_leaf hgiven hnull hdef).mp h))
          | some fields => exact .inr (.unshaped value fields hgiven hnull hdef ((illTyped_input hgiven hnull hdef).mp h))
  · rintro (⟨hdeclared, -, habsent⟩ | hover)
    · exact (illTyped_absent habsent).mpr hdeclared
    · cases hover with
      | nullItem habsent h _ => exact (illTyped_absent habsent).mpr h
      | nullDefault hvalue hdefault h =>
        refine (illTyped_null ?_).mpr h
        rw [Position.given, hvalue, hdefault]
        rfl
      | unshaped value fields hgiven hnull hdef h => exact (illTyped_input hgiven hnull hdef).mpr h
      | unread value hgiven hnull hdef h => exact (illTyped_leaf hgiven hnull hdef).mpr h

theorem not_exists_reached {P : Position → Prop} {args : List (Arg ConstValue)} :
    (¬ ∃ pos, Reached index args pos ∧ P pos) ↔ ∀ arg ∈ args, Throughout index (fun pos => ¬ P pos) (startOf arg) := by
  constructor
  · intro h arg ha pos hpos hP
    exact h ⟨pos, ⟨arg, ha, hpos⟩, hP⟩
  · rintro h ⟨pos, ⟨arg, ha, hpos⟩, hP⟩
    exact h arg ha pos hpos hP

theorem discerned_iff {args : List (Arg ConstValue)} : Discerned index args ↔
    ((∀ arg ∈ args, Throughout index (fun pos => ¬ Rejected pos) (startOf arg)) ↔
      ∀ arg ∈ args, Throughout index (fun pos => ¬ IllTyped index pos) (startOf arg)) := by
  rw [← not_exists_reached, ← not_exists_reached, not_iff_not, Discerned]
  simp only [rejected_iff, illTyped_iff, and_or_left, exists_or]
  by_cases hmissing : ∃ pos, Reached index args pos ∧ Missing pos
  · simp only [hmissing, true_or]
  · simp only [hmissing, false_or]

end

section

variable {α β : Type} {f : α → Resolving β}

theorem mapM_run_eq_ok {xs : List α} {ys : List β} :
    (xs.mapM f).run = some (.ok ys) ↔ List.Forall₂ (fun x y => (f x).run = some (.ok y)) xs ys := by
  induction xs generalizing ys with
  | nil => rw [List.mapM_nil, pure_run_eq_ok, List.forall₂_nil_left_iff, eq_comm]
  | cons x rest ih =>
    simp only [List.mapM_cons, bind_run_eq_ok, pure_run_eq_ok, ih]
    constructor
    · rintro ⟨y, hy, ys, hys, rfl⟩
      exact .cons hy hys
    · intro h
      cases h with
      | cons hy hys => exact ⟨_, hy, _, hys, rfl⟩

end

section

variable (index : Index) (fuel : Nat)

def Parsed (arg arg' : Arg ConstValue) : Prop :=
  ∃ fieldName, (resolveArg index fuel fieldName arg).run = some (.ok arg')

def Returns (arg : Arg ConstValue) : Prop :=
  ∀ fieldName, ∃ arg', (resolveArg index fuel fieldName arg).run = some (.ok arg')

mutual

theorem resolveField_parsed (field result : Field ConstValue)
    (h : (resolveField index fuel field).run = some (.ok result)) :
    List.Forall₂ (Parsed index fuel) field.args result.args ∧
      List.Forall₂ (Parsed index fuel) (argsOf field.selection) (argsOf result.selection) := by
  match field with
  | { selection := fields, .. } =>
    simp only [resolveField, bind_run_eq_ok, pure_run_eq_ok] at h
    obtain ⟨args, hargs, selection, hs, rfl⟩ := h
    exact ⟨(mapM_run_eq_ok.mp hargs).imp fun arg arg' harg => ⟨_, harg⟩, resolveSelection_parsed fields selection hs⟩

theorem resolveSelection_parsed (fields results : List (Field ConstValue))
    (h : (resolveSelection index fuel fields).run = some (.ok results)) :
    List.Forall₂ (Parsed index fuel) (argsOf fields) (argsOf results) := by
  match fields with
  | [] =>
    rw [resolveSelection, pure_run_eq_ok] at h
    rw [← h]
    exact .nil
  | field :: rest =>
    simp only [resolveSelection, bind_run_eq_ok, pure_run_eq_ok] at h
    obtain ⟨first, hf, others, ho, rfl⟩ := h
    obtain ⟨hargs, hselection⟩ := resolveField_parsed field first hf
    rw [argsOf_cons, argsOf_cons]
    exact List.rel_append hargs (List.rel_append hselection (resolveSelection_parsed rest others ho))

end

mutual

theorem resolveField_returns (field : Field ConstValue)
    (h : ∀ arg ∈ field.args ++ argsOf field.selection, Returns index fuel arg) :
    ∃ result, (resolveField index fuel field).run = some (.ok result) := by
  match field with
  | { name := name, selection := fields, .. } =>
    rw [List.forall_mem_append] at h
    obtain ⟨selection, hs⟩ := resolveSelection_returns fields h.2
    obtain ⟨args', hargs⟩ := exists_forall₂ fun arg ha => h.1 arg ha name
    simp only [resolveField, bind_run_eq_ok, pure_run_eq_ok]
    exact ⟨_, args', mapM_run_eq_ok.mpr hargs, selection, hs, rfl⟩

theorem resolveSelection_returns (fields : List (Field ConstValue))
    (h : ∀ arg ∈ argsOf fields, Returns index fuel arg) :
    ∃ results, (resolveSelection index fuel fields).run = some (.ok results) := by
  match fields with
  | [] => exact ⟨[], rfl⟩
  | field :: rest =>
    rw [argsOf_cons, ← List.append_assoc, List.forall_mem_append] at h
    obtain ⟨first, hf⟩ := resolveField_returns field h.1
    obtain ⟨others, ho⟩ := resolveSelection_returns rest h.2
    refine ⟨first :: others, ?_⟩
    simp only [resolveSelection, bind_run_eq_ok, pure_run_eq_ok]
    exact ⟨first, hf, others, ho, rfl⟩

end

theorem tryMapAll_cons {Input Output ε : Type} {map : Input → Except ε Output} (field : Field Input)
    (rest : List (Field Input)) (results : List (Field Output)) : tryMapAll map (field :: rest) = .ok results ↔
      ∃ first, tryMap map field = .ok first ∧ ∃ others, tryMapAll map rest = .ok others ∧ first :: others = results := by
  simp only [tryMapAll, except_bind_eq_ok, pure, Except.pure, Except.ok.injEq]

theorem resolveRoots_run (vars : Variables) (fields : List (Field Value)) (results : List (Field ConstValue)) :
    (resolveRoots index fuel vars fields).run = some (.ok results) ↔
      ∃ selection, tryMapAll (resolve vars) fields = .ok selection ∧
        (resolveSelection index fuel selection).run = some (.ok results) := by
  induction fields generalizing results with
  | nil => simp [resolveRoots, tryMapAll, resolveSelection]
  | cons field rest ih =>
    simp only [resolveRoots, bind_run_eq_ok, pure_run_eq_ok, tryMapAll_cons, ih]
    constructor
    · rintro ⟨first, hf, first', hf', others', ⟨others, ho, ho'⟩, rfl⟩
      refine ⟨first :: others, ⟨first, Option.some.inj hf, others, ho, rfl⟩, ?_⟩
      simp only [resolveSelection, bind_run_eq_ok, pure_run_eq_ok]
      exact ⟨first', hf', others', ho', rfl⟩
    · rintro ⟨selection, ⟨first, hf, others, ho, rfl⟩, hselection⟩
      simp only [resolveSelection, bind_run_eq_ok, pure_run_eq_ok] at hselection
      obtain ⟨first', hf', others', ho', rfl⟩ := hselection
      exact ⟨first, congrArg some hf, first', hf', others', ⟨others, ho, ho'⟩, rfl⟩

end

section

variable (ctx : Templates.PathContext)

mutual

theorem resolveGraphqlField_args (field : Field ConstValue) :
    (resolveGraphqlField ctx field).args = field.args ∧
      argsOf (resolveGraphqlField ctx field).selection = argsOf field.selection := by
  match field with
  | { selection := fields, .. } => exact ⟨rfl, resolveGraphqlSelectionSet_args fields⟩

theorem resolveGraphqlSelectionSet_args (fields : List (Field ConstValue)) :
    argsOf (resolveGraphqlSelectionSet ctx fields) = argsOf fields := by
  match fields with
  | [] => rfl
  | field :: rest =>
    obtain ⟨hargs, hselection⟩ := resolveGraphqlField_args field
    rw [resolveGraphqlSelectionSet, argsOf_cons, argsOf_cons, hargs, hselection, resolveGraphqlSelectionSet_args rest]

end

end

section

variable (index : Index)

/-- The value of the argument with all defaults filled in, and it is a value of the declared type. -/
def WellTyped (arg : Arg ConstValue) (value : Option ConstValue) : Prop :=
  Filled index (startOf arg) value ∧ ConformsAt index arg.typeOf arg.defaultValue value

def Fillable (args : List (Arg ConstValue)) : Prop :=
  ∀ arg ∈ args, ∃ value, Filled index (startOf arg) value

variable {index}

theorem parsed_iff (hdistinct : FieldsDistinct index) {fuel : Nat} {arg arg' : Arg ConstValue}
    (h : Parsed index fuel arg arg') : arg' = { arg with value := arg'.value } ∧
      Filled index (startOf arg) arg'.value ∧ Throughout index (fun pos => ¬ Rejected pos) (startOf arg) := by
  obtain ⟨fieldName, h⟩ := h
  simp only [resolveArg, bind_run_eq_ok, pure_run_eq_ok] at h
  obtain ⟨value, hvalue, rfl⟩ := h
  exact ⟨rfl, parse_sound hdistinct fuel fieldName arg.name (startOf arg) value hvalue⟩

theorem exists_fuel (hdistinct : FieldsDistinct index) (args : List (Arg ConstValue)) (hfill : Fillable index args)
    (haccepted : ∀ arg ∈ args, Throughout index (fun pos => ¬ Rejected pos) (startOf arg)) :
    ∃ fuel, ∀ arg ∈ args, Returns index fuel arg := by
  have heach : ∀ arg ∈ args, ∃ n, ∀ m, n ≤ m → Returns index m arg := by
    intro arg ha
    obtain ⟨value, hvalue⟩ := hfill arg ha
    obtain ⟨n, hn⟩ := parse_complete hdistinct hvalue (haccepted arg ha)
    refine ⟨n, fun m hm fieldName => ⟨{ arg with value := value }, ?_⟩⟩
    simp only [resolveArg, bind_run_eq_ok, pure_run_eq_ok]
    exact ⟨value, hn m hm fieldName arg.name, rfl⟩
  obtain ⟨fuel, h⟩ := forall₂_bound (fun m arg _ => Returns index m arg) (List.forall₂_same.mpr heach)
  refine ⟨fuel, fun arg ha => ?_⟩
  obtain ⟨-, -, hreturns⟩ := exists_related_of_mem (h fuel (Nat.le_refl fuel)) ha
  exact hreturns

theorem wellTyped_iff (hdistinct : FieldsDistinct index) {arg : Arg ConstValue} {value : Option ConstValue}
    (h : Filled index (startOf arg) value) :
    WellTyped index arg value ↔ Throughout index (fun pos => ¬ IllTyped index pos) (startOf arg) := by
  rw [← conforms_iff hdistinct h rfl]
  exact ⟨And.right, fun hconforms => ⟨h, hconforms⟩⟩

end

section

variable (printer : SelectionSets.Printer ConstValue) (vars : Variables) (plan : OperationPlan Value)

/-- Every argument of the resolved plan is the given one with the defaults filled in, and of its declared type. -/
def Sound : Prop :=
  ∀ fuel resolved, (resolveInput printer fuel vars plan).run = some (.ok resolved) →
    ∃ selection, tryMapAll (resolve vars) plan.selection = .ok selection ∧
      List.Forall₂ (fun arg arg' => arg' = { arg with value := arg'.value } ∧ WellTyped plan.index arg arg'.value)
        (argsOf selection) (argsOf resolved.selection)

def Complete : Prop :=
  ∀ selection, tryMapAll (resolve vars) plan.selection = .ok selection →
    (∀ arg ∈ argsOf selection, ∃ value, WellTyped plan.index arg value) →
    ∃ fuel resolved, (resolveInput printer fuel vars plan).run = some (.ok resolved)

variable {vars plan}

theorem resolveInput_parsed (fuel : Nat) (resolved : OperationPlan ConstValue)
    (h : (resolveInput printer fuel vars plan).run = some (.ok resolved)) :
    ∃ selection, tryMapAll (resolve vars) plan.selection = .ok selection ∧
      List.Forall₂ (Parsed plan.index fuel) (argsOf selection) (argsOf resolved.selection) := by
  simp only [resolveInput, bind_run_eq_ok, pure_run_eq_ok] at h
  obtain ⟨results, hresults, rfl⟩ := h
  obtain ⟨selection, hs, hparsed⟩ := (resolveRoots_run plan.index fuel vars plan.selection results).mp hresults
  refine ⟨selection, hs, ?_⟩
  rw [resolveGraphqlSelectionSet_args]
  exact resolveSelection_parsed plan.index fuel selection results hparsed

theorem resolveInput_returns (hdistinct : FieldsDistinct plan.index) {selection : List (Field ConstValue)}
    (hs : tryMapAll (resolve vars) plan.selection = .ok selection) (hfill : Fillable plan.index (argsOf selection))
    (haccepted : ∀ arg ∈ argsOf selection, Throughout plan.index (fun pos => ¬ Rejected pos) (startOf arg)) :
    ∃ fuel resolved, (resolveInput printer fuel vars plan).run = some (.ok resolved) := by
  obtain ⟨fuel, hfuel⟩ := exists_fuel hdistinct (argsOf selection) hfill haccepted
  obtain ⟨results, hresults⟩ := resolveSelection_returns plan.index fuel selection hfuel
  have hroots := (resolveRoots_run plan.index fuel vars plan.selection results).mpr ⟨selection, hs, hresults⟩
  simp only [resolveInput, bind_run_eq_ok, pure_run_eq_ok]
  exact ⟨fuel, _, results, hroots, rfl⟩

end

def filtersArg {Input : Type} (value : Input) : Arg Input :=
  ⟨0, "filters", .list (.named "Filter" true) false, some value, none⟩

def searchField {Input : Type} (value : Input) : Field Input :=
  ⟨0, "search", "search", none, .named "String" false, some "Query", none, none, [filtersArg value], [], none, ⟨1, 3⟩, [],
    false, none⟩

def searchPlan (value : Value) : OperationPlan Value :=
  ⟨"Query", .query, ⟨[("Filter", .inputObject "Filter" [⟨"name", .named "String" true, none⟩], [])], ⟨"Query", none, none⟩⟩,
    false, false, false, false, none, [searchField value], none, none⟩

theorem searchPlan_distinct (value : Value) : FieldsDistinct (searchPlan value).index := by
  intro name fields h
  by_cases hname : name = "Filter"
  · subst hname
    obtain rfl := Option.some.inj h
    simp
  · have hne : (name == "Filter") = false := beq_eq_false_iff_ne.mpr hname
    simp [searchPlan, Index.getInputTypeDefinition, Index.definition, Object.getKey, List.lookup_cons, List.lookup_nil, hne] at h

end Gqlforge.InputAcceptance
