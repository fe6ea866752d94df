import Gqlforge.CollectExpansion
import Gqlforge.PlanTermination
import Gqlforge.Skip

namespace Gqlforge.PlanPaths

open Document Schema Plan Builder Occurrences CollectExpansion Skip

def accepts (vars : Variables) (directives : List Document.Directive) : Bool :=
  let conditions := includeOf directives
  !conditions.isConstSkip &&
    !(Field.evalVariable conditions.intoVariableTuple.2 vars false ==
      Field.evalVariable conditions.intoVariableTuple.1 vars true)

section

variable (index : Index) (fragments : Fragments) (vars : Variables)

/-- The occurrences of a selection set that are carried out: kept, known and let through. -/
structure Live (call : Call) (occurrence : Occurrence) : Prop where
  kept : ∃ fuel occurrences, kept fragments fuel call = some occurrences ∧ occurrence ∈ occurrences
  isDefined : Occurrence.isDefined index occurrence = true
  accepted : accepts vars occurrence.directives = true

inductive Reached (root : Call) : Call → Prop
  | root : Reached root root
  | nested (call : Call) (occurrence : Occurrence) (h : Reached root call)
      (ho : Live index fragments vars call occurrence) : Reached root (Occurrence.below index occurrence)

variable {index fragments vars}

variable {call : Call} {occurrence : Occurrence}

theorem Live.occurs (h : Live index fragments vars call occurrence) : Occurs fragments call occurrence := by
  obtain ⟨fuel, occurrences, hk, ho⟩ := h.kept
  exact kept_occurs fragments fuel call occurrences hk occurrence ho

theorem made_skip {field : Field Value} (h : Made index fragments occurrence field) :
    field.skip vars = (Field.evalVariable (includeOf occurrence.directives).intoVariableTuple.2 vars false ==
      Field.evalVariable (includeOf occurrence.directives).intoVariableTuple.1 vars true) := by
  rw [← h.conditions]
  rfl

theorem made_accepts {field : Field Value} (h : Made index fragments occurrence field) :
    accepts vars occurrence.directives = true ↔
      (includeOf occurrence.directives).isConstSkip = false ∧ field.skip vars = false := by
  simp [accepts, made_skip h]

variable {fields : List (Field Value)}

theorem made_live (hy : Yields index fragments call fields)
    (made : Field Value) (hm : made ∈ fields) (hs : made.skip vars = false) :
    ∃ occurrence, Live index fragments vars call occurrence ∧ Made index fragments occurrence made := by
  obtain ⟨fuel, occurrences, hk, made', hp, hall⟩ := yields_matches index fragments call fields hy
  obtain ⟨occurrence, ho, hmade⟩ := forall₂_mem_right hall made (hp.mem_iff.mpr hm)
  obtain ⟨ho, hplanned⟩ := List.mem_filter.mp ho
  simp only [Occurrence.isPlanned, Bool.and_eq_true, Bool.not_eq_true'] at hplanned
  have haccepted := (made_accepts hmade).mpr ⟨hplanned.1, hs⟩
  exact ⟨occurrence, ⟨⟨fuel, occurrences, hk, ho⟩, hplanned.2, haccepted⟩, hmade⟩

theorem live_made (hy : Yields index fragments call fields)
    (occurrence : Occurrence) (ho : Live index fragments vars call occurrence) :
    ∃ made ∈ fields, Made index fragments occurrence made ∧ made.skip vars = false := by
  obtain ⟨fuel, occurrences, hk, made', hp, hall⟩ := yields_matches index fragments call fields hy
  obtain ⟨fuel', occurrences', hk', hmem⟩ := ho.kept
  have hsame := kept_unique fuel' fuel call occurrences' occurrences hk' hk
  have hconst : (includeOf occurrence.directives).isConstSkip = false := by
    have ha := ho.accepted
    simp only [accepts, Bool.and_eq_true, Bool.not_eq_true'] at ha
    exact ha.1
  have hplanned : Occurrence.isPlanned index occurrence = true := by
    simp [Occurrence.isPlanned, hconst, ho.isDefined]
  obtain ⟨made, hm, hmade⟩ := forall₂_mem_left hall occurrence
    (List.mem_filter.mpr ⟨hsame ▸ hmem, hplanned⟩)
  exact ⟨made, hp.mem_iff.mp hm, hmade, ((made_accepts hmade).mp ho.accepted).2⟩

theorem executed_live (hy : Yields index fragments call fields)
    (field : Field Value) (hf : field ∈ skipFields vars fields) :
    ∃ occurrence, Live index fragments vars call occurrence ∧
      ∃ made ∈ fields, Made index fragments occurrence made ∧ skipField vars made = field := by
  obtain ⟨made, hm, hs, rfl⟩ := (mem_skipFields fields field).mp hf
  obtain ⟨occurrence, hlive, hmade⟩ := made_live hy made hm hs
  exact ⟨occurrence, hlive, made, hm, hmade, rfl⟩

theorem live_executed (hy : Yields index fragments call fields)
    (occurrence : Occurrence) (ho : Live index fragments vars call occurrence) :
    ∃ made ∈ fields, Made index fragments occurrence made ∧ skipField vars made ∈ skipFields vars fields := by
  obtain ⟨made, hm, hmade, hskip⟩ := live_made hy occurrence ho
  exact ⟨made, hm, hmade, (mem_skipFields fields _).mpr ⟨made, hm, hskip, rfl⟩⟩

end

section

variable {α : Type}

/-- A path through the fields below a type: each label is one that `step` gives a field there. -/
def FieldPath {Input : Type} (step : String → Field Unit → α → Prop) :
    List α → String → List (Field Input) → Prop
  | [], _, _ => True
  | a :: path, typeName, fields => ∃ field ∈ fields, step typeName field.skeleton a ∧
      FieldPath step path field.typeOf.name field.selection

def SelectsPath (index : Index) (fragments : Fragments) (step : Call → Occurrence → α → Prop) :
    List α → Call → Prop
  | [], _ => True
  | a :: path, call => ∃ occurrence, Occurs fragments call occurrence ∧ step call occurrence a ∧
      SelectsPath index fragments step path (Occurrence.below index occurrence)

variable {index : Index} {fragments : Fragments} {vars : Variables} {root : Call}
variable {step : Call → Occurrence → α → Prop} {fieldStep : String → Field Unit → α → Prop}

theorem fieldPath_selects (liveStep : Call → Occurrence → α → Prop)
    (hstep : ∀ call occurrence made a, Made index fragments occurrence made →
      (fieldStep call.typeCondition (skipField vars made).skeleton a ↔ liveStep call occurrence a))
    (hsound : ∀ call, Reached index fragments vars root call → ∀ occurrence a,
      Live index fragments vars call occurrence → liveStep call occurrence a → step call occurrence a)
    (path : List α) (call : Call) (fields : List (Field Value))
    (hr : Reached index fragments vars root call) (hy : Yields index fragments call fields)
    (h : FieldPath fieldStep path call.typeCondition (skipFields vars fields)) :
    SelectsPath index fragments step path call := by
  induction path generalizing call fields with
  | nil => trivial
  | cons a path ih =>
    obtain ⟨field, hf, ha, hpath⟩ := h
    obtain ⟨occurrence, hlive, made, -, hmade, rfl⟩ := executed_live hy field hf
    refine ⟨occurrence, hlive.occurs, ?_, ?_⟩
    · exact hsound call hr occurrence a hlive ((hstep call occurrence made a hmade).mp ha)
    · rw [skipField_eq, hmade.typeOf] at hpath
      exact ih _ made.selection (.nested call occurrence hr hlive) hmade.selection hpath

theorem selects_fieldPath (liveStep : Call → Occurrence → α → Prop)
    (hstep : ∀ call occurrence made a, Made index fragments occurrence made →
      (fieldStep call.typeCondition (skipField vars made).skeleton a ↔ liveStep call occurrence a))
    (hcover : ∀ call, Reached index fragments vars root call → ∀ occurrence a,
      Occurs fragments call occurrence → step call occurrence a →
        ∃ cover, Live index fragments vars call cover ∧ liveStep call cover a ∧
          ∀ path, SelectsPath index fragments step path (Occurrence.below index occurrence) →
            SelectsPath index fragments step path (Occurrence.below index cover))
    (path : List α) (call : Call) (fields : List (Field Value))
    (hr : Reached index fragments vars root call) (hy : Yields index fragments call fields)
    (h : SelectsPath index fragments step path call) :
    FieldPath fieldStep path call.typeCondition (skipFields vars fields) := by
  induction path generalizing call fields with
  | nil => trivial
  | cons a path ih =>
    obtain ⟨occurrence, ho, ha, hpath⟩ := h
    obtain ⟨cover, hlive, hla, hbelow⟩ := hcover call hr occurrence a ho ha
    obtain ⟨made, -, hmade, hmem⟩ := live_executed hy cover hlive
    refine ⟨skipField vars made, hmem, (hstep call cover made a hmade).mpr hla, ?_⟩
    rw [skipField_eq, hmade.typeOf]
    exact ih _ made.selection (.nested call cover hr hlive) hmade.selection (hbelow path hpath)

end

end Gqlforge.PlanPaths

namespace Gqlforge.PlanSkeleton

open Schema Plan Document Builder CollectExpansion Skip PlanPaths PlanTermination Request
open SelectionSets

section

variable {Input : Type}

mutual

theorem skeleton_updateField (field : Field Input) : (AuthPlanner.updateField field).1.skeleton = field.skeleton := by
  match field with
  | { ir := none, .. } => rfl
  | field@{ ir := some ir, selection := fields, .. } =>
    simp only [AuthPlanner.updateField, Field.skeleton, skeletons_updateFields fields]

theorem skeletons_updateFields (fields : List (Field Input)) :
    Field.skeletons (AuthPlanner.updateFields fields).1 = Field.skeletons fields := by
  match fields with
  | [] => rfl
  | field :: rest =>
    simp only [AuthPlanner.updateFields, Field.skeletons, skeleton_updateField field,
      skeletons_updateFields rest]

end

mutual

theorem skeleton_computeField (printer : Printer Input) (interfaces : List String) (field : Field Input) :
    (computeField printer interfaces field).skeleton = field.skeleton := by
  match field with
  | field@{ selection := fields, .. } =>
    simp only [computeField, Field.skeleton, skeletons_computeSelectionSet printer interfaces fields]

theorem skeletons_computeSelectionSet (printer : Printer Input) (interfaces : List String)
    (fields : List (Field Input)) :
    Field.skeletons (computeSelectionSet printer interfaces fields) = Field.skeletons fields := by
  match fields with
  | [] => rfl
  | field :: rest =>
    simp only [computeSelectionSet, Field.skeletons, skeleton_computeField printer interfaces field,
      skeletons_computeSelectionSet printer interfaces rest]

end

mutual

theorem skeleton_skipField (vars : Variables) (field : Field Input) :
    (skipField vars field).skeleton = skipField vars field.skeleton := by
  match field with
  | field@{ selection := fields, .. } =>
    simp only [skipField, Field.skeleton, skeletons_skipFields vars fields]

theorem skeletons_skipFields (vars : Variables) (fields : List (Field Input)) :
    Field.skeletons (skipFields vars fields) = skipFields vars (Field.skeletons fields) := by
  match fields with
  | [] => rfl
  | field :: rest =>
    have hs : field.skeleton.skip vars = field.skip vars := by
      rw [Field.skeleton_eq]
      rfl
    simp only [skipFields, Field.skeletons, hs]
    split
    · exact skeletons_skipFields vars rest
    · simp only [Field.skeletons, skeleton_skipField vars field, skeletons_skipFields vars rest]

end

theorem planTransforms_skeletons (printer : Printer Value) (plan : OperationPlan Value) :
    Field.skeletons (planTransforms printer plan).selection = Field.skeletons plan.selection := by
  calc Field.skeletons (planTransforms printer plan).selection
      = Field.skeletons (AuthPlanner.updateFields plan.selection).1 := by
        exact skeletons_computeSelectionSet printer _ _
    _ = Field.skeletons plan.selection := skeletons_updateFields plan.selection

variable {Output : Type}

theorem mem_skeletons_transfer {fields : List (Field Input)} {fields' : List (Field Output)}
    (h : Field.skeletons fields = Field.skeletons fields') (field : Field Input) (hf : field ∈ fields) :
    ∃ field' ∈ fields', field'.skeleton = field.skeleton := by
  have hm := (Field.mem_skeletons fields field.skeleton).mpr ⟨field, hf, rfl⟩
  rw [h] at hm
  exact (Field.mem_skeletons fields' field.skeleton).mp hm

theorem fieldPath_transfer {α : Type} {step : String → Field Unit → α → Prop} (path : List α) (typeName : String)
    (fields : List (Field Input)) (fields' : List (Field Output)) (h : Field.skeletons fields = Field.skeletons fields')
    (hp : FieldPath step path typeName fields) : FieldPath step path typeName fields' := by
  induction path generalizing typeName fields fields' with
  | nil => trivial
  | cons a path ih =>
    obtain ⟨field, hf, hs, hrest⟩ := hp
    obtain ⟨field', hf', he⟩ := mem_skeletons_transfer h field hf
    refine ⟨field', hf', he ▸ hs, ?_⟩
    rw [Field.skeleton_eq, Field.skeleton_eq, Field.mk.injEq] at he
    obtain ⟨-, -, -, -, htype, -, -, -, -, hselection, -⟩ := he
    rw [htype]
    exact ih _ field.selection field'.selection hselection.symm hrest

theorem fieldPath_congr {α : Type} {step : String → Field Unit → α → Prop} (path : List α)
    (typeName : String) (fields : List (Field Input)) (fields' : List (Field Output))
    (h : Field.skeletons fields = Field.skeletons fields') :
    FieldPath step path typeName fields ↔ FieldPath step path typeName fields' :=
  ⟨fieldPath_transfer path typeName fields fields' h, fieldPath_transfer path typeName fields' fields h.symm⟩

theorem fieldPath_planTransforms {α : Type} {step : String → Field Unit → α → Prop} (printer : Printer Value)
    (vars : Variables) (plan : OperationPlan Value) (path : List α) (typeName : String) :
    FieldPath step path typeName (Skip.transform vars (planTransforms printer plan)).selection ↔
      FieldPath step path typeName (skipFields vars plan.selection) := by
  apply fieldPath_congr
  calc Field.skeletons (skipFields vars (planTransforms printer plan).selection)
      = skipFields vars (Field.skeletons plan.selection) := by
        rw [skeletons_skipFields, planTransforms_skeletons]
    _ = Field.skeletons (skipFields vars plan.selection) := (skeletons_skipFields vars plan.selection).symm

end

theorem build_yields (blueprint : Blueprint) (document : ExecutableDocument) (fuel : Nat)
    (operationName : Option String) (plan : OperationPlan Value) (root : Call)
    (h : build blueprint document fuel operationName = some (.ok plan))
    (hroot : rootCall blueprint document operationName = some root) :
    Yields blueprint.index document.fragments root plan.selection ∧ plan.index = blueprint.index ∧
      plan.rootName = root.typeCondition := by
  simp only [build, rootCall] at h hroot
  cases hg : getOperation document operationName with
  | error e => simp [hg] at hroot
  | ok operation =>
    cases ht : getType blueprint.index operation.ty with
    | none => simp [hg, ht] at hroot
    | some name =>
      simp only [hg, ht, Option.map_some, Option.some.injEq] at hroot
      simp only [hg, ht, Option.map_eq_some_iff, Except.ok.injEq, Prod.exists] at h
      obtain ⟨fields, counters, hc, rfl⟩ := h
      subst hroot
      exact ⟨⟨fuel, ⟨0, 0⟩, counters, hc⟩, rfl, rfl⟩

theorem createPlan_build (frontend : Frontend) (blueprint : Blueprint) (fuel : Nat) (request : Request)
    (document : ExecutableDocument) (plan : OperationPlan Value)
    (h : createPlan frontend blueprint fuel request = some (.ok plan))
    (hdoc : frontend.parse request.query = .ok document) :
    ∃ built, build blueprint document fuel request.operationName = some (.ok built) ∧
      planTransforms frontend.printer built = plan := by
  simp only [createPlan, hdoc, Option.map_eq_some_iff] at h
  obtain ⟨result, hb, hr⟩ := h
  cases result with
  | error e => simp at hr
  | ok built => exact ⟨built, hb, Except.ok.inj hr⟩

end Gqlforge.PlanSkeleton
