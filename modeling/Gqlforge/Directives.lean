import Gqlforge.PlanSkeleton

namespace Gqlforge.Directives

open Json Document Schema Plan Builder Occurrences CollectExpansion PlanPaths
open PlanTermination PlanSkeleton Request

def conditionValue (vars : Variables) (directive : Document.Directive) : Option Bool :=
  match directive.getArgument "if" with
  | some (.boolean value) => some value
  | some (.variable name) => (vars.getKey name).bind ConstValue.asBool
  | _ => none

def excludes (vars : Variables) (directive : Document.Directive) : Bool :=
  directive.name == "skip" && conditionValue vars directive == some true ||
    directive.name == "include" && conditionValue vars directive == some false

def allows (vars : Variables) (directives : List Document.Directive) : Bool :=
  directives.all fun directive => !excludes vars directive

def Condition.value (vars : Variables) : Condition → Option Bool
  | .true => some true
  | .false => some false
  | .variable name => (vars.getKey name).bind ConstValue.asBool

theorem getCondition_value (vars : Variables) (directive : Document.Directive) :
    (getCondition directive).bind (Condition.value vars) = conditionValue vars directive := by
  unfold getCondition conditionValue
  cases directive.getArgument "if" with
  | none => rfl
  | some value =>
    cases value with
    | boolean value => cases value <;> rfl
    | _ => rfl

theorem conditionOf_value (vars : Variables) (directives : List Document.Directive) (name : String)
    (default : Condition) (value : Bool) (hdefault : Condition.value vars default = some !value) :
    Condition.value vars (conditionOf directives name default) = some value ↔
      ∃ found, directives.find? (·.name == name) = some found ∧ conditionValue vars found = some value := by
  unfold conditionOf
  cases directives.find? (·.name == name) with
  | none => simp [hdefault]
  | some found =>
    simp only [Option.bind_some, Option.some.injEq, exists_eq_left', ← getCondition_value]
    cases getCondition found with
    | none => simp [hdefault]
    | some condition => simp

/-- A repeated `@skip` or `@include` excludes the node: only the first of each is looked at. -/
def Overlooked (vars : Variables) (directives : List Document.Directive) : Prop :=
  ∃ directive ∈ directives, excludes vars directive = true ∧
    directives.find? (·.name == directive.name) ≠ some directive

/-- The cases in which the test of the code differs from the specification: `@skip` by a variable that
is not true while `@include` is constantly false, or both by variables with `@skip` true and `@include`
false. -/
def Confused (vars : Variables) (directives : List Document.Directive) : Prop :=
  match (includeOf directives).skip, (includeOf directives).incl with
  | .variable skip, .false => Condition.value vars (.variable skip) ≠ some true
  | .variable skip, .variable incl =>
    Condition.value vars (.variable skip) = some true ∧ Condition.value vars (.variable incl) = some false
  | _, _ => False

theorem excludes_iff (vars : Variables) (directive : Document.Directive) :
    excludes vars directive = true ↔
      directive.name = "skip" ∧ conditionValue vars directive = some true ∨
        directive.name = "include" ∧ conditionValue vars directive = some false := by
  simp [excludes]

theorem first_excludes_iff (vars : Variables) (directives : List Document.Directive) :
    Condition.value vars (includeOf directives).skip = some true ∨
        Condition.value vars (includeOf directives).incl = some false ↔
      ∃ directive, directives.find? (·.name == directive.name) = some directive ∧
        excludes vars directive = true := by
  have hskip := conditionOf_value vars directives "skip" .false true rfl
  have hinclude := conditionOf_value vars directives "include" .true false rfl
  constructor
  · rintro (h | h)
    · obtain ⟨found, hf, hv⟩ := hskip.mp h
      have hname : found.name = "skip" := by simpa using List.find?_some hf
      exact ⟨found, by rw [hname, hf], (excludes_iff vars found).mpr (.inl ⟨hname, hv⟩)⟩
    · obtain ⟨found, hf, hv⟩ := hinclude.mp h
      have hname : found.name = "include" := by simpa using List.find?_some hf
      exact ⟨found, by rw [hname, hf], (excludes_iff vars found).mpr (.inr ⟨hname, hv⟩)⟩
  · rintro ⟨directive, hf, he⟩
    rcases (excludes_iff vars directive).mp he with ⟨hname, hv⟩ | ⟨hname, hv⟩
    · exact .inl (hskip.mpr ⟨directive, hname ▸ hf, hv⟩)
    · exact .inr (hinclude.mpr ⟨directive, hname ▸ hf, hv⟩)

theorem allows_iff (vars : Variables) (directives : List Document.Directive) (h : ¬ Overlooked vars directives) :
    allows vars directives = true ↔
      ¬ Condition.value vars (includeOf directives).skip = some true ∧
        ¬ Condition.value vars (includeOf directives).incl = some false := by
  rw [← not_or, first_excludes_iff]
  simp only [allows, List.all_eq_true, Bool.not_eq_true']
  constructor
  · rintro ha ⟨directive, hf, he⟩
    rw [ha directive (List.mem_of_find?_eq_some hf)] at he
    exact absurd he (by decide)
  · intro hn directive hd
    by_contra he
    refine h ⟨directive, hd, by simpa using he, fun hf => hn ⟨directive, hf, by simpa using he⟩⟩

theorem accepts_iff_allows (vars : Variables) (directives : List Document.Directive)
    (h : ¬ Overlooked vars directives) :
    (accepts vars directives = true ↔ allows vars directives = true) ↔ ¬ Confused vars directives := by
  rw [allows_iff vars directives h]
  have heval : ∀ name default, Field.evalVariable (some name) vars default =
      (Condition.value vars (.variable name)).getD default := fun _ _ => rfl
  cases hs : (includeOf directives).skip with
  | true => simp [accepts, Confused, Conditions.isConstSkip, Condition.value, hs]
  | false =>
    cases hi : (includeOf directives).incl with
    | true => simp [accepts, Confused, Conditions.isConstSkip, Conditions.intoVariableTuple,
        Conditions.variableOf, Condition.value, Field.evalVariable, hs, hi]
    | false => simp [accepts, Confused, Conditions.isConstSkip, Condition.value, hs, hi]
    | «variable» incl =>
      simp only [accepts, Confused, Conditions.isConstSkip, Conditions.intoVariableTuple,
        Conditions.variableOf, hs, hi, heval]
      cases Condition.value vars (.variable incl) with
      | none => simp [Condition.value, Field.evalVariable]
      | some value => cases value <;> simp [Condition.value, Field.evalVariable]
  | «variable» skip =>
    cases hi : (includeOf directives).incl with
    | true | false =>
      simp only [accepts, Confused, Conditions.isConstSkip, Conditions.intoVariableTuple,
        Conditions.variableOf, hs, hi, heval]
      cases Condition.value vars (.variable skip) with
      | none => simp [Condition.value, Field.evalVariable]
      | some value => cases value <;> simp [Condition.value, Field.evalVariable]
    | «variable» incl =>
      simp only [accepts, Confused, Conditions.isConstSkip, Conditions.intoVariableTuple,
        Conditions.variableOf, hs, hi, heval]
      cases Condition.value vars (.variable skip) with
      | none =>
        cases Condition.value vars (.variable incl) with
        | none => simp
        | some value => cases value <;> simp
      | some value =>
        cases Condition.value vars (.variable incl) with
        | none => cases value <;> simp
        | some value' => cases value <;> cases value' <;> simp

section

variable (index : Index) (fragments : Fragments) (vars : Variables)

/-- An occurrence of a field of the schema that the conditions around it and its own let through. -/
structure Selected (occurrence : Occurrence) : Prop where
  isDefined : Occurrence.isDefined index occurrence = true
  guards : ∀ guard ∈ occurrence.guards, allows vars guard.directives = true
  directives : allows vars occurrence.directives = true

def keyStep (_ : Call) (occurrence : Occurrence) (key : String) : Prop :=
  Selected index vars occurrence ∧ occurrence.outputName = key

def posStep (_ : Call) (occurrence : Occurrence) (pos : Pos) : Prop :=
  Selected index vars occurrence ∧ occurrence.pos = pos

def fieldKey (_ : String) (field : Field Unit) (key : String) : Prop :=
  field.outputName = key

def fieldPos (_ : String) (field : Field Unit) (pos : Pos) : Prop :=
  field.pos = pos

/-- The executed fields are those the conditions select: every selected path of response keys is
there, and every field, with the fields around it, stands at positions that are selected. -/
structure Respects (root : Call) (executed : List (Field Value)) : Prop where
  contributes : ∀ path, SelectsPath index fragments (keyStep index vars) path root →
    FieldPath fieldKey path root.typeCondition executed
  justified : ∀ path, FieldPath fieldPos path root.typeCondition executed →
    SelectsPath index fragments (posStep index vars) path root

/-- Wherever the plan leads, no fragment that is entered is excluded, no field that is carried out has
conditions that are confused or overlooked, and a selected field is carried out unless it repeats the
response key of one that is and that selects at least as much. -/
structure Faithful (root : Call) : Prop where
  guards : ∀ call, Reached index fragments vars root call → ∀ occurrence,
    Live index fragments vars call occurrence → ∀ guard ∈ occurrence.guards,
      allows vars guard.directives = true
  conditions : ∀ call, Reached index fragments vars root call → ∀ occurrence,
    Live index fragments vars call occurrence →
      ¬ Overlooked vars occurrence.directives ∧ ¬ Confused vars occurrence.directives
  repeats : ∀ call, Reached index fragments vars root call → ∀ occurrence,
    Occurs fragments call occurrence → Selected index vars occurrence →
      ∃ cover, Live index fragments vars call cover ∧ cover.outputName = occurrence.outputName ∧
        ∀ path, SelectsPath index fragments (keyStep index vars) path (Occurrence.below index occurrence) →
          SelectsPath index fragments (keyStep index vars) path (Occurrence.below index cover)

variable {index fragments vars}

theorem Faithful.selected {root : Call} (h : Faithful index fragments vars root) (call : Call)
    (hr : Reached index fragments vars root call) (occurrence : Occurrence)
    (hlive : Live index fragments vars call occurrence) : Selected index vars occurrence := by
  obtain ⟨hoverlooked, hconfused⟩ := h.conditions call hr occurrence hlive
  exact ⟨hlive.isDefined, h.guards call hr occurrence hlive,
    ((accepts_iff_allows vars occurrence.directives hoverlooked).mpr hconfused).mp hlive.accepted⟩

theorem Faithful.respects {root : Call} (h : Faithful index fragments vars root) (fields : List (Field Value))
    (hy : Yields index fragments root fields) : Respects index fragments vars root (Skip.skipFields vars fields) := by
  constructor
  · intro path hpath
    refine selects_fieldPath (fun _ occurrence key => occurrence.outputName = key)
      (fun call occurrence made key hm => ?_) (fun call hr occurrence key ho hs => ?_) path root fields
      .root hy hpath
    · rw [fieldKey, Skip.skipField_eq, Field.skeleton_eq, hm.outputName]
    · obtain ⟨cover, hlive, hkey, hbelow⟩ := h.repeats call hr occurrence ho hs.1
      exact ⟨cover, hlive, hkey.trans hs.2, hbelow⟩
  · intro path hpath
    refine fieldPath_selects (fun _ occurrence pos => occurrence.pos = pos)
      (fun call occurrence made pos hm => ?_) (fun call hr occurrence pos hlive hp => ?_) path root fields
      .root hy hpath
    · rw [fieldPos, Skip.skipField_eq, Field.skeleton_eq, hm.pos]
    · exact ⟨h.selected call hr occurrence hlive, hp⟩

end

section

variable (fragments : Fragments) (parentFragment : Option String) (typeCondition : String)

theorem occurs_nil (occurrence : Occurrence) : ¬ Occurs fragments ⟨parentFragment, [], typeCondition⟩ occurrence := by
  rintro (_ | _ | _) <;> simp_all

theorem occurs_field (pos : Pos) (alias' : Option String) (name : String)
    (arguments : List (String × Value)) (directives : List Document.Directive)
    (selectionSet : List Selection) (occurrence : Occurrence)
    (h : Occurs fragments ⟨parentFragment, [.field pos alias' name arguments directives selectionSet],
      typeCondition⟩ occurrence) :
    occurrence = fieldOccurrence ⟨parentFragment, [.field pos alias' name arguments directives selectionSet],
      typeCondition⟩ pos alias' name arguments directives selectionSet := by
  cases h with
  | field _ _ _ _ _ _ _ h =>
    simp only [List.mem_singleton, Selection.field.injEq] at h
    obtain ⟨rfl, rfl, rfl, rfl, rfl, rfl⟩ := h
    rfl
  | spread _ _ _ _ _ _ h => simp at h
  | inline _ _ _ _ _ _ h => simp at h

end

def skipAndInclude : List Document.Directive :=
  [⟨"skip", [("if", .variable "s")]⟩, ⟨"include", [("if", .variable "i")]⟩]

def conditionalItem : Selection :=
  .field ⟨1, 3⟩ none "name" [] skipAndInclude []

def excludedItem : Selection :=
  .inlineFragment ⟨1, 3⟩ none [⟨"include", [("if", .boolean false)]⟩] [.field ⟨1, 30⟩ none "name" [] [] []]

def frontendOf (items : List Selection) : Frontend :=
  ⟨fun _ => .ok ⟨.single ⟨.query, [], items⟩, []⟩, ⟨fun _ => "", fun _ => false⟩⟩

def variablesOf (s i : Bool) : Variables :=
  [("s", .boolean s), ("i", .boolean i)]

theorem faithful_conditionalItem :
    Faithful queryBlueprint.index [] (variablesOf false true) ⟨none, [conditionalItem], "Query"⟩ := by
  let root : Call := ⟨none, [conditionalItem], "Query"⟩
  let only : Occurrence := fieldOccurrence root ⟨1, 3⟩ none "name" [] skipAndInclude []
  have hoccurs : ∀ occurrence, Occurs [] root occurrence → occurrence = only :=
    occurs_field [] none "Query" ⟨1, 3⟩ none "name" [] skipAndInclude []
  have hbelow : Occurrence.below queryBlueprint.index only = ⟨none, [], "String"⟩ := rfl
  have hreached : ∀ call, Reached queryBlueprint.index [] (variablesOf false true) root call →
      call = root ∨ call = ⟨none, [], "String"⟩ := by
    intro call hr
    induction hr with
    | root => exact .inl rfl
    | nested call occurrence hr hlive ih =>
      rcases ih with rfl | rfl
      · rw [hoccurs occurrence hlive.occurs]
        exact .inr hbelow
      · exact absurd hlive.occurs (occurs_nil [] none "String" occurrence)
  have honly : ∀ call, Reached queryBlueprint.index [] (variablesOf false true) root call →
      ∀ occurrence, Occurs [] call occurrence → call = root ∧ occurrence = only := by
    intro call hr occurrence ho
    rcases hreached call hr with rfl | rfl
    · exact ⟨rfl, hoccurs occurrence ho⟩
    · exact absurd ho (occurs_nil [] none "String" occurrence)
  have hlive : Live queryBlueprint.index [] (variablesOf false true) root only :=
    ⟨⟨1, [only], rfl, List.mem_cons_self⟩, by decide, by decide⟩
  refine ⟨fun call hr occurrence hl => ?_, fun call hr occurrence hl => ?_, fun call hr occurrence ho _ => ?_⟩
  · obtain ⟨-, rfl⟩ := honly call hr occurrence hl.occurs
    exact fun guard hg => absurd hg List.not_mem_nil
  · obtain ⟨-, rfl⟩ := honly call hr occurrence hl.occurs
    have hskip : ¬ Condition.value (variablesOf false true) (.variable "s") = some true := by decide
    refine ⟨?_, fun hconfused => hskip hconfused.1⟩
    rintro ⟨directive, hd, he, -⟩
    have hall : ∀ directive ∈ skipAndInclude, ¬ excludes (variablesOf false true) directive = true := by
      decide
    exact hall directive hd he
  · obtain ⟨rfl, rfl⟩ := honly call hr occurrence ho
    exact ⟨only, hlive, rfl, fun _ h => h⟩

end Gqlforge.Directives
