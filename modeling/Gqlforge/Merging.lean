import Gqlforge.Directives
import Gqlforge.InputResolver
import Gqlforge.Outcomes
import Gqlforge.Synth

namespace Gqlforge.ObjectKeys

open Json Errors Plan Executor Skip Synth Outcomes

section

variable (formats : Schema.Scalar.Formats) (plan : OperationPlan ConstValue) (vars : Variables) (store : Store)

def written (value : ConstValue) (fields : List (Field ConstValue)) : List (Field ConstValue) :=
  fields.filter fun child => plan.fieldIsPartOfValue child value && !child.skip vars

theorem processFields_keys (dataPath : List Nat) (node : Field ConstValue) (value : ConstValue)
    (fields : List (Field ConstValue)) (path path' : List PathSegment) (entries : Object Output)
    (h : processFields formats plan vars store dataPath node value fields path = .ok (entries, path')) :
    entries.map Prod.fst = (written plan vars value fields).map (·.outputName) := by
  induction fields generalizing path entries with
  | nil =>
    simp only [processFields, pure_eq_ok, Prod.mk.injEq] at h
    rw [← h.1]
    rfl
  | cons child rest ih =>
    rw [written, List.filter_cons]
    by_cases hc : (plan.fieldIsPartOfValue child value && !child.skip vars) = true
    · simp only [processFields, hc, if_true, bind_eq_ok, pure_eq_ok] at h
      obtain ⟨output, next, -, others, last, ho, he⟩ := h
      obtain ⟨rfl, rfl⟩ := Prod.mk.inj he
      rw [if_pos hc, List.map_cons, List.map_cons, ih next others ho]
      rfl
    · simp only [processFields, hc] at h
      rw [if_neg hc]
      exact ih path entries h

theorem iterInner_object (node : Field ConstValue) (dataPath : List Nat) (fields : Object ConstValue)
    (selection : List (Field ConstValue)) (path path' : List PathSegment) (output : Output)
    (hleaf : checkLeaf formats plan vars node (.object fields) = none)
    (h : iterInner formats plan vars node (fun dataPath value =>
      processFields formats plan vars store dataPath node value selection) dataPath (.object fields) path =
        .ok (output, path')) :
    ∃ entries, output = .object entries ∧
      entries.map Prod.fst = (written plan vars (.object fields) selection).map (·.outputName) := by
  simp only [iterInner, hleaf, bind_eq_ok, pure_eq_ok] at h
  obtain ⟨entries, next, hentries, he⟩ := h
  exact ⟨entries, (Prod.mk.inj he).1.symm,
    processFields_keys formats plan vars store dataPath node _ selection path next entries hentries⟩

theorem synthesizeRoot_keys (data result : Object Output) (fields : List (Field ConstValue))
    (path path' : List PathSegment) (hnodup : (data.map Prod.fst).Nodup)
    (h : synthesizeRoot formats plan vars store data fields path = .ok (result, path')) :
    (result.map Prod.fst).Nodup ∧ ∀ key, key ∈ result.map Prod.fst ↔
      key ∈ data.map Prod.fst ∨ key ∈ (skipFields vars fields).map (·.outputName) := by
  induction fields generalizing data path with
  | nil =>
    simp only [synthesizeRoot, pure_eq_ok, Prod.mk.injEq] at h
    rw [← h.1]
    exact ⟨hnodup, fun key => by simp [skipFields]⟩
  | cons child rest ih =>
    by_cases hs : child.skip vars = true
    · simp only [synthesizeRoot, hs, if_true] at h
      rw [skipFields, if_pos hs]
      exact ih data path hnodup h
    · rw [synthesizeRoot, if_neg hs] at h
      simp only [bind_eq_ok] at h
      obtain ⟨output, next, -, hrest⟩ := h
      have hinserted := Object.nodup_insertKey data child.outputName output hnodup
      obtain ⟨hresult, hkeys⟩ := ih (data.insertKey child.outputName output) next hinserted hrest
      refine ⟨hresult, fun key => ?_⟩
      rw [hkeys, Object.mem_insertKey, skipFields, if_neg hs, List.map_cons, List.mem_cons, skipField_eq,
        or_assoc, or_left_comm]

theorem synthesize_keys (output : Output) (h : synthesize formats plan vars store = .ok output) :
    ∃ data, output = .object data ∧ (data.map Prod.fst).Nodup ∧
      ∀ key, key ∈ data.map Prod.fst ↔ key ∈ (skipFields vars plan.selection).map (·.outputName) := by
  unfold synthesize at h
  cases hr : (synthesizeRoot formats plan vars store [] plan.selection).run [] with
  | error failure =>
    rw [hr] at h
    exact absurd h (by simp [Except.map])
  | ok result =>
    obtain ⟨data, path⟩ := result
    rw [hr] at h
    simp only [Except.map, Except.ok.injEq] at h
    obtain ⟨hnodup, hkeys⟩ := synthesizeRoot_keys formats plan vars store [] data plan.selection [] path
      (by simp) hr
    exact ⟨data, h.symm, hnodup, fun key => by simpa using hkeys key⟩

end

end Gqlforge.ObjectKeys

namespace Gqlforge.Merging

open Json Document Schema Plan Builder Occurrences CollectExpansion PlanPaths Skip
open PlanTermination PlanSkeleton Request Directives InputResolver Synth ObjectKeys
open Relation

section

variable (index : Index) (fragments : Fragments) (vars : Variables)

def isObject (typeName : String) : Bool :=
  match index.definition typeName with
  | some (.object _ _ _) => true
  | _ => false

def Concrete (typeName : String) : Option String → Prop
  | some tag => isObject index tag = true ∧ index.isTypeImplements tag typeName = true
  | none => isObject index typeName = true

def applies (tag typeCondition : Option String) : Bool :=
  match typeCondition, tag with
  | some typeCondition, some tag => index.isTypeImplements tag typeCondition
  | _, _ => true

def emitted {Input : Type} (tag : Option String) (fields : List (Field Input)) : List (Field Input) :=
  fields.filter fun field => applies index tag field.typeCondition

structure SelectedFor (call : Call) (tag : Option String) (occurrence : Occurrence) : Prop where
  occurs : Occurs fragments call occurrence
  selected : Selected index vars occurrence
  guards : ∀ guard ∈ occurrence.guards, ∀ typeCondition ∈ guard.typeCondition,
    index.isTypeImplements (tag.getD call.typeCondition) typeCondition = true

def selectStep (call : Call) (occurrence : Occurrence) (label : Option String × String) : Prop :=
  Concrete index call.typeCondition label.1 ∧ SelectedFor index fragments vars call label.1 occurrence ∧
    occurrence.outputName = label.2

def emitStep (typeName : String) (field : Field Unit) (label : Option String × String) : Prop :=
  Concrete index typeName label.1 ∧ applies index label.1 field.typeCondition = true ∧
    field.outputName = label.2

abbrev Selects (path : List (Option String × String)) (call : Call) : Prop :=
  SelectsPath index fragments (selectStep index fragments vars) path call

abbrev Emits {Input : Type} (path : List (Option String × String)) (typeName : String)
    (fields : List (Field Input)) : Prop :=
  FieldPath (emitStep index) path typeName fields

/-- The fields of an object have the response keys that are selected for it, and below each is what is
selected below all occurrences of its key. -/
structure Merged (call : Call) (tag : Option String) (fields : List (Field Value)) : Prop where
  keys : ∀ key, key ∈ (emitted index tag fields).map (·.outputName) ↔
    ∃ occurrence, SelectedFor index fragments vars call tag occurrence ∧ occurrence.outputName = key
  selections : ∀ field ∈ emitted index tag fields, ∀ path,
    Emits index path field.typeOf.name field.selection ↔
      ∃ occurrence, SelectedFor index fragments vars call tag occurrence ∧
        occurrence.outputName = field.outputName ∧
        Selects index fragments vars path (Occurrence.below index occurrence)

def Once {Input : Type} (tag : Option String) (fields : List (Field Input)) : Prop :=
  ((emitted index tag fields).map (·.outputName)).Nodup

/-- Every selected key has an occurrence that is carried out, and each of these selects below it what
all selected occurrences of its key do together. -/
structure Mergeable (call : Call) (tag : Option String) : Prop where
  covered : ∀ occurrence, SelectedFor index fragments vars call tag occurrence →
    ∃ live, Live index fragments vars call live ∧ applies index tag (some live.call.typeCondition) = true ∧
      live.outputName = occurrence.outputName
  whole : ∀ live, Live index fragments vars call live →
    applies index tag (some live.call.typeCondition) = true →
    ∀ path, Selects index fragments vars path (Occurrence.below index live) ↔
      ∃ occurrence, SelectedFor index fragments vars call tag occurrence ∧
        occurrence.outputName = live.outputName ∧
        Selects index fragments vars path (Occurrence.below index occurrence)

def isCarried (tag : Option String) (occurrence : Occurrence) : Bool :=
  accepts vars occurrence.directives && Occurrence.isDefined index occurrence &&
    applies index tag (some occurrence.call.typeCondition)

def Distinct (call : Call) (tag : Option String) : Prop :=
  ∀ fuel occurrences, kept fragments fuel call = some occurrences →
    ((occurrences.filter (isCarried index vars tag)).map (·.outputName)).Nodup

def Inside (call call' : Call) : Prop :=
  ∃ occurrence, Live index fragments vars call occurrence ∧ call' = Occurrence.below index occurrence

def Child (level level' : Call × List (Field Value)) : Prop :=
  ∃ occurrence, Live index fragments vars level.1 occurrence ∧
    ∃ field ∈ level.2, Made index fragments occurrence field ∧
      level' = (Occurrence.below index occurrence, field.selection)

/-- At the root no type is looked at and a repeated key is written once; everywhere below it the objects
of each type have each selected key once. -/
structure Collects (root : Call) (fields : List (Field Value)) : Prop where
  top : Merged index fragments vars root none (skipFields vars fields)
  nested : ∀ level, TransGen (Child index fragments vars) (root, fields) level →
    ∀ tag, Concrete index level.1.typeCondition tag →
      Merged index fragments vars level.1 tag (skipFields vars level.2) ∧
        Once index tag (skipFields vars level.2)

structure Foldable (root : Call) : Prop where
  top : Mergeable index fragments vars root none
  nested : ∀ call, TransGen (Inside index fragments vars) root call →
    ∀ tag, Concrete index call.typeCondition tag →
      Mergeable index fragments vars call tag ∧ Distinct index fragments vars call tag

end

section

variable {index : Index} {fragments : Fragments} {vars : Variables}

variable {Input : Type}

theorem fieldIsPartOfValue_eq (plan : OperationPlan Input) (field : Field Input) (value : ConstValue) :
    plan.fieldIsPartOfValue field value = applies plan.index value.getTypeName field.typeCondition := by
  unfold OperationPlan.fieldIsPartOfValue applies
  cases field.typeCondition with
  | none => rfl
  | some typeCondition => cases value.getTypeName <;> rfl

variable {call : Call} {fields : List (Field Value)}

theorem inside_child {call' : Call}
    (hy : Yields index fragments call fields) (h : Inside index fragments vars call call') :
    ∃ fields', Child index fragments vars (call, fields) (call', fields') := by
  obtain ⟨occurrence, hlive, rfl⟩ := h
  obtain ⟨made, hm, hmade, -⟩ := live_made hy occurrence hlive
  exact ⟨made.selection, occurrence, hlive, made, hm, hmade, rfl⟩

theorem child_inside {level level' : Call × List (Field Value)} (h : Child index fragments vars level level') :
    Inside index fragments vars level.1 level'.1 ∧ Yields index fragments level'.1 level'.2 := by
  obtain ⟨occurrence, hlive, field, -, hmade, rfl⟩ := h
  exact ⟨⟨occurrence, hlive, rfl⟩, hmade.selection⟩

theorem children_inside {level level' : Call × List (Field Value)}
    (h : TransGen (Child index fragments vars) level level') :
    TransGen (Inside index fragments vars) level.1 level'.1 ∧ Yields index fragments level'.1 level'.2 := by
  induction h with
  | single h => exact ⟨.single (child_inside h).1, (child_inside h).2⟩
  | tail _ h ih => exact ⟨ih.1.tail (child_inside h).1, (child_inside h).2⟩

theorem inside_children {root : Call}
    (hy : Yields index fragments root fields) (h : TransGen (Inside index fragments vars) root call) :
    ∃ fields', TransGen (Child index fragments vars) (root, fields) (call, fields') := by
  induction h with
  | single h =>
    obtain ⟨fields', hc⟩ := inside_child hy h
    exact ⟨fields', .single hc⟩
  | tail _ h ih =>
    obtain ⟨fields', hc⟩ := ih
    obtain ⟨fields'', hc'⟩ := inside_child (children_inside hc).2 h
    exact ⟨fields'', hc.tail hc'⟩

theorem mem_emitted (tag : Option String) (fields : List (Field Input)) (field : Field Input) :
    field ∈ emitted index tag fields ↔ field ∈ fields ∧ applies index tag field.typeCondition = true :=
  List.mem_filter

theorem emits_cons (label : Option String × String) (path : List (Option String × String))
    (typeName : String) (fields : List (Field Input)) :
    Emits index (label :: path) typeName fields ↔
      Concrete index typeName label.1 ∧ ∃ field ∈ emitted index label.1 fields,
        field.outputName = label.2 ∧ Emits index path field.typeOf.name field.selection := by
  have hstep (field : Field Input) : emitStep index typeName field.skeleton label ↔
      Concrete index typeName label.1 ∧ applies index label.1 field.typeCondition = true ∧
        field.outputName = label.2 := by
    rw [Field.skeleton_eq]
    rfl
  constructor
  · rintro ⟨field, hf, hs, hpath⟩
    obtain ⟨hconcrete, happlies, hkey⟩ := (hstep field).mp hs
    exact ⟨hconcrete, field, (mem_emitted label.1 fields field).mpr ⟨hf, happlies⟩, hkey, hpath⟩
  · rintro ⟨hconcrete, field, hf, hkey, hpath⟩
    obtain ⟨hf, happlies⟩ := (mem_emitted label.1 fields field).mp hf
    exact ⟨field, hf, (hstep field).mpr ⟨hconcrete, happlies, hkey⟩, hpath⟩

theorem selects_cons (label : Option String × String) (path : List (Option String × String)) (call : Call) :
    Selects index fragments vars (label :: path) call ↔
      Concrete index call.typeCondition label.1 ∧ ∃ occurrence,
        SelectedFor index fragments vars call label.1 occurrence ∧ occurrence.outputName = label.2 ∧
          Selects index fragments vars path (Occurrence.below index occurrence) := by
  constructor
  · rintro ⟨occurrence, -, ⟨hconcrete, hselected, hkey⟩, hpath⟩
    exact ⟨hconcrete, occurrence, hselected, hkey, hpath⟩
  · rintro ⟨hconcrete, occurrence, hselected, hkey, hpath⟩
    exact ⟨occurrence, hselected.occurs, ⟨hconcrete, hselected, hkey⟩, hpath⟩

theorem mem_emitted_skipFields (hy : Yields index fragments call fields) (tag : Option String) (field : Field Value) :
    field ∈ emitted index tag (skipFields vars fields) → ∃ live, Live index fragments vars call live ∧
      applies index tag (some live.call.typeCondition) = true ∧
      ∃ made ∈ fields, Made index fragments live made ∧ field = skipField vars made := by
  intro hf
  obtain ⟨hf, happlies⟩ := (mem_emitted tag _ field).mp hf
  obtain ⟨live, hlive, made, hm, hmade, rfl⟩ := executed_live hy field hf
  rw [skipField_eq, hmade.typeCondition] at happlies
  exact ⟨live, hlive, happlies, made, hm, hmade, rfl⟩

theorem live_emitted (hy : Yields index fragments call fields) (tag : Option String) (live : Occurrence)
    (hlive : Live index fragments vars call live) (happlies : applies index tag (some live.call.typeCondition) = true) :
    ∃ made ∈ fields, Made index fragments live made ∧
      skipField vars made ∈ emitted index tag (skipFields vars fields) := by
  obtain ⟨made, hm, hmade, hmem⟩ := live_executed hy live hlive
  refine ⟨made, hm, hmade, (mem_emitted tag _ _).mpr ⟨hmem, ?_⟩⟩
  rw [skipField_eq, hmade.typeCondition]
  exact happlies

theorem merged_iff (hy : Yields index fragments call fields) (tag : Option String)
    (hbelow : ∀ live, Live index fragments vars call live → ∀ made ∈ fields, Made index fragments live made →
      ∀ path, Emits index path (Occurrence.below index live).typeCondition (skipFields vars made.selection) ↔
        Selects index fragments vars path (Occurrence.below index live)) :
    Merged index fragments vars call tag (skipFields vars fields) ↔
      Mergeable index fragments vars call tag := by
  have hemits (live : Occurrence) (hlive : Live index fragments vars call live) (made : Field Value)
      (hm : made ∈ fields) (hmade : Made index fragments live made) (path : List (Option String × String)) :
      Emits index path (skipField vars made).typeOf.name (skipField vars made).selection ↔
        Selects index fragments vars path (Occurrence.below index live) := by
    rw [skipField_eq, hmade.typeOf]
    exact hbelow live hlive made hm hmade path
  have hkey (live : Occurrence) (made : Field Value) (hmade : Made index fragments live made) :
      (skipField vars made).outputName = live.outputName := by
    rw [skipField_eq, hmade.outputName]
  constructor
  · intro h
    constructor
    · intro occurrence hselected
      have hmem := (h.keys occurrence.outputName).mpr ⟨occurrence, hselected, rfl⟩
      obtain ⟨field, hf, hname⟩ := List.mem_map.mp hmem
      obtain ⟨live, hlive, happlies, made, -, hmade, rfl⟩ := mem_emitted_skipFields hy tag field hf
      exact ⟨live, hlive, happlies, (hkey live made hmade).symm.trans hname⟩
    · intro live hlive happlies path
      obtain ⟨made, hm, hmade, hmem⟩ := live_emitted hy tag live hlive happlies
      rw [← hemits live hlive made hm hmade path, ← hkey live made hmade]
      exact h.selections _ hmem path
  · intro h
    constructor
    · intro key
      constructor
      · intro hmem
        obtain ⟨field, hf, rfl⟩ := List.mem_map.mp hmem
        obtain ⟨live, hlive, happlies, made, -, hmade, rfl⟩ := mem_emitted_skipFields hy tag field hf
        obtain ⟨occurrence, hselected, hname, -⟩ := (h.whole live hlive happlies []).mp trivial
        exact ⟨occurrence, hselected, hname.trans (hkey live made hmade).symm⟩
      · rintro ⟨occurrence, hselected, rfl⟩
        obtain ⟨live, hlive, happlies, hname⟩ := h.covered occurrence hselected
        obtain ⟨made, -, hmade, hmem⟩ := live_emitted hy tag live hlive happlies
        exact List.mem_map.mpr ⟨_, hmem, (hkey live made hmade).trans hname⟩
    · intro field hf path
      obtain ⟨live, hlive, happlies, made, hm, hmade, rfl⟩ := mem_emitted_skipFields hy tag field hf
      rw [hemits live hlive made hm hmade path, hkey live made hmade]
      exact h.whole live hlive happlies path

theorem emits_of_mergeable (path : List (Option String × String)) (call : Call) (fields : List (Field Value))
    (hy : Yields index fragments call fields)
    (h : ∀ call', ReflTransGen (Inside index fragments vars) call call' →
      ∀ tag, Concrete index call'.typeCondition tag → Mergeable index fragments vars call' tag) :
    Emits index path call.typeCondition (skipFields vars fields) ↔ Selects index fragments vars path call := by
  induction path generalizing call fields with
  | nil => exact Iff.rfl
  | cons label path ih =>
    rw [emits_cons, selects_cons]
    apply and_congr_right
    intro hconcrete
    have hm := h call .refl label.1 hconcrete
    have hnext (live : Occurrence) (hlive : Live index fragments vars call live) (made : Field Value)
        (hmade : Made index fragments live made) :
        Emits index path (skipField vars made).typeOf.name (skipField vars made).selection ↔
          Selects index fragments vars path (Occurrence.below index live) := by
      rw [skipField_eq, hmade.typeOf]
      apply ih _ made.selection hmade.selection
      intro call' hr
      exact h call' (.head ⟨live, hlive, rfl⟩ hr)
    constructor
    · rintro ⟨field, hf, hkey, hpath⟩
      obtain ⟨live, hlive, happlies, made, -, hmade, rfl⟩ := mem_emitted_skipFields hy label.1 field hf
      have hselects := (hnext live hlive made hmade).mp hpath
      obtain ⟨occurrence, hselected, hname, hbelow⟩ := (hm.whole live hlive happlies path).mp hselects
      rw [skipField_eq, hmade.outputName] at hkey
      exact ⟨occurrence, hselected, hname.trans hkey, hbelow⟩
    · rintro ⟨occurrence, hselected, hkey, hbelow⟩
      obtain ⟨live, hlive, happlies, hname⟩ := hm.covered occurrence hselected
      have hselects := (hm.whole live hlive happlies path).mpr ⟨occurrence, hselected, hname.symm, hbelow⟩
      obtain ⟨made, -, hmade, hmem⟩ := live_emitted hy label.1 live hlive happlies
      refine ⟨skipField vars made, hmem, ?_, (hnext live hlive made hmade).mpr hselects⟩
      rw [skipField_eq, hmade.outputName, hname, hkey]

theorem emits_of_merged (path : List (Option String × String)) (call : Call) (fields : List (Field Value))
    (h : ∀ tag, Concrete index call.typeCondition tag → Merged index fragments vars call tag (skipFields vars fields)) :
    Emits index path call.typeCondition (skipFields vars fields) ↔ Selects index fragments vars path call := by
  cases path with
  | nil => exact Iff.rfl
  | cons label path =>
    rw [emits_cons, selects_cons]
    apply and_congr_right
    intro hconcrete
    have hm := h label.1 hconcrete
    constructor
    · rintro ⟨field, hf, hkey, hpath⟩
      rw [← hkey]
      exact (hm.selections field hf path).mp hpath
    · rintro ⟨occurrence, hselected, hkey, hbelow⟩
      obtain ⟨field, hf, hname⟩ := List.mem_map.mp ((hm.keys label.2).mpr ⟨occurrence, hselected, hkey⟩)
      exact ⟨field, hf, hname, (hm.selections field hf path).mpr
        ⟨occurrence, hselected, hkey.trans hname.symm, hbelow⟩⟩

theorem once_iff (hy : Yields index fragments call fields) (tag : Option String) :
    Once index tag (skipFields vars fields) ↔ Distinct index fragments vars call tag := by
  obtain ⟨fuel, occurrences, hk, made, hp, hall⟩ := yields_matches index fragments call fields hy
  let isMade (field : Field Value) : Bool := !field.skip vars && applies index tag field.typeCondition
  have hemitted : (emitted index tag (skipFields vars fields)).map (·.outputName) =
      (fields.filter isMade).map (·.outputName) := by
    rw [emitted, skipFields_eq, List.filter_map, List.map_map, List.filter_filter]
    have hname : (fun field : Field Value => field.outputName) ∘ skipField vars = (·.outputName) := by
      funext field
      rw [Function.comp_apply, skipField_eq]
    have hfilter : (fun field : Field Value => ((fun field => applies index tag field.typeCondition) ∘
        skipField vars) field && !field.skip vars) = isMade := by
      funext field
      rw [Function.comp_apply, skipField_eq, Bool.and_comm]
    rw [hname, hfilter]
  let isAccepted (occurrence : Occurrence) : Bool :=
    !(Field.evalVariable (includeOf occurrence.directives).intoVariableTuple.2 vars false ==
      Field.evalVariable (includeOf occurrence.directives).intoVariableTuple.1 vars true) &&
        applies index tag (some occurrence.call.typeCondition)
  have hcarried : occurrences.filter (isCarried index vars tag) =
      (occurrences.filter (Occurrence.isPlanned index)).filter isAccepted := by
    rw [List.filter_filter]
    congr 1
    funext occurrence
    simp only [isCarried, isAccepted, accepts, Occurrence.isPlanned]
    cases (includeOf occurrence.directives).isConstSkip <;> cases Occurrence.isDefined index occurrence <;> simp
  have hnames : (occurrences.filter (isCarried index vars tag)).map (·.outputName) =
      (made.filter isMade).map (·.outputName) := by
    rw [hcarried, ← List.forall₂_eq_eq_eq, List.forall₂_map_left_iff, List.forall₂_map_right_iff]
    have hfilter := @forall₂_filter _ _ _ isAccepted isMade ?_ _ _ hall
    · exact hfilter.imp fun occurrence field hmade => hmade.outputName.symm
    · intro occurrence field hmade
      simp only [isAccepted, isMade, made_skip hmade, hmade.typeCondition]
  have hperm : ((made.filter isMade).map (·.outputName)).Perm ((fields.filter isMade).map (·.outputName)) :=
    (hp.filter isMade).map _
  rw [Once, hemitted, ← hperm.nodup_iff, ← hnames]
  constructor
  · intro h fuel' occurrences' hk'
    rw [kept_unique fuel' fuel call occurrences' occurrences hk' hk]
    exact h
  · intro h
    exact h fuel occurrences hk

theorem collects_iff {root : Call} (hy : Yields index fragments root fields) :
    Collects index fragments vars root fields ↔ Foldable index fragments vars root := by
  constructor
  · intro h
    have hbelow (level : Call × List (Field Value))
        (hl : ReflTransGen (Child index fragments vars) (root, fields) level) (live : Occurrence)
        (hlive : Live index fragments vars level.1 live) (made : Field Value) (hm : made ∈ level.2)
        (hmade : Made index fragments live made) (path : List (Option String × String)) :
        Emits index path (Occurrence.below index live).typeCondition (skipFields vars made.selection) ↔
          Selects index fragments vars path (Occurrence.below index live) := by
      apply emits_of_merged
      intro tag hconcrete
      have hchild : Child index fragments vars level (Occurrence.below index live, made.selection) :=
        ⟨live, hlive, made, hm, hmade, rfl⟩
      exact (h.nested _ (TransGen.tail' hl hchild) tag hconcrete).1
    constructor
    · exact (merged_iff hy none (hbelow (root, fields) .refl)).mp h.top
    · intro call hc tag hconcrete
      obtain ⟨fields', hl⟩ := inside_children hy hc
      have hy' := (children_inside hl).2
      obtain ⟨hmerged, honce⟩ := h.nested _ hl tag hconcrete
      exact ⟨(merged_iff hy' tag (hbelow _ hl.to_reflTransGen)).mp hmerged, (once_iff hy' tag).mp honce⟩
  · intro h
    have hbelow (level : Call × List (Field Value))
        (hl : ReflTransGen (Child index fragments vars) (root, fields) level) (live : Occurrence)
        (hlive : Live index fragments vars level.1 live) (made : Field Value) (hm : made ∈ level.2)
        (hmade : Made index fragments live made) (path : List (Option String × String)) :
        Emits index path (Occurrence.below index live).typeCondition (skipFields vars made.selection) ↔
          Selects index fragments vars path (Occurrence.below index live) := by
      apply emits_of_mergeable path _ made.selection hmade.selection
      intro call hc tag hconcrete
      have hchild : Child index fragments vars level (Occurrence.below index live, made.selection) :=
        ⟨live, hlive, made, hm, hmade, rfl⟩
      have hfirst := (children_inside (TransGen.tail' hl hchild)).1
      exact (h.nested call (hfirst.trans_left hc) tag hconcrete).1
    constructor
    · exact (merged_iff hy none (hbelow (root, fields) .refl)).mpr h.top
    · intro level hl tag hconcrete
      obtain ⟨hc, hy'⟩ := children_inside hl
      obtain ⟨hmergeable, hdistinct⟩ := h.nested level.1 hc tag hconcrete
      exact ⟨(merged_iff hy' tag (hbelow level hl.to_reflTransGen)).mpr hmergeable,
        (once_iff hy' tag).mpr hdistinct⟩

theorem emitted_skipFields_none (fields : List (Field Input)) :
    emitted index none (skipFields vars fields) = skipFields vars fields := by
  rw [emitted, List.filter_eq_self]
  intro field _
  unfold applies
  cases field.typeCondition <;> rfl

theorem written_keys (plan : OperationPlan ConstValue) (value : ConstValue) (fields : List (Field ConstValue)) :
    (written plan vars value fields).map (·.outputName) =
      (emitted plan.index value.getTypeName (skipFields vars fields)).map (·.outputName) := by
  rw [emitted, skipFields_eq, List.filter_map, List.map_map, List.filter_filter, written]
  have hname : (fun field : Field ConstValue => field.outputName) ∘ skipField vars = (·.outputName) := by
    funext field
    rw [Function.comp_apply, skipField_eq]
  have hfilter : (fun field : Field ConstValue => ((fun field =>
      applies plan.index value.getTypeName field.typeCondition) ∘ skipField vars) field && !field.skip vars) =
        fun field => plan.fieldIsPartOfValue field value && !field.skip vars := by
    funext field
    rw [Function.comp_apply, skipField_eq, fieldIsPartOfValue_eq]
  rw [hname, hfilter]

end

structure Writes (plan : OperationPlan ConstValue) (vars : Variables) : Prop where
  top : ∀ formats store output, synthesize formats plan vars store = .ok output →
    ∃ data, output = .object data ∧ (data.map Prod.fst).Nodup ∧
      ∀ key, key ∈ data.map Prod.fst ↔
        key ∈ (emitted plan.index none (skipFields vars plan.selection)).map (·.outputName)
  nested : ∀ formats store node dataPath fields path path' output,
    checkLeaf formats plan vars node (.object fields) = none →
    iterInner formats plan vars node (fun dataPath value =>
      processFields formats plan vars store dataPath node value node.selection) dataPath (.object fields) path =
        .ok (output, path') →
    ∃ entries, output = .object entries ∧ entries.map Prod.fst =
      (emitted plan.index (ConstValue.object fields).getTypeName (skipFields vars node.selection)).map
        (·.outputName)

theorem plan_writes (plan : OperationPlan ConstValue) (vars : Variables) : Writes plan vars := by
  constructor
  · intro formats store output h
    rw [emitted_skipFields_none]
    exact synthesize_keys formats plan vars store output h
  · intro formats store node dataPath fields path path' output hleaf h
    rw [← written_keys]
    exact iterInner_object formats plan vars store node dataPath fields node.selection path path' output hleaf h

def nameItem : Selection :=
  .field ⟨1, 3⟩ none "name" [] [] []

theorem foldable_nameItem : Foldable queryBlueprint.index [] [] ⟨none, [nameItem], "Query"⟩ := by
  let root : Call := ⟨none, [nameItem], "Query"⟩
  let only : Occurrence := fieldOccurrence root ⟨1, 3⟩ none "name" [] [] []
  have hoccurs : ∀ occurrence, Occurs [] root occurrence → occurrence = only :=
    occurs_field [] none "Query" ⟨1, 3⟩ none "name" [] [] []
  have hbelow : Occurrence.below queryBlueprint.index only = ⟨none, [], "String"⟩ := rfl
  have hinside : ∀ call, TransGen (Inside queryBlueprint.index [] []) root call →
      call = ⟨none, [], "String"⟩ := by
    intro call h
    induction h with
    | single h =>
      obtain ⟨occurrence, hlive, rfl⟩ := h
      rw [hoccurs occurrence hlive.occurs, hbelow]
    | tail _ h ih =>
      obtain ⟨occurrence, hlive, rfl⟩ := h
      rw [ih] at hlive
      exact absurd hlive.occurs (occurs_nil [] none "String" occurrence)
  constructor
  · have hselected : SelectedFor queryBlueprint.index [] [] root none only := by
      refine ⟨.field root _ _ _ _ _ _ List.mem_cons_self, ⟨by decide, ?_, by decide⟩, ?_⟩
      · intro guard hg
        exact absurd hg List.not_mem_nil
      · intro guard hg
        exact absurd hg List.not_mem_nil
    constructor
    · intro occurrence h
      rw [hoccurs occurrence h.occurs]
      exact ⟨only, ⟨⟨1, [only], rfl, List.mem_cons_self⟩, by decide, by decide⟩, rfl, rfl⟩
    · intro live hlive _ path
      rw [hoccurs live hlive.occurs]
      constructor
      · intro h
        exact ⟨only, hselected, rfl, h⟩
      · rintro ⟨occurrence, h, -, hpath⟩
        rw [hoccurs occurrence h.occurs] at hpath
        exact hpath
  · intro call hc tag _
    rw [hinside call hc]
    refine ⟨⟨?_, ?_⟩, ?_⟩
    · intro occurrence h
      exact absurd h.occurs (occurs_nil [] none "String" occurrence)
    · intro live hlive
      exact absurd hlive.occurs (occurs_nil [] none "String" live)
    · intro fuel occurrences hk
      have hnil : kept [] 1 ⟨none, [], "String"⟩ = some [] := rfl
      rw [kept_unique fuel 1 _ occurrences [] hk hnil]
      exact List.nodup_nil

def userBlueprint : Blueprint :=
  ⟨[.object "Query" [⟨"user", [], .named "User" false, none⟩] [],
    .object "User" [⟨"name", [], .named "String" false, none⟩, ⟨"age", [], .named "Int" false, none⟩] []],
    ⟨"Query", none, none⟩⟩

def userItem (items : List Selection) : Selection :=
  .field ⟨1, 3⟩ none "user" [] [] items

def ageItem : Selection :=
  .field ⟨1, 25⟩ none "age" [] [] []

def onUser (items : List Selection) : Selection :=
  .inlineFragment ⟨1, 10⟩ (some "User") [] items

end Gqlforge.Merging
