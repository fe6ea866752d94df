import Gqlforge.SynthesisTypes

namespace Gqlforge.StackTraces

inductive Event (σ φ : Type) where
  | left
  | failed (failure : φ) (path : List σ)

variable {σ φ ε α β : Type}

def firstFailure : List (Event σ φ) → Option (ℕ × φ × List σ)
  | [] => none
  | .left :: events => (firstFailure events).map fun (left, found) => (left + 1, found)
  | .failed failure path :: _ => some (0, failure, path)

/-- The stack has `left` entries more than the path, and without such entries is the path. -/
def Drift (left : ℕ) (stack path : List σ) : Prop :=
  stack.length = path.length + left ∧ (left = 0 → stack = path)

theorem drift_self (path : List σ) : Drift 0 path path :=
  ⟨rfl, fun _ => rfl⟩

variable {left : ℕ} {stack path : List σ}

theorem Drift.push (h : Drift left stack path) (entry : σ) : Drift left (stack ++ [entry]) (path ++ [entry]) := by
  refine ⟨?_, fun hz => by rw [h.2 hz]⟩
  have hl := h.1
  simp only [List.length_append, List.length_singleton]
  omega

theorem Drift.pop {entry : σ} (h : Drift left stack (path ++ [entry])) : Drift left stack.dropLast path := by
  refine ⟨?_, fun hz => by rw [h.2 hz, List.dropLast_concat]⟩
  have hl := h.1
  simp only [List.length_append, List.length_singleton] at hl
  rw [List.length_dropLast]
  omega

theorem Drift.leave {entry : σ} (h : Drift left stack (path ++ [entry])) : Drift (left + 1) stack path := by
  refine ⟨?_, fun hz => absurd hz (by omega)⟩
  have hl := h.1
  simp only [List.length_append, List.length_singleton] at hl
  omega

theorem Drift.eq_iff (h : Drift left stack path) : stack = path ↔ left = 0 := by
  constructor
  · rintro rfl
    have hl := h.1
    omega
  · exact h.2

section Runs

variable (report : φ → List σ → ε)

/-- The result of a run is what the events say, with a stack that drifts by the entries left. -/
def Follows (finish : List σ) (result : Except ε (α × List σ)) : ℕ → List (Event σ φ) → Prop
  | left, [] => ∃ a stack, result = .ok (a, stack) ∧ Drift left stack finish
  | left, .left :: events => Follows finish result (left + 1) events
  | left, .failed failure path :: _ => ∃ stack, result = .error (report failure stack) ∧ Drift left stack path

def Traces (run : StateT (List σ) (Except ε) α) (start finish : List σ) (events : List (Event σ φ)) : Prop :=
  ∀ left stack, Drift left stack start → Follows report finish (run.run stack) left events

variable {report}

theorem follows_firstFailure (finish : List σ) (result : Except ε (α × List σ)) (left : ℕ)
    (events : List (Event σ φ)) (h : Follows report finish result left events) :
    match firstFailure events with
    | none => ∃ a stack, result = .ok (a, stack)
    | some (more, failure, path) =>
      ∃ stack, result = .error (report failure stack) ∧ Drift (left + more) stack path := by
  induction events generalizing left with
  | nil =>
    obtain ⟨a, stack, rfl, _⟩ := h
    exact ⟨a, stack, rfl⟩
  | cons event events ih =>
    cases event with
    | left =>
      have hrest := ih (left + 1) h
      rw [firstFailure]
      cases hf : firstFailure events with
      | none =>
        rw [hf] at hrest
        exact hrest
      | some found =>
        rw [hf] at hrest
        obtain ⟨stack, hr, hd⟩ := hrest
        refine ⟨stack, hr, ?_⟩
        rwa [Nat.add_right_comm] at hd
    | failed failure path => exact h

theorem traces_pure (a : α) (path : List σ) : Traces report (pure a : StateT (List σ) (Except ε) α) path path [] :=
  fun _ stack h => ⟨a, stack, rfl, h⟩

theorem traces_bind {run : StateT (List σ) (Except ε) α} {next : α → StateT (List σ) (Except ε) β}
    {start middle finish : List σ} {events rest : List (Event σ φ)} (h : Traces report run start middle events)
    (hn : ∀ a, Traces report (next a) middle finish rest) :
    Traces report (run >>= next) start finish (events ++ rest) := by
  intro left stack hd
  have hrun := h left stack hd
  change Follows report finish ((run.run stack).bind fun result => (next result.1).run result.2) left (events ++ rest)
  generalize run.run stack = result at hrun
  clear hd h
  induction events generalizing left with
  | nil =>
    obtain ⟨a, stack', rfl, hd'⟩ := hrun
    exact hn a left stack' hd'
  | cons event events ih =>
    cases event with
    | left => exact ih (left + 1) hrun
    | failed failure path =>
      obtain ⟨stack', rfl, hd'⟩ := hrun
      exact ⟨stack', rfl, hd'⟩

theorem traces_push (entry : σ) (path : List σ) :
    Traces report (modify (· ++ [entry]) : StateT (List σ) (Except ε) PUnit) path (path ++ [entry]) [] :=
  fun _ stack h => ⟨⟨⟩, stack ++ [entry], rfl, h.push entry⟩

theorem traces_pop (entry : σ) (path : List σ) :
    Traces report (modify List.dropLast : StateT (List σ) (Except ε) PUnit) (path ++ [entry]) path [] :=
  fun _ stack h => ⟨⟨⟩, stack.dropLast, rfl, h.pop⟩

theorem traces_leave (a : α) (entry : σ) (path : List σ) :
    Traces report (pure a : StateT (List σ) (Except ε) α) (path ++ [entry]) path [.left] :=
  fun _ stack h => ⟨a, stack, rfl, h.leave⟩

theorem traces_failed {run : StateT (List σ) (Except ε) α} (failure : φ) (start finish path : List σ)
    (h : ∀ left stack, Drift left stack start →
      ∃ stack', run.run stack = .error (report failure stack') ∧ Drift left stack' path) :
    Traces report run start finish [.failed failure path] :=
  h

end Runs

end Gqlforge.StackTraces

namespace Gqlforge.SynthPaths

open Json Errors Schema Plan Executor Synth StackTraces SynthesisTypes

inductive Fault where
  | produced (error : ValidationError) (pos : Document.Pos)
  | stored (error : Positioned)
  | outOfBounds
  deriving DecidableEq

def Fault.report : Fault → List PathSegment → Failure
  | .produced error pos, path => .error ((Positioned.new (.validation error) pos).withPath path)
  | .stored error, _ => .error error
  | .outOfBounds, _ => .indexOutOfBounds

abbrev Event := StackTraces.Event PathSegment Fault

section

variable (formats : Scalar.Formats) (plan : OperationPlan ConstValue) (vars : Variables)

def checkEvents (node : Field ConstValue) (path : List PathSegment) : Except ValidationError Output → List Event
  | .ok _ => []
  | .error error => [.failed (.produced error node.pos) path]

section

variable (node : Field ConstValue)
variable (objectEvents : List PathSegment → List Nat → ConstValue → List Event)

mutual

def valueEvents (path : List PathSegment) (dataPath : List Nat) : ConstValue → List Event
  | .list items => match checkLeaf formats plan vars node (.list items) with
    | some result => checkEvents node path result
    | none => itemsEvents path dataPath 0 items
  | value => match checkLeaf formats plan vars node value with
    | some result => checkEvents node path result
    | none => match value with
      | .object fields => objectEvents path dataPath (.object fields)
      | _ => []

def itemsEvents (path : List PathSegment) (dataPath : List Nat) (index : Nat) : List ConstValue → List Event
  | [] => []
  | value :: rest =>
    valueEvents (path ++ [.index index]) (dataPath ++ [index]) value ++ itemsEvents path dataPath (index + 1) rest

end

end

variable (store : Store)

mutual

def nodeEvents (path : List PathSegment) (value : Option ConstValue) (dataPath : List Nat)
    (rootName : Option String) : Field ConstValue → List Event
  | node@{ selection := fields, .. } =>
    let path := path ++ [.field node.outputName]
    let required := [.failed (.produced .valueRequired node.pos) path]
    let inner := valueEvents formats plan vars node fun path dataPath value =>
      fieldsEvents path dataPath node value fields
    match store.get node.id with
    | some (.error error) => [.failed (.stored error) path]
    | some (.ok stored) => match indexValue dataPath stored with
      | .outOfBounds => [.failed .outOfBounds path]
      | .notArray => [.left]
      | .value value =>
        if mismatched node value then if node.typeOf.isNullable then [.left] else required
        else inner path dataPath value
    | none => match value with
      | some value => inner path dataPath value
      | none =>
        if rootName.isSome && node.name == "__typename" || node.typeOf.isNullable then [] else required

def fieldsEvents (path : List PathSegment) (dataPath : List Nat) (node : Field ConstValue) (value : ConstValue) :
    List (Field ConstValue) → List Event
  | [] => []
  | child :: rest =>
    (if plan.fieldIsPartOfValue child value && !child.skip vars && child.name != "__typename" then
      nodeEvents path (value.getKey child.name) dataPath none child
    else []) ++ fieldsEvents path dataPath node value rest

end

def events : List Event :=
  plan.selection.flatMap fun child =>
    if child.skip vars then []
    else nodeEvents formats plan vars store [] none [] (some plan.rootName) child

end

section

variable {formats : Scalar.Formats} {plan : OperationPlan ConstValue} {vars : Variables} {store : Store}

theorem pushed_traces {α : Type} (next : Synthesis α) (segment : PathSegment) (path finish : List PathSegment)
    (events : List Event) (h : Traces Fault.report next (path ++ [segment]) finish events) :
    Traces Fault.report (do
      push segment
      next) path finish events := by
  have hpush : Traces Fault.report (push segment) path (path ++ [segment]) [] := traces_push segment path
  exact traces_bind hpush fun _ => h

theorem popped_traces {α β : Type} (run : Synthesis α) (next : α → Synthesis β) (segment : PathSegment)
    (path : List PathSegment) (events rest : List Event)
    (h : Traces Fault.report run (path ++ [segment]) (path ++ [segment]) events)
    (hn : ∀ output, Traces Fault.report (next output) path path rest) :
    Traces Fault.report (do
      let output ← run
      pop
      next output) (path ++ [segment]) path (events ++ rest) := by
  have hpop : Traces Fault.report pop (path ++ [segment]) path [] := traces_pop segment path
  exact traces_bind h fun output => traces_bind hpop fun _ => hn output

theorem failAt_traces (node : Field ConstValue) (error : ValidationError) (path finish : List PathSegment) :
    Traces Fault.report (failAt node error) path finish [.failed (.produced error node.pos) path] :=
  traces_failed _ _ _ _ fun _ stack h => ⟨stack, rfl, h⟩

theorem throw_traces {α : Type} (failure : Fault) (path finish : List PathSegment)
    (h : ∀ stack, failure.report stack = failure.report path) :
    Traces Fault.report (throw (failure.report path) : Synthesis α) path finish [.failed failure path] :=
  traces_failed _ _ _ _ fun _ stack hd => ⟨stack, congrArg Except.error (h stack).symm, hd⟩

section

variable (node : Field ConstValue)
variable (objectFields : List Nat → ConstValue → Synthesis (List (String × Output)))
variable (objectEvents : List PathSegment → List Nat → ConstValue → List Event)

theorem iterInner_checked (path : List PathSegment) (dataPath : List Nat) (value : ConstValue)
    (result : Except ValidationError Output) (hc : checkLeaf formats plan vars node value = some result) :
    Traces Fault.report (iterInner formats plan vars node objectFields dataPath value) path path
      (valueEvents formats plan vars node objectEvents path dataPath value) := by
  have hevents : valueEvents formats plan vars node objectEvents path dataPath value =
      checkEvents node path result := by
    cases value <;> simp only [valueEvents, hc]
  rw [hevents]
  cases result with
  | ok output =>
    have hrun : iterInner formats plan vars node objectFields dataPath value = pure output := by
      cases value <;> simp only [iterInner, hc]
    rw [hrun]
    exact traces_pure output path
  | error error =>
    have hrun : iterInner formats plan vars node objectFields dataPath value = failAt node error := by
      cases value <;> simp only [iterInner, hc]
    rw [hrun]
    exact failAt_traces node error path path

mutual

theorem iterInner_traces
    (hobject : ∀ path dataPath fields, Traces Fault.report (objectFields dataPath (.object fields)) path path
      (objectEvents path dataPath (.object fields)))
    (path : List PathSegment) (dataPath : List Nat) (value : ConstValue) :
    Traces Fault.report (iterInner formats plan vars node objectFields dataPath value) path path
      (valueEvents formats plan vars node objectEvents path dataPath value) := by
  cases hc : checkLeaf formats plan vars node value with
  | some result => exact iterInner_checked node objectFields objectEvents path dataPath value result hc
  | none =>
    match value with
    | .list items =>
      simp only [iterInner, valueEvents, hc]
      rw [← List.append_nil (itemsEvents ..)]
      exact traces_bind (iterItems_traces hobject path dataPath 0 items) fun outputs => traces_pure _ path
    | .object fields =>
      simp only [iterInner, valueEvents, hc]
      rw [← List.append_nil (objectEvents ..)]
      exact traces_bind (hobject path dataPath fields) fun entries => traces_pure _ path
    | .null => simpa only [iterInner, valueEvents, hc] using traces_pure _ path
    | .number value => simpa only [iterInner, valueEvents, hc] using traces_pure _ path
    | .string value => simpa only [iterInner, valueEvents, hc] using traces_pure _ path
    | .boolean value => simpa only [iterInner, valueEvents, hc] using traces_pure _ path
    | .enum name => simpa only [iterInner, valueEvents, hc] using traces_pure _ path

theorem iterItems_traces
    (hobject : ∀ path dataPath fields, Traces Fault.report (objectFields dataPath (.object fields)) path path
      (objectEvents path dataPath (.object fields)))
    (path : List PathSegment) (dataPath : List Nat) (index : Nat) (items : List ConstValue) :
    Traces Fault.report (iterItems formats plan vars node objectFields dataPath index items) path path
      (itemsEvents formats plan vars node objectEvents path dataPath index items) := by
  match items with
  | [] =>
    rw [iterItems, itemsEvents]
    exact traces_pure _ path
  | value :: rest =>
    rw [iterItems, itemsEvents]
    have hvalue := iterInner_traces hobject (path ++ [.index index]) (dataPath ++ [index]) value
    have hrest := iterItems_traces hobject path dataPath (index + 1) rest
    refine pushed_traces _ (.index index) path path _ ?_
    refine popped_traces _ _ (.index index) path _ _ hvalue fun output => ?_
    rw [← List.append_nil (itemsEvents ..)]
    exact traces_bind hrest fun outputs => traces_pure _ path

end

end

theorem nodeNullableGuard_eq (node : Field ConstValue) (rootName : Option String)
    (h : (rootName.isSome && node.name == "__typename") = false) :
    nodeNullableGuard node rootName = if node.typeOf.isNullable then return .null else failAt node .valueRequired := by
  cases rootName with
  | none => rfl
  | some name =>
    have hn : (node.name == "__typename") = false := h
    simp only [nodeNullableGuard, hn]

theorem nodeNullableGuard_traces (node : Field ConstValue) (rootName : Option String) (path : List PathSegment) :
    Traces Fault.report (nodeNullableGuard node rootName) path path
      (if rootName.isSome && node.name == "__typename" || node.typeOf.isNullable then []
      else [.failed (.produced .valueRequired node.pos) path]) := by
  cases h : rootName.isSome && node.name == "__typename" with
  | true =>
    obtain ⟨hsome, hn⟩ := Bool.and_eq_true_iff.mp h
    obtain ⟨name, rfl⟩ := Option.isSome_iff_exists.mp hsome
    simp only [nodeNullableGuard, hn]
    exact traces_pure _ path
  | false =>
    rw [nodeNullableGuard_eq node rootName h, Bool.false_or]
    split
    · exact traces_pure _ path
    · exact failAt_traces node .valueRequired path path

theorem nodeEvents_eq (path : List PathSegment) (value : Option ConstValue) (dataPath : List Nat)
    (rootName : Option String) (node : Field ConstValue) :
    nodeEvents formats plan vars store path value dataPath rootName node =
      (let path := path ++ [.field node.outputName]
      let required := [.failed (.produced .valueRequired node.pos) path]
      let inner := valueEvents formats plan vars node fun path dataPath value =>
        fieldsEvents formats plan vars store path dataPath node value node.selection
      match store.get node.id with
      | some (.error error) => [.failed (.stored error) path]
      | some (.ok stored) => match indexValue dataPath stored with
        | .outOfBounds => [.failed .outOfBounds path]
        | .notArray => [.left]
        | .value value =>
          if mismatched node value then if node.typeOf.isNullable then [.left] else required
          else inner path dataPath value
      | none => match value with
        | some value => inner path dataPath value
        | none =>
          if rootName.isSome && node.name == "__typename" || node.typeOf.isNullable then [] else required) := by
  cases node
  rfl

theorem processNode_traces_of_fields (path : List PathSegment) (value : Option ConstValue) (dataPath : List Nat)
    (rootName : Option String) (node : Field ConstValue)
    (hfields : ∀ path dataPath object, Traces Fault.report
      (processFields formats plan vars store dataPath node (.object object) node.selection) path path
      (fieldsEvents formats plan vars store path dataPath node (.object object) node.selection)) :
    Traces Fault.report (processNode formats plan vars store value dataPath rootName node) path path
      (nodeEvents formats plan vars store path value dataPath rootName node) := by
  have hpop (run : Synthesis Output) (events : List Event)
      (h : Traces Fault.report run (path ++ [.field node.outputName]) (path ++ [.field node.outputName]) events) :
      Traces Fault.report (do
        let output ← run
        pop
        return output) (path ++ [.field node.outputName]) path events := by
    rw [← List.append_nil events]
    exact popped_traces run _ _ path events [] h fun output => traces_pure output path
  have hinner (value : ConstValue) := @iterInner_traces formats plan vars node
    (fun dataPath value => processFields formats plan vars store dataPath node value node.selection)
    (fun path dataPath value => fieldsEvents formats plan vars store path dataPath node value node.selection)
    hfields (path ++ [.field node.outputName]) dataPath value
  rw [processNode_eq, nodeEvents_eq]
  refine pushed_traces _ (.field node.outputName) path path _ ?_
  cases hs : store.get node.id with
  | none =>
    cases value with
    | none => exact hpop _ _ (nodeNullableGuard_traces node rootName _)
    | some value => exact hpop _ _ (hinner value)
  | some result =>
    cases result with
    | error error => exact throw_traces (.stored error) _ path fun _ => rfl
    | ok stored =>
      cases hi : indexValue dataPath stored with
      | outOfBounds =>
        simp only [hi]
        exact throw_traces .outOfBounds _ path fun _ => rfl
      | notArray =>
        simp only [hi]
        exact traces_leave _ _ path
      | value inner =>
        simp only [hi]
        by_cases hm : mismatched node inner = true
        · rw [if_pos hm, if_pos hm, nodeNullableGuard_eq node none rfl]
          split
          · exact traces_leave _ _ path
          · exact failAt_traces node .valueRequired _ path
        · rw [if_neg hm, if_neg hm]
          exact hpop _ _ (hinner inner)

mutual

theorem processNode_traces (path : List PathSegment) (value : Option ConstValue) (dataPath : List Nat)
    (rootName : Option String) (node : Field ConstValue) :
    Traces Fault.report (processNode formats plan vars store value dataPath rootName node) path path
      (nodeEvents formats plan vars store path value dataPath rootName node) := by
  match node with
  | { selection := fields, .. } =>
    apply processNode_traces_of_fields
    intro path dataPath object
    exact processFields_traces path dataPath _ object fields

theorem processFields_traces (path : List PathSegment) (dataPath : List Nat) (node : Field ConstValue)
    (object : Object ConstValue) (fields : List (Field ConstValue)) :
    Traces Fault.report (processFields formats plan vars store dataPath node (.object object) fields) path path
      (fieldsEvents formats plan vars store path dataPath node (.object object) fields) := by
  match fields with
  | [] =>
    rw [processFields, fieldsEvents]
    exact traces_pure _ path
  | child :: rest =>
    have hrest := processFields_traces path dataPath node object rest
    simp only [processFields, fieldsEvents]
    by_cases hc : (plan.fieldIsPartOfValue child (.object object) && !child.skip vars) = true
    · rw [if_pos hc, hc, Bool.true_and]
      have hentries (output : Output) : Traces Fault.report (do
          let rest ← processFields formats plan vars store dataPath node (.object object) rest
          return (child.outputName, output) :: rest) path path
          (fieldsEvents formats plan vars store path dataPath node (.object object) rest) := by
        rw [← List.append_nil (fieldsEvents ..)]
        exact traces_bind hrest fun entries => traces_pure _ path
      refine traces_bind ?_ hentries
      by_cases hn : child.name = "__typename"
      · rw [if_pos (by simp [hn]), if_neg (by simp [hn])]
        exact traces_pure _ path
      · rw [if_neg (by simp [hn]), if_pos (by simp [hn])]
        exact processNode_traces path _ dataPath none child
    · have hc' : (plan.fieldIsPartOfValue child (.object object) && !child.skip vars) = false := by simpa using hc
      rw [if_neg hc, hc', Bool.false_and]
      exact hrest

end

theorem synthesizeRoot_traces (data : Object Output) (fields : List (Field ConstValue)) :
    Traces Fault.report (synthesizeRoot formats plan vars store data fields) [] []
      (fields.flatMap fun child =>
        if child.skip vars then [] else nodeEvents formats plan vars store [] none [] (some plan.rootName) child) := by
  induction fields generalizing data with
  | nil => exact traces_pure data []
  | cons child rest ih =>
    rw [synthesizeRoot, List.flatMap_cons]
    by_cases hs : child.skip vars = true
    · rw [if_pos hs, if_pos hs]
      exact ih data
    · rw [if_neg hs, if_neg hs]
      exact traces_bind (processNode_traces [] none [] (some plan.rootName) child) fun output => ih _

theorem synthesize_eq :
    match firstFailure (events formats plan vars store) with
    | none => ∃ output, synthesize formats plan vars store = .ok output
    | some (left, fault, path) =>
      ∃ found, synthesize formats plan vars store = .error (fault.report found) ∧ Drift left found path := by
  have hrun := follows_firstFailure [] _ 0 _
    (@synthesizeRoot_traces formats plan vars store [] plan.selection 0 [] (drift_self []))
  unfold events synthesize
  generalize firstFailure _ = failing at hrun ⊢
  cases failing with
  | none =>
    obtain ⟨data, stack, hr⟩ := hrun
    exact ⟨.object data, by rw [hr]; rfl⟩
  | some failing =>
    obtain ⟨found, hr, hd⟩ := hrun
    refine ⟨found, by rw [hr]; rfl, ?_⟩
    rwa [Nat.zero_add] at hd

end

/-- The error comes out of the store, or has been made where the synthesis first fails and has the keys
and indices that lead there. -/
def Located (formats : Scalar.Formats) (plan : OperationPlan ConstValue) (vars : Variables) (store : Store)
    (error : Positioned) : Prop :=
  ∃ left fault path, firstFailure (events formats plan vars store) = some (left, fault, path) ∧
    (fault = .stored error ∨
      ∃ cause, fault = .produced cause error.pos ∧ error.value = .validation cause ∧ error.path = path)

theorem errors_located_iff (formats : Scalar.Formats) (plan : OperationPlan ConstValue) (vars : Variables)
    (store : Store) :
    (∀ error, synthesize formats plan vars store = .error (.error error) →
      Located formats plan vars store error) ↔
      ∀ left cause pos path,
        firstFailure (events formats plan vars store) = some (left, .produced cause pos, path) → left = 0 := by
  have hresult := @synthesize_eq formats plan vars store
  constructor
  · intro h left cause pos path hf
    rw [hf] at hresult
    obtain ⟨found, hr, hd⟩ := hresult
    obtain ⟨left', fault, path', hf', hfault⟩ := h _ hr
    rw [hf, Option.some.injEq, Prod.mk.injEq, Prod.mk.injEq] at hf'
    obtain ⟨rfl, rfl, rfl⟩ := hf'
    rcases hfault with hstored | ⟨_, _, _, hpath⟩
    · cases hstored
    · exact hd.eq_iff.mp hpath
  · intro h error hr
    cases hf : firstFailure (events formats plan vars store) with
    | none =>
      rw [hf] at hresult
      obtain ⟨output, ho⟩ := hresult
      exact nomatch ho.symm.trans hr
    | some failing =>
      obtain ⟨left, fault, path⟩ := failing
      rw [hf] at hresult
      obtain ⟨found, hr', hd⟩ := hresult
      have hfault := Except.error.inj (hr'.symm.trans hr)
      refine ⟨left, fault, path, hf, ?_⟩
      cases fault with
      | produced cause pos =>
        obtain rfl := Failure.error.inj hfault
        exact .inr ⟨cause, rfl, rfl, hd.eq_iff.mpr (h left cause pos path hf)⟩
      | stored stored => exact .inl (congrArg Fault.stored (Failure.error.inj hfault))
      | outOfBounds => cases hfault

def listedPlan : OperationPlan ConstValue :=
  queryPlan
    [fieldOf 0 "a" (.named "String" false) (some .empty) [], fieldOf 1 "b" (.named "String" true) (some .empty) []]

def listedStore : Store :=
  [(0, .ok (.list []))]

theorem listedPlan_not_located :
    ¬ ∀ error, synthesize anyFormat listedPlan [] listedStore = .error (.error error) →
      Located anyFormat listedPlan [] listedStore error := by
  intro h
  obtain ⟨left, fault, path, hf, hfault⟩ := h
    ⟨.validation .valueRequired, ⟨1, 1⟩, [.field "a", .field "b"]⟩ rfl
  have hfound : firstFailure (events anyFormat listedPlan [] listedStore) =
      some (1, .produced .valueRequired ⟨1, 1⟩, [.field "b"]) := by decide
  rw [hfound, Option.some.injEq, Prod.mk.injEq, Prod.mk.injEq] at hf
  obtain ⟨rfl, rfl, rfl⟩ := hf
  rcases hfault with hstored | ⟨_, _, _, hpath⟩
  · cases hstored
  · exact absurd hpath (by decide)

end Gqlforge.SynthPaths
