import Gqlforge.Builder
import Gqlforge.FuelRecursion
import Mathlib.Data.Set.Finite.Basic

namespace Gqlforge.CollectCalls

open Document Schema Builder

@[simp]
theorem pure_run {α : Type} (a : α) (counters : Counters) :
    (pure a : Counting α) counters = some (a, counters) := rfl

@[simp]
theorem bind_run {α β : Type} (x : Counting α) (f : α → Counting β) (counters : Counters) :
    (x >>= f) counters = (x counters).bind fun result => f result.1 result.2 := rfl

@[simp]
theorem map_run {α β : Type} (f : α → β) (x : Counting α) (counters : Counters) :
    (f <$> x) counters = (x counters).map fun result => (f result.1, result.2) := by
  change (x counters).bind _ = _
  cases x counters with
  | none => rfl
  | some result => rfl

@[simp]
theorem nextArgId_run (counters : Counters) :
    nextArgId counters = some (counters.argId, ⟨counters.argId + 1, counters.fieldId⟩) := rfl

@[simp]
theorem nextFieldId_run (counters : Counters) :
    nextFieldId counters = some (counters.fieldId, ⟨counters.argId, counters.fieldId + 1⟩) := rfl

theorem collectArgs_run (requestArgs : List (String × Value)) (definitions : List (String × InputFieldDefinition))
    (counters : Counters) :
    ∃ args argId, collectArgs requestArgs definitions counters = some (args, ⟨argId, counters.fieldId⟩) := by
  induction definitions generalizing counters with
  | nil => exact ⟨[], counters.argId, rfl⟩
  | cons entry rest ih =>
    obtain ⟨args, argId, hr⟩ := ih ⟨counters.argId + 1, counters.fieldId⟩
    exact ⟨_, argId, by simp [collectArgs, hr]; rfl⟩

section

variable (index : Index) (fragments : Fragments)

def fieldCall (call : Call) (name : String) (selectionSet : List Selection) : Option Call :=
  (index.getField call.typeCondition name).map fun definition =>
    ⟨none, selectionSet, (QueryField.ofType definition).name⟩

def fragmentCall (fragment : FragmentDefinition) : Call :=
  ⟨some fragment.typeCondition, fragment.selectionSet, fragment.typeCondition⟩

def inlineCall (call : Call) (typeCondition : Option String) (selectionSet : List Selection) : Call :=
  ⟨some (typeCondition.getD call.typeCondition), selectionSet, typeCondition.getD call.typeCondition⟩

def passedOver (visited : List String) (outputName : String) (directives : List Document.Directive) : Bool :=
  visited.contains outputName || (includeOf directives).isConstSkip

def itemVisited (visited : List String) : Selection → List String
  | .field _ alias' name _ _ _ =>
    if visited.contains (alias'.getD name) then visited else alias'.getD name :: visited
  | _ => visited

def itemCall (call : Call) (visited : List String) : Selection → Option Call
  | .field _ alias' name _ directives selectionSet =>
    if passedOver visited (alias'.getD name) directives then none
    else fieldCall index call name selectionSet
  | .fragmentSpread _ fragmentName _ => (fragments.lookup fragmentName).map fragmentCall
  | .inlineFragment _ typeCondition _ selectionSet => some (inlineCall call typeCondition selectionSet)

def itemsCalls (call : Call) : List String → List Selection → List Call
  | _, [] => []
  | visited, item :: rest =>
    (itemCall index fragments call visited item).toList ++
      itemsCalls call (itemVisited visited item) rest

def callees (call : Call) : List Call :=
  itemsCalls index fragments call [] call.selectionSet

end

section

variable {index : Index} {fragments : Fragments} {recur : Call → Counting (List (Field Value))}

def Uniform (recur : Call → Counting (List (Field Value))) : Prop :=
  ∀ call counters counters', (recur call counters).isSome = true → (recur call counters').isSome = true

def Returns (recur : Call → Counting (List (Field Value))) (call : Call) : Prop :=
  ∀ counters, (recur call counters).isSome = true

theorem returns_iff (hu : Uniform recur) (call : Call) (counters : Counters) :
    (recur call counters).isSome = true ↔ Returns recur call :=
  ⟨fun h counters' => hu call counters counters' h, fun h => h counters⟩

theorem collectField_isSome (hu : Uniform recur) (call : Call) (pos : Pos) (outputName name : String)
    (arguments : List (String × Value)) (directives : List Document.Directive)
    (selectionSet : List Selection) (counters : Counters) :
    (collectField index recur call pos outputName name arguments directives selectionSet counters).isSome
        = true ↔
      ∀ callee ∈ fieldCall index call name selectionSet, Returns recur callee := by
  unfold collectField fieldCall
  cases index.getField call.typeCondition name with
  | some definition =>
    obtain ⟨args, argId, ha⟩ := collectArgs_run arguments (QueryField.args definition) counters
    simp only [Option.map_some, Option.mem_def, Option.some.injEq, forall_eq']
    rw [← returns_iff hu _ ⟨argId, counters.fieldId + 1⟩]
    simp [ha]
  | none =>
    cases name == "__typename" with
    | true => simp
    | false => simp

theorem collectItem_isSome (hu : Uniform recur) (call : Call) (acc : Collected) (item : Selection)
    (counters : Counters) :
    (collectItem index fragments recur call acc item counters).isSome = true ↔
      ∀ callee ∈ itemCall index fragments call acc.visited item, Returns recur callee := by
  cases item with
  | field pos alias' name arguments directives selectionSet =>
    simp only [collectItem, itemCall, passedOver, Bool.or_eq_true]
    by_cases hv : acc.visited.contains (alias'.getD name) = true
    · rw [if_pos hv, if_pos (.inl hv)]
      simp
    · rw [if_neg hv]
      by_cases hc : (includeOf directives).isConstSkip = true
      · rw [if_pos hc, if_pos (.inr hc)]
        simp
      · rw [if_neg hc, if_neg (by tauto), ← collectField_isSome hu call pos (alias'.getD name) name
          arguments directives selectionSet counters]
        simp only [bind_pure_comp, map_run, Option.isSome_map]
  | fragmentSpread pos fragmentName directives =>
    simp only [collectItem, itemCall]
    cases fragments.lookup fragmentName with
    | none => simp
    | some fragment =>
      simp only [Option.map_some, Option.mem_def, Option.some.injEq, forall_eq']
      rw [← returns_iff hu _ counters]
      simp only [fragmentCall, bind_pure_comp, map_run, Option.isSome_map]
  | inlineFragment pos typeCondition directives selectionSet =>
    simp only [collectItem, itemCall, Option.mem_def, Option.some.injEq, forall_eq']
    rw [← returns_iff hu _ counters]
    simp only [inlineCall, bind_pure_comp, map_run, Option.isSome_map]

theorem collectItem_visited (call : Call) (acc : Collected) (item : Selection) (counters : Counters)
    (result : Collected × Counters) (h : collectItem index fragments recur call acc item counters = some result) :
    result.1.visited = itemVisited acc.visited item := by
  cases item with
  | field pos alias' name arguments directives selectionSet =>
    simp only [collectItem] at h
    simp only [itemVisited]
    split at h <;> rename_i hv
    · simp only [pure_run, Option.some.injEq] at h
      rw [if_pos hv, ← h]
    · rw [if_neg hv]
      split at h
      · simp only [pure_run, Option.some.injEq] at h
        rw [← h]
      · simp only [bind_pure_comp, map_run, Option.map_eq_some_iff] at h
        obtain ⟨_, _, rfl⟩ := h
        rfl
  | fragmentSpread pos fragmentName directives =>
    simp only [collectItem] at h
    cases hf : fragments.lookup fragmentName with
    | none =>
      simp only [hf, pure_run, Option.some.injEq] at h
      rw [← h]
      rfl
    | some fragment =>
      simp only [hf, bind_pure_comp, map_run, Option.map_eq_some_iff] at h
      obtain ⟨_, _, rfl⟩ := h
      rfl
  | inlineFragment pos typeCondition directives selectionSet =>
    simp only [collectItem, bind_pure_comp, map_run, Option.map_eq_some_iff] at h
    obtain ⟨_, _, rfl⟩ := h
    rfl

theorem collectItems_isSome (hu : Uniform recur) (call : Call) (acc : Collected) (items : List Selection)
    (counters : Counters) :
    (collectItems index fragments recur call acc items counters).isSome = true ↔
      ∀ callee ∈ itemsCalls index fragments call acc.visited items, Returns recur callee := by
  induction items generalizing acc counters with
  | nil => simp [collectItems, itemsCalls]
  | cons item rest ih =>
    simp only [collectItems, itemsCalls, List.mem_append, Option.mem_toList, or_imp, forall_and, bind_run]
    have hi := @collectItem_isSome index fragments _ hu call acc item counters
    simp only [Option.mem_def] at hi
    rw [← hi]
    cases h : collectItem index fragments recur call acc item counters with
    | none => simp
    | some result =>
      rw [Option.bind_some, ih, collectItem_visited call acc item counters result h]
      simp

theorem collectBody_isSome (hu : Uniform recur) (call : Call) (counters : Counters) :
    (collectBody index fragments recur call counters).isSome = true ↔
      ∀ callee ∈ callees index fragments call, Returns recur callee := by
  simp only [collectBody, bind_pure_comp, map_run, Option.isSome_map]
  exact collectItems_isSome hu call Collected.empty call.selectionSet counters

end

section

variable (index : Index) (fragments : Fragments)

theorem collectFields_uniform (fuel : Nat) : Uniform (collectFields index fragments fuel) := by
  induction fuel with
  | zero =>
    intro call counters counters' h
    simp [collectFields] at h
  | succ fuel ih =>
    intro call counters counters' h
    rw [collectFields, collectBody_isSome ih] at h ⊢
    exact h

theorem collectFields_unfolds :
    FuelRecursion.Unfolds (callees index fragments)
      (fun fuel call => Returns (collectFields index fragments fuel) call) where
  zero call h := by simpa [collectFields] using h ⟨0, 0⟩
  succ fuel call := by
    constructor
    · intro h callee hc
      exact (collectBody_isSome (collectFields_uniform index fragments fuel) call ⟨0, 0⟩).mp (h ⟨0, 0⟩)
        callee hc
    · intro h counters
      exact (collectBody_isSome (collectFields_uniform index fragments fuel) call counters).mpr h

def Calls (callee call : Call) : Prop :=
  callee ∈ callees index fragments call

theorem itemCall_cases (call : Call) (visited : List String) (item : Selection) (callee : Call)
    (h : itemCall index fragments call visited item = some callee) :
    (∃ entry ∈ fragments, callee = fragmentCall entry.2) ∨ sizeOf callee.selectionSet < sizeOf item := by
  cases item with
  | field pos alias' name arguments directives selectionSet =>
    simp only [itemCall, fieldCall, Option.ite_none_left_eq_some, Option.map_eq_some_iff] at h
    obtain ⟨_, definition, _, rfl⟩ := h
    right
    simp only [Selection.field.sizeOf_spec]
    omega
  | fragmentSpread pos fragmentName directives =>
    simp only [itemCall, Option.map_eq_some_iff] at h
    obtain ⟨fragment, hl, rfl⟩ := h
    obtain ⟨before, after, hf, _⟩ := List.lookup_eq_some_iff.mp hl
    exact .inl ⟨(fragmentName, fragment), by simp [hf], rfl⟩
  | inlineFragment pos typeCondition directives selectionSet =>
    simp only [itemCall, inlineCall, Option.some.injEq] at h
    subst h
    right
    simp only [Selection.inlineFragment.sizeOf_spec]
    omega

theorem itemsCalls_cases (call : Call) (visited : List String) (items : List Selection) (callee : Call)
    (h : callee ∈ itemsCalls index fragments call visited items) :
    (∃ entry ∈ fragments, callee = fragmentCall entry.2) ∨ sizeOf callee.selectionSet < sizeOf items := by
  induction items generalizing visited with
  | nil => simp [itemsCalls] at h
  | cons item rest ih =>
    simp only [itemsCalls, List.mem_append, Option.mem_toList] at h
    simp only [List.cons.sizeOf_spec]
    rcases h with h | h
    · rcases itemCall_cases index fragments call visited item callee h with hf | hs
      · exact .inl hf
      · right; omega
    · rcases ih (itemVisited visited item) h with hf | hs
      · exact .inl hf
      · right; omega

theorem calls_cases (call callee : Call) (h : Calls index fragments callee call) :
    (∃ entry : { entry // entry ∈ fragments }, callee = fragmentCall entry.1.2) ∨
      sizeOf callee.selectionSet < sizeOf call.selectionSet := by
  rcases itemsCalls_cases index fragments call [] call.selectionSet callee h with ⟨entry, he, hc⟩ | hs
  · exact .inl ⟨⟨entry, he⟩, hc⟩
  · exact .inr hs

theorem collectFields_returns_iff (call : Call) :
    (∃ fuel, Returns (collectFields index fragments fuel) call) ↔
      ∀ entry ∈ fragments,
        Relation.ReflTransGen (Calls index fragments) (fragmentCall entry.2) call →
          ¬ Relation.TransGen (Calls index fragments) (fragmentCall entry.2) (fragmentCall entry.2) := by
  have : Finite { entry // entry ∈ fragments } := List.finite_toSet fragments
  rw [(collectFields_unfolds index fragments).exists_iff_acc call]
  have hacyclic := FuelRecursion.acc_iff_no_cycle (calls_cases index fragments) call
  simp only [Subtype.forall] at hacyclic
  exact hacyclic

end

end Gqlforge.CollectCalls
