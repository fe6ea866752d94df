import Gqlforge.InputResolver
import Gqlforge.PlanSkeleton

namespace Gqlforge.FieldIds

open Json Document Schema Plan Builder CollectCalls Skip PlanSkeleton Request InputResolver

def ids {Input : Type} (fields : List (Field Input)) : List Nat :=
  (Field.dfsAll fields).map (·.id)

section

variable {Input : Type}

theorem dfs_eq (field : Field Input) : field.dfs = field :: Field.dfsAll field.selection := by
  cases field
  rfl

theorem ids_cons (field : Field Input) (rest : List (Field Input)) :
    ids (field :: rest) = field.id :: ids field.selection ++ ids rest := by
  rw [ids, Field.dfsAll, dfs_eq, List.map_append]
  rfl

theorem ids_eq_flatMap (fields : List (Field Input)) :
    ids fields = fields.flatMap fun field => field.id :: ids field.selection := by
  induction fields with
  | nil => rfl
  | cons field rest ih => rw [ids_cons, List.flatMap_cons, ih]

theorem ids_append (fields rest : List (Field Input)) : ids (fields ++ rest) = ids fields ++ ids rest := by
  rw [ids_eq_flatMap, List.flatMap_append, ← ids_eq_flatMap, ← ids_eq_flatMap]

theorem ids_perm {fields fields' : List (Field Input)} (h : fields.Perm fields') : (ids fields).Perm (ids fields') := by
  rw [ids_eq_flatMap, ids_eq_flatMap]
  exact h.flatMap_right _

theorem ids_sublist {fields fields' : List (Field Input)} (h : fields.Sublist fields') :
    (ids fields).Sublist (ids fields') := by
  induction h with
  | slnil => exact .slnil
  | cons field _ ih =>
    rw [ids_cons]
    exact ih.trans (List.sublist_append_right _ _)
  | cons_cons field _ ih =>
    rw [ids_cons, ids_cons]
    exact ih.append_left _

mutual

theorem ids_skeleton (field : Field Input) : ids field.skeleton.selection = ids field.selection := by
  match field with
  | { selection := fields, .. } => exact ids_skeletons fields

theorem ids_skeletons (fields : List (Field Input)) : ids (Field.skeletons fields) = ids fields := by
  match fields with
  | [] => rfl
  | field :: rest =>
    have hid : field.skeleton.id = field.id := by rw [Field.skeleton_eq]
    rw [Field.skeletons, ids_cons, ids_cons, ids_skeletons rest, ids_skeleton field, hid]

end

mutual

theorem ids_skipField (vars : Variables) (field : Field Input) :
    (ids (skipField vars field).selection).Sublist (ids field.selection) := by
  match field with
  | { selection := fields, .. } => exact ids_skipFields vars fields

theorem ids_skipFields (vars : Variables) (fields : List (Field Input)) :
    (ids (skipFields vars fields)).Sublist (ids fields) := by
  match fields with
  | [] => exact .slnil
  | field :: rest =>
    have hid : (skipField vars field).id = field.id := by rw [skipField_eq]
    rw [skipFields, ids_cons]
    by_cases hs : field.skip vars = true
    · rw [if_pos hs]
      exact (ids_skipFields vars rest).trans (List.sublist_append_right _ _)
    · rw [if_neg hs, ids_cons, hid]
      exact ((ids_skipField vars field).cons_cons field.id).append (ids_skipFields vars rest)

end

end

/-- The fields collected between two states of the counters have ids of their own from between them. -/
structure Fresh (counters counters' : Counters) (fields : List (Field Value)) : Prop where
  le : counters.fieldId ≤ counters'.fieldId
  nodup : (ids fields).Nodup
  bounds : ∀ id ∈ ids fields, counters.fieldId ≤ id ∧ id < counters'.fieldId

section

variable {counters counters' counters'' : Counters} {fields fields' : List (Field Value)}

theorem Fresh.nil (h : counters.fieldId ≤ counters'.fieldId) : Fresh counters counters' [] :=
  ⟨h, List.nodup_nil, fun _ hid => absurd hid List.not_mem_nil⟩

theorem Fresh.append (h : Fresh counters counters' fields) (h' : Fresh counters' counters'' fields') :
    Fresh counters counters'' (fields ++ fields') := by
  have hle := h.le
  have hle' := h'.le
  constructor
  · omega
  · rw [ids_append]
    apply List.nodup_append.mpr
    refine ⟨h.nodup, h'.nodup, ?_⟩
    rintro id hid id' hid' rfl
    have hb := h.bounds id hid
    have hb' := h'.bounds id hid'
    omega
  · intro id hid
    rw [ids_append, List.mem_append] at hid
    rcases hid with hid | hid
    · have hb := h.bounds id hid
      omega
    · have hb := h'.bounds id hid
      omega

theorem Fresh.perm (h : Fresh counters counters' fields) (hp : fields.Perm fields') :
    Fresh counters counters' fields' :=
  ⟨h.le, (ids_perm hp).nodup_iff.mp h.nodup, fun id hid => h.bounds id ((ids_perm hp).mem_iff.mpr hid)⟩

theorem Fresh.sublist (h : Fresh counters counters' fields) (hs : fields'.Sublist fields) :
    Fresh counters counters' fields' :=
  ⟨h.le, (ids_sublist hs).nodup h.nodup, fun id hid => h.bounds id ((ids_sublist hs).subset hid)⟩

theorem Fresh.cons (field : Field Value) (hid : field.id = counters.fieldId)
    (h : Fresh { counters' with fieldId := counters.fieldId + 1 } counters'' field.selection) :
    Fresh counters counters'' [field] := by
  have hle := h.le
  have hids : ids [field] = field.id :: ids field.selection := by
    rw [ids_cons]
    exact List.append_nil _
  constructor
  · simp only at hle
    omega
  · rw [hids, List.nodup_cons]
    refine ⟨fun hm => ?_, h.nodup⟩
    have hb := (h.bounds field.id hm).1
    simp only at hb
    omega
  · intro id hm
    simp only at hle
    rw [hids] at hm
    rcases List.mem_cons.mp hm with rfl | hm
    · omega
    · have hb := h.bounds id hm
      simp only at hb
      omega

end

section

variable {index : Index} {fragments : Fragments} {recur : Call → Counting (List (Field Value))}

theorem collectField_fresh (hrec : ∀ call counters fields counters',
      recur call counters = some (fields, counters') → Fresh counters counters' fields)
    (call : Call) (pos : Pos) (outputName name : String) (arguments : List (String × Value))
    (directives : List Document.Directive) (selectionSet : List Selection) (counters counters' : Counters)
    (result : Option (Field Value))
    (h : collectField index recur call pos outputName name arguments directives selectionSet counters =
      some (result, counters')) : Fresh counters counters' result.toList := by
  unfold collectField at h
  cases hg : index.getField call.typeCondition name with
  | some definition =>
    obtain ⟨args, argId, ha⟩ := collectArgs_run arguments (QueryField.args definition) counters
    simp only [hg, bind_run, ha, nextFieldId_run, Option.bind_some, pure_run, Option.bind_eq_some_iff,
      Option.some.injEq, Prod.mk.injEq, Prod.exists] at h
    obtain ⟨children, after, hc, rfl, rfl⟩ := h
    exact @Fresh.cons counters ⟨argId, counters.fieldId⟩ _ _ rfl (hrec _ _ _ _ hc)
  | none =>
    cases hn : name == "__typename" with
    | true =>
      simp only [hg, hn, ↓reduceIte, bind_run, nextFieldId_run, Option.bind_some, pure_run,
        Option.some.injEq, Prod.mk.injEq] at h
      obtain ⟨rfl, rfl⟩ := h
      exact @Fresh.cons counters counters _ _ rfl (Fresh.nil (Nat.le_refl _))
    | false =>
      simp only [hg, hn, Bool.false_eq_true, ↓reduceIte, pure_run, Option.some.injEq, Prod.mk.injEq] at h
      obtain ⟨rfl, rfl⟩ := h
      exact Fresh.nil (Nat.le_refl _)

theorem collectItem_fresh (hrec : ∀ call counters fields counters',
      recur call counters = some (fields, counters') → Fresh counters counters' fields)
    (call : Call) (item : Selection) (acc acc' : Collected) (start counters counters' : Counters)
    (ha : Fresh start counters (acc.fields ++ acc.fragmentsFields))
    (h : collectItem index fragments recur call acc item counters = some (acc', counters')) :
    Fresh start counters' (acc'.fields ++ acc'.fragmentsFields) := by
  cases item with
  | field pos alias' name arguments directives selectionSet =>
    simp only [collectItem] at h
    split at h
    · simp only [pure_run, Option.some.injEq, Prod.mk.injEq] at h
      obtain ⟨rfl, rfl⟩ := h
      exact ha
    · split at h
      · simp only [pure_run, Option.some.injEq, Prod.mk.injEq] at h
        obtain ⟨rfl, rfl⟩ := h
        exact ha
      · simp only [bind_pure_comp, map_run, Option.map_eq_some_iff, Prod.mk.injEq, Prod.exists] at h
        obtain ⟨result, after, hr, rfl, rfl⟩ := h
        have hnew := collectField_fresh hrec call pos _ name arguments directives selectionSet counters after
          result hr
        apply (ha.append hnew).perm
        rw [List.append_assoc, List.append_assoc]
        exact (List.perm_append_comm).append_left acc.fields
  | fragmentSpread pos fragmentName directives =>
    simp only [collectItem] at h
    cases hf : fragments.lookup fragmentName with
    | none =>
      simp only [hf, pure_run, Option.some.injEq, Prod.mk.injEq] at h
      obtain ⟨rfl, rfl⟩ := h
      exact ha
    | some fragment =>
      simp only [hf, bind_pure_comp, map_run, Option.map_eq_some_iff, Prod.mk.injEq, Prod.exists] at h
      obtain ⟨fields, after, hr, rfl, rfl⟩ := h
      have hnew := ha.append (hrec _ _ _ _ hr)
      rwa [List.append_assoc] at hnew
  | inlineFragment pos typeCondition directives selectionSet =>
    simp only [collectItem, bind_pure_comp, map_run, Option.map_eq_some_iff, Prod.mk.injEq, Prod.exists] at h
    obtain ⟨fields, after, hr, rfl, rfl⟩ := h
    have hnew := ha.append (hrec _ _ _ _ hr)
    rwa [List.append_assoc] at hnew

theorem collectItems_fresh (hrec : ∀ call counters fields counters',
      recur call counters = some (fields, counters') → Fresh counters counters' fields)
    (call : Call) (items : List Selection) (acc acc' : Collected) (start counters counters' : Counters)
    (ha : Fresh start counters (acc.fields ++ acc.fragmentsFields))
    (h : collectItems index fragments recur call acc items counters = some (acc', counters')) :
    Fresh start counters' (acc'.fields ++ acc'.fragmentsFields) := by
  induction items generalizing acc counters with
  | nil =>
    simp only [collectItems, pure_run, Option.some.injEq, Prod.mk.injEq] at h
    obtain ⟨rfl, rfl⟩ := h
    exact ha
  | cons item rest ih =>
    simp only [collectItems, bind_run, Option.bind_eq_some_iff, Prod.exists] at h
    obtain ⟨next, after, hi, hrest⟩ := h
    exact ih next after (collectItem_fresh hrec call item acc next start counters after ha hi) hrest

end

theorem collectFields_fresh (index : Index) (fragments : Fragments) (fuel : Nat) (call : Call)
    (counters : Counters) (fields : List (Field Value)) (counters' : Counters)
    (h : collectFields index fragments fuel call counters = some (fields, counters')) :
    Fresh counters counters' fields := by
  induction fuel generalizing call counters fields counters' with
  | zero => simp [collectFields] at h
  | succ fuel ih =>
    simp only [collectFields, collectBody, bind_pure_comp, map_run, Option.map_eq_some_iff,
      Prod.mk.injEq, Prod.exists] at h
    obtain ⟨acc, after, hi, rfl, rfl⟩ := h
    have hacc := collectItems_fresh ih call call.selectionSet Collected.empty acc counters counters after
      (Fresh.nil (Nat.le_refl _)) hi
    have hkept := hacc.sublist ((List.Sublist.refl acc.fields).append
      (List.filter_sublist (p := (!acc.visited.contains ·.outputName)) (l := acc.fragmentsFields)))
    exact hkept.perm (List.perm_insertionSort _ _).symm

theorem build_ids_nodup (blueprint : Blueprint) (document : ExecutableDocument) (fuel : Nat)
    (operationName : Option String) (plan : OperationPlan Value)
    (h : build blueprint document fuel operationName = some (.ok plan)) : (ids plan.selection).Nodup := by
  simp only [build] at h
  cases hg : getOperation document operationName with
  | error e => simp [hg] at h
  | ok operation =>
    cases ht : getType blueprint.index operation.ty with
    | none => simp [hg, ht] at h
    | some name =>
      simp only [hg, ht, Option.map_eq_some_iff, Except.ok.injEq, Prod.exists] at h
      obtain ⟨fields, counters, hc, rfl⟩ := h
      exact (collectFields_fresh _ _ fuel _ _ fields counters hc).nodup

theorem executed_ids_nodup (frontend : Frontend) (blueprint : Blueprint) (fuel : Nat) (request : Request)
    (plan : OperationPlan Value) (hplan : createPlan frontend blueprint fuel request = some (.ok plan))
    (printer : SelectionSets.Printer ConstValue) (fuel' : Nat) (vars : Variables) (executed : OperationPlan ConstValue)
    (hexecuted : (resolveInput printer fuel' vars (Skip.transform vars plan)).run = some (.ok executed)) :
    (ids executed.selection).Nodup := by
  cases hdoc : frontend.parse request.query with
  | error message => simp [createPlan, hdoc] at hplan
  | ok document =>
    obtain ⟨built, hbuilt, rfl⟩ := createPlan_build frontend blueprint fuel request document plan hplan hdoc
    have hsame : ids executed.selection = ids (skipFields vars (planTransforms frontend.printer built).selection) :=
      calc ids executed.selection
          = ids (Field.skeletons executed.selection) := (ids_skeletons _).symm
        _ = ids (Field.skeletons (Skip.transform vars (planTransforms frontend.printer built)).selection) := by
          rw [(resolveInput_skeletons printer fuel' vars _ executed hexecuted).1]
        _ = ids (skipFields vars (planTransforms frontend.printer built).selection) := ids_skeletons _
    have hplanned : ids (planTransforms frontend.printer built).selection = ids built.selection := by
      rw [← ids_skeletons, planTransforms_skeletons, ids_skeletons]
    rw [hsame]
    apply (ids_skipFields vars _).nodup
    rw [hplanned]
    exact build_ids_nodup blueprint document fuel request.operationName built hbuilt

end Gqlforge.FieldIds
