import Gqlforge.FieldIds
import Gqlforge.ListAnswers

namespace Gqlforge.ExecutedStore

open Json Errors Resolvers Plan FieldIds Executor Synth NestedLists NestedLists.Nested ListAnswers

theorem nested_index (path : List Nat) (value inner : ConstValue) (h : indexValue path value = .value inner) :
    (nested value).at' path = some (nested inner) := by
  induction path generalizing value with
  | nil =>
    obtain rfl := Indexed.value.inj h
    rfl
  | cons index path ih =>
    cases value with
    | list items =>
      simp only [indexValue] at h
      simp only [nested, at', nestedItems_eq_map, List.getElem?_map]
      cases hi : items[index]? with
      | none => simp [hi] at h
      | some item =>
        simp only [hi] at h
        exact ih item h
    | _ => simp [indexValue] at h

theorem flat_index (path : List Nat) (values inner : Nested ConstValue) (h : values.at' path = some inner) :
    indexValue path (flat values) = .value (flat inner) := by
  induction path generalizing values with
  | nil =>
    obtain rfl := Option.some.inj h
    cases flat values <;> rfl
  | cons index path ih =>
    cases values with
    | item value => simp [at'] at h
    | list items =>
      simp only [at', Option.bind_eq_some_iff] at h
      obtain ⟨next, hn, h⟩ := h
      simp only [flat, flatItems_eq_map, indexValue, List.getElem?_map, hn, Option.map_some]
      exact ih next h

theorem indexValue_append (path : List Nat) (index : Nat) (value item : ConstValue) (items : List ConstValue)
    (h : indexValue path value = .value (.list items)) (hi : items[index]? = some item) :
    indexValue (path ++ [index]) value = .value item := by
  induction path generalizing value with
  | nil =>
    obtain rfl := Indexed.value.inj h
    simp only [List.nil_append, indexValue, hi]
  | cons first path ih =>
    cases value with
    | list values =>
      simp only [indexValue, List.cons_append] at h ⊢
      cases hv : values[first]? with
      | none => simp [hv] at h
      | some next =>
        simp only [hv] at h ⊢
        exact ih next h
    | _ => simp [indexValue] at h

/-- The lists of `value` are the outer lists of `stored`, with related values in the place of the items. -/
def Filled (r : ConstValue → ConstValue → Prop) (value stored : ConstValue) : Prop :=
  ∃ answers, stored = flat answers ∧ Rel r (nested value) answers

section

variable {r : ConstValue → ConstValue → Prop}

theorem filled_index (path : List Nat) (value stored inner : ConstValue) (h : Filled r value stored)
    (hi : indexValue path value = .value inner) :
    ∃ answer, indexValue path stored = .value answer ∧ Filled r inner answer := by
  obtain ⟨answers, rfl, hr⟩ := h
  have hn := nested_index path value inner hi
  obtain ⟨found, hf, hrel⟩ := rel_at path (nested value) answers hr (nested inner) hn
  exact ⟨flat found, flat_index path answers found hf, found, rfl, hrel⟩

theorem filled_item (value stored : ConstValue) (hv : value.asArray = none) :
    Filled r value stored ↔ r value stored := by
  constructor
  · rintro ⟨answers, rfl, hr⟩
    rw [nested_item value hv] at hr
    obtain ⟨answer, rfl, h⟩ := rel_item value answers hr
    exact h
  · intro h
    refine ⟨.item stored, rfl, ?_⟩
    rw [nested_item value hv]
    exact h

end

section

variable {σ : Type} (plan : OperationPlan ConstValue)
variable (eval : IR → Context → StateM σ (Except EvalError ConstValue))

def Answered (ir : IR) (field : Field ConstValue) (item stored : ConstValue) : Prop :=
  ∃ s, ((call eval ir (Context.withValueAndField item field)).run s).1 = .ok stored

def Answers (ir : IR) (field : Field ConstValue) (item stored : ConstValue) : Prop :=
  plan.fieldIsPartOfValue field item = true → Answered eval ir field item stored

theorem constValueExec_filled (ir : IR) (field : Field ConstValue) (value stored : ConstValue) (s : σ)
    (h : ((constValueExec plan eval ir ⟨some value, buildArgs field, field⟩).run s).1 = .ok stored) :
    Filled (Answers plan eval ir field) value stored := by
  cases hv : value.asArray with
  | none =>
    rw [filled_item value stored hv]
    intro _
    have hcall : constValueExec plan eval ir ⟨some value, buildArgs field, field⟩ =
        call eval ir ⟨some value, buildArgs field, field⟩ := by
      cases value with
      | list items => exact absurd hv (by simp [ConstValue.asArray])
      | _ => rfl
    rw [hcall] at h
    exact ⟨s, h⟩
  | some items =>
    have hlist : value = .list items := by
      cases value <;> simp_all [ConstValue.asArray]
    subst hlist
    rw [constValueExec_list plan eval ir _ items rfl] at h
    have hrun : ((answerItems plan eval ir ⟨some (.list items), buildArgs field, field⟩ (.list items)).run s).1 =
        ((((nested (.list items)).mapM (answer (plan.fieldIsPartOfValue field) fun item =>
          call eval ir (Context.withValueAndField item field))).run s).1.mapM
            (settle id ConstValue.null)).map flat := rfl
    rw [hrun] at h
    have hanswers := @mapM_rel _ _ (fun item (result : Option (Except Error ConstValue)) =>
        plan.fieldIsPartOfValue field item = true →
          ∃ s, some ((call eval ir (Context.withValueAndField item field)).run s).1 = result)
      _ (answer (plan.fieldIsPartOfValue field) fun item => call eval ir (Context.withValueAndField item field))
      (fun item s hp => ⟨s, by rw [answer, if_pos hp]; rfl⟩) (nested (.list items)) s
    cases hm : (((nested (.list items)).mapM (answer (plan.fieldIsPartOfValue field) fun item =>
        call eval ir (Context.withValueAndField item field))).run s).1.mapM (settle id ConstValue.null) with
    | error e => simp [hm, Except.map] at h
    | ok answers =>
      simp only [hm, Except.map, Except.ok.injEq] at h
      have hsettled := @mapM_ok_rel _ _ (fun result stored => settle id ConstValue.null result = .ok stored) _ _
        (fun _ _ h => h) _ answers hm
      refine ⟨answers, h.symm, rel_trans ?_ _ _ _ hanswers hsettled⟩
      intro item result stored hr hs hp
      obtain ⟨s, rfl⟩ := hr hp
      exact ⟨s, hs⟩

variable (store : Store)

mutual

/-- What the store holds once a field has been executed below a value: nothing for a field without a
resolver; for one with a resolver an answer for every item, and the fields below were executed on them. -/
def Executed (value : Option ConstValue) : Field ConstValue → Prop
  | field@{ ir := some ir, selection := fields, .. } =>
    ∃ result, store.get field.id = some result ∧
      ∀ stored, result = .ok stored →
        (∀ parent, value = some parent → Filled (Answers plan eval ir field) parent stored) ∧
        ExecutedAll stored fields
  | { id, ir := none, outputName, selection := fields, .. } =>
    store.get id = none ∧ ExecutedAll (entryOf outputName value) fields

def ExecutedAll (value : ConstValue) : List (Field ConstValue) → Prop
  | [] => True
  | field :: rest => Executed (some value) field ∧ ExecutedAll value rest

end

variable {plan eval store}

theorem executed_resolver (value : Option ConstValue) (field : Field ConstValue) (ir : IR) (hir : field.ir = some ir) :
    Executed plan eval store value field ↔ ∃ result, store.get field.id = some result ∧
      ∀ stored, result = .ok stored →
        (∀ parent, value = some parent → Filled (Answers plan eval ir field) parent stored) ∧
        ExecutedAll plan eval store stored field.selection := by
  cases field
  obtain rfl := hir
  exact Iff.rfl

theorem executed_entry (value : Option ConstValue) (field : Field ConstValue) (hir : field.ir = none) :
    Executed plan eval store value field ↔ store.get field.id = none ∧
      ExecutedAll plan eval store (entryOf field.outputName value) field.selection := by
  cases field
  obtain rfl := hir
  exact Iff.rfl

theorem Store.get_set (store : Store) (id : Nat) (result : Except Positioned ConstValue) (other : Nat) :
    (store.set id result).get other = if other = id then some result else store.get other := by
  by_cases h : other = id
  · rw [if_pos h, h]
    simp [Store.set, Store.get]
  · rw [if_neg h]
    simp [Store.set, Store.get, List.lookup_cons, beq_eq_false_iff_ne.mpr h]

mutual

theorem executed_congr {store store' : Store} (value : Option ConstValue) (field : Field ConstValue)
    (hs : ∀ id ∈ field.id :: ids field.selection, store.get id = store'.get id)
    (h : Executed plan eval store value field) : Executed plan eval store' value field := by
  match field with
  | { ir := some ir, selection := fields, .. } =>
    obtain ⟨result, hr, hstored⟩ := h
    refine ⟨result, (hs _ List.mem_cons_self) ▸ hr, ?_⟩
    intro stored hok
    obtain ⟨hfilled, hbelow⟩ := hstored stored hok
    exact ⟨hfilled, executedAll_congr stored fields (fun id hid => hs id (List.mem_cons_of_mem _ hid)) hbelow⟩
  | { ir := none, selection := fields, .. } =>
    obtain ⟨hnone, hbelow⟩ := h
    refine ⟨(hs _ List.mem_cons_self) ▸ hnone, ?_⟩
    exact executedAll_congr _ fields (fun id hid => hs id (List.mem_cons_of_mem _ hid)) hbelow

theorem executedAll_congr {store store' : Store} (value : ConstValue) (fields : List (Field ConstValue))
    (hs : ∀ id ∈ ids fields, store.get id = store'.get id)
    (h : ExecutedAll plan eval store value fields) : ExecutedAll plan eval store' value fields := by
  match fields with
  | [] => trivial
  | field :: rest =>
    obtain ⟨hfield, hrest⟩ := h
    constructor
    · apply executed_congr (some value) field _ hfield
      intro id hid
      exact hs id (by rw [ids_cons]; exact List.mem_append_left _ hid)
    · apply executedAll_congr value rest _ hrest
      intro id hid
      exact hs id (by rw [ids_cons]; exact List.mem_append_right _ hid)

end

/-- Running the fields from a store that holds nothing of them leaves it with their answers, and with all
else as it was. -/
structure Runs (x : StateT Store (StateM σ) Unit) (own : List Nat) (executed : Store → Prop) : Prop where
  run : ∀ store s, (∀ id ∈ own, store.get id = none) → executed ((x.run store).run s).1.2
  frame : ∀ store s, ∀ id, id ∉ own → ((x.run store).run s).1.2.get id = store.get id

theorem Runs.seq {x y : StateT Store (StateM σ) Unit} {own own' : List Nat} {p q : Store → Prop}
    (hx : Runs x own p) (hy : Runs y own' q) (hdisjoint : ∀ id ∈ own, id ∉ own')
    (hp : ∀ store store', (∀ id ∈ own, Store.get store id = store'.get id) → p store → p store') :
    Runs (do x; y) (own ++ own') fun store => p store ∧ q store := by
  constructor
  · intro store s hfree
    let first := (x.run store).run s
    have hfirst := hx.run store s fun id hid => hfree id (List.mem_append_left _ hid)
    have hfree' : ∀ id ∈ own', first.1.2.get id = none := by
      intro id hid
      rw [hx.frame store s id fun h => hdisjoint id h hid]
      exact hfree id (List.mem_append_right _ hid)
    refine ⟨hp _ _ ?_ hfirst, hy.run first.1.2 first.2 hfree'⟩
    intro id hid
    exact (hy.frame first.1.2 first.2 id (hdisjoint id hid)).symm
  · intro store s id hid
    let first := (x.run store).run s
    have hframe := hx.frame store s id fun h => hid (List.mem_append_left _ h)
    have hframe' := hy.frame first.1.2 first.2 id fun h => hid (List.mem_append_right _ h)
    exact hframe'.trans hframe

def keepResult (irExec : IR → Context → StateM σ (Except Error ConstValue)) (id : Nat) (pos : Document.Pos)
    (fields : List (Field ConstValue)) (result : Except Error ConstValue) : StateT Store (StateM σ) Unit := do
  match result with
    | .ok value => iterField irExec value fields
    | .error _ => pure ()
  modify (·.set id (result.mapError (Positioned.new · pos)))

theorem execute_run (irExec : IR → Context → StateM σ (Except Error ConstValue)) (value : Option ConstValue)
    (field : Field ConstValue) (ir : IR) (hir : field.ir = some ir) (store : Store) (s : σ) :
    ((execute irExec value field).run store).run s =
      match (irExec ir ⟨value, buildArgs field, field⟩).run s with
      | (.ok stored, s') =>
        let below := ((iterField irExec stored field.selection).run store).run s'
        (((), below.1.2.set field.id (.ok stored)), below.2)
      | (.error error, s') => (((), store.set field.id (.error (Positioned.new error field.pos))), s') := by
  cases field with
  | mk id name outputName ir' typeOf typeCondition skipVar includeVar args fields parentFragment pos directives
      isEnum scalar =>
    obtain rfl : ir' = some ir := hir
    let field : Field ConstValue := ⟨id, name, outputName, some ir, typeOf, typeCondition, skipVar, includeVar,
      args, fields, parentFragment, pos, directives, isEnum, scalar⟩
    have hrun : ((execute irExec value field).run store).run s =
        ((keepResult irExec id pos fields ((irExec ir ⟨value, buildArgs field, field⟩).run s).1).run store).run
          ((irExec ir ⟨value, buildArgs field, field⟩).run s).2 := rfl
    rw [hrun]
    obtain ⟨result, s'⟩ := (irExec ir ⟨value, buildArgs field, field⟩).run s
    cases result with
    | ok stored => rfl
    | error error => rfl

theorem execute_runs_resolver (value : Option ConstValue) (field : Field ConstValue) (ir : IR)
    (hir : field.ir = some ir) (hid : field.id ∉ ids field.selection)
    (hruns : ∀ stored, Runs (iterField (constValueExec plan eval) stored field.selection) (ids field.selection)
      fun store => ExecutedAll plan eval store stored field.selection) :
    Runs (execute (constValueExec plan eval) value field) (field.id :: ids field.selection)
      fun store => Executed plan eval store value field := by
  constructor
  · intro store s hfree
    rw [execute_run (constValueExec plan eval) value field ir hir, executed_resolver value field ir hir]
    cases hr : (constValueExec plan eval ir ⟨value, buildArgs field, field⟩).run s with
    | mk result s' =>
      cases result with
      | error error =>
        refine ⟨.error (Positioned.new error field.pos), by simp [Store.get_set], ?_⟩
        intro stored h
        exact absurd h (by simp)
      | ok stored =>
        let below := ((iterField (constValueExec plan eval) stored field.selection).run store).run s'
        have hbelow := (hruns stored).run store s' fun id hid => hfree id (List.mem_cons_of_mem _ hid)
        refine ⟨.ok stored, by simp [Store.get_set], ?_⟩
        intro stored' h
        obtain rfl := Except.ok.inj h
        constructor
        · rintro parent rfl
          apply constValueExec_filled plan eval ir field parent stored s
          rw [hr]
        · apply executedAll_congr stored field.selection _ hbelow
          intro id hi
          have hne : id ≠ field.id := fun he => hid (he ▸ hi)
          rw [Store.get_set, if_neg hne]
  · intro store s other ho
    obtain ⟨hne, hnot⟩ := not_or.mp (fun h => ho (List.mem_cons.mpr h))
    rw [execute_run (constValueExec plan eval) value field ir hir]
    cases hr : (constValueExec plan eval ir ⟨value, buildArgs field, field⟩).run s with
    | mk result s' =>
      cases result with
      | error error => simp only [Store.get_set, if_neg hne]
      | ok stored =>
        simp only [Store.get_set, if_neg hne]
        exact (hruns stored).frame store s' other hnot

mutual

theorem execute_runs (value : Option ConstValue) (field : Field ConstValue)
    (hids : (field.id :: ids field.selection).Nodup) :
    Runs (execute (constValueExec plan eval) value field) (field.id :: ids field.selection)
      fun store => Executed plan eval store value field := by
  match field with
  | { ir := some ir, selection := fields, .. } =>
    obtain ⟨hid, hrest⟩ := List.nodup_cons.mp hids
    exact execute_runs_resolver value _ ir rfl hid fun stored => iterField_runs stored fields hrest
  | { ir := none, outputName := outputName, selection := fields, .. } =>
    obtain ⟨hid, hrest⟩ := List.nodup_cons.mp hids
    have hruns := iterField_runs (entryOf outputName value) fields hrest
    constructor
    · intro store s hfree
      have hbelow := hruns.run store s fun id hid => hfree id (List.mem_cons_of_mem _ hid)
      have hframe := hruns.frame store s _ hid
      exact ⟨hframe.trans (hfree _ List.mem_cons_self), hbelow⟩
    · intro store s other ho
      exact hruns.frame store s other fun h => ho (List.mem_cons_of_mem _ h)

theorem iterField_runs (value : ConstValue) (fields : List (Field ConstValue)) (hids : (ids fields).Nodup) :
    Runs (iterField (constValueExec plan eval) value fields) (ids fields)
      fun store => ExecutedAll plan eval store value fields := by
  match fields with
  | [] => exact ⟨fun _ _ _ => trivial, fun _ _ _ _ => rfl⟩
  | field :: rest =>
    rw [ids_cons] at hids ⊢
    obtain ⟨hfirst, hrest, hdisjoint⟩ := List.nodup_append.mp hids
    have hdisjoint : ∀ id ∈ field.id :: ids field.selection, id ∉ ids rest :=
      fun id h h' => hdisjoint id h id h' rfl
    exact (execute_runs (some value) field hfirst).seq (iterField_runs value rest hrest) hdisjoint
      fun _ _ hs h => executed_congr (some value) field hs h

end

theorem roots_runs (fields : List (Field ConstValue)) (hids : (ids fields).Nodup) :
    Runs (fields.forM (execute (constValueExec plan eval) none)) (ids fields)
      fun store => ∀ field ∈ fields, Executed plan eval store none field := by
  induction fields with
  | nil => exact ⟨fun _ _ _ _ h => absurd h List.not_mem_nil, fun _ _ _ _ => rfl⟩
  | cons field rest ih =>
    rw [ids_cons] at hids ⊢
    obtain ⟨hfirst, hrest, hdisjoint⟩ := List.nodup_append.mp hids
    have hdisjoint : ∀ id ∈ field.id :: ids field.selection, id ∉ ids rest :=
      fun id h h' => hdisjoint id h id h' rfl
    have hseq := (@execute_runs _ plan eval none field hfirst).seq (ih hrest) hdisjoint
      fun _ _ hs h => executed_congr none field hs h
    constructor
    · intro store s hfree other ho
      obtain ⟨hfield, hothers⟩ := hseq.run store s hfree
      rcases List.mem_cons.mp ho with rfl | ho
      · exact hfield
      · exact hothers other ho
    · exact hseq.frame

theorem store_executed (hids : (ids plan.selection).Nodup) (s : σ) :
    ∀ field ∈ plan.selection,
      Executed plan eval ((Executor.store (constValueExec plan eval) plan).run s).1 none field := by
  have hstore : ((Executor.store (constValueExec plan eval) plan).run s).1 =
      (((plan.selection.forM (execute (constValueExec plan eval) none)).run []).run s).1.2 := rfl
  rw [hstore]
  exact (roots_runs plan.selection hids).run [] s fun _ _ => rfl

end

end Gqlforge.ExecutedStore
