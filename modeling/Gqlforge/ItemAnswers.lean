import Gqlforge.Directives
import Gqlforge.ExecutedStore
import Gqlforge.SynthesisTypes

namespace Gqlforge.ItemAnswers

open Json Document Errors Resolvers Schema Plan Request InputResolver FieldIds Executor Synth ListAnswers
open ExecutedStore TypeSoundness SynthesisTypes Directives

theorem entryOf_list (outputName : String) (items : List ConstValue) :
    entryOf outputName (some (.list items)) = .list (items.map fun item => entryOf outputName (some item)) := by
  have hitems : Id.run (ConstValue.mapItems (fun value => pure ((value.getKey outputName).getD .null)) items) =
      items.map fun item => entryOf outputName (some item) := by
    induction items with
    | nil => rfl
    | cons item rest ih =>
      rw [List.map_cons, ← ih]
      rfl
  rw [← hitems]
  rfl

theorem entryOf_index (outputName : String) (path : List Nat) (value : ConstValue) (fields : Object ConstValue)
    (h : indexValue path value = .value (.object fields)) :
    indexValue path (entryOf outputName (some value)) =
      .value (((ConstValue.object fields).getKey outputName).getD .null) := by
  induction path generalizing value with
  | nil =>
    obtain rfl := Indexed.value.inj h
    rfl
  | cons index path ih =>
    cases value with
    | list items =>
      simp only [indexValue] at h
      rw [entryOf_list]
      simp only [indexValue, List.getElem?_map]
      cases hi : items[index]? with
      | none => simp [hi] at h
      | some item =>
        simp only [hi] at h
        exact ih item h
    | _ => simp [indexValue] at h

def ResolvesBelow (node : Field ConstValue) : Prop :=
  ∃ field ∈ Field.dfsAll node.selection, field.ir.isSome = true

theorem mem_dfsAll {Input : Type} (fields : List (Field Input)) (child field : Field Input) (hc : child ∈ fields)
    (hf : field = child ∨ field ∈ Field.dfsAll child.selection) : field ∈ Field.dfsAll fields := by
  induction fields with
  | nil => exact absurd hc List.not_mem_nil
  | cons first rest ih =>
    rw [Field.dfsAll, List.mem_append, dfs_eq, List.mem_cons]
    rcases List.mem_cons.mp hc with rfl | hc
    · exact .inl hf
    · exact .inr (ih hc)

theorem resolvesBelow_child (node child : Field ConstValue) (hc : child ∈ node.selection)
    (h : child.ir.isSome = true ∨ ResolvesBelow child) : ResolvesBelow node := by
  rcases h with h | ⟨field, hf, h⟩
  · exact ⟨child, mem_dfsAll node.selection child child hc (.inl rfl), h⟩
  · exact ⟨field, mem_dfsAll node.selection child field hc (.inr hf), h⟩

section

variable {σ : Type} (plan : OperationPlan ConstValue)
variable (eval : IR → Context → StateM σ (Except EvalError ConstValue)) (vars : Variables) (store : Store)

/-- Wherever an object is written, its entry at the response key of a field without a resolver but with
resolvers below it is its entry at the name of the field. -/
def EntriesAgree : Prop :=
  ∀ node typeOf path fields child, Shown plan vars store node typeOf path (.object fields) →
    child ∈ node.selection → plan.fieldIsPartOfValue child (.object fields) = true → child.skip vars = false →
    child.ir = none → ResolvesBelow child → ∀ value, (ConstValue.object fields).getKey child.name = some value →
      (ConstValue.object fields).getKey child.outputName = some value

/-- Below every object the index path of the object leads, in what is stored for a field with a resolver,
to an answer for that very object. -/
def ReadsOwn : Prop :=
  ∀ node typeOf path fields child ir, Shown plan vars store node typeOf path (.object fields) →
    child ∈ node.selection → plan.fieldIsPartOfValue child (.object fields) = true →
    child.ir = some ir → ∃ result, store.get child.id = some result ∧
      ∀ stored, result = .ok stored → ∃ found, indexValue path stored = .value found ∧
        Answered eval ir child (.object fields) found

variable {plan eval vars store}

theorem executedAll_mem (value : ConstValue) (fields : List (Field ConstValue)) (field : Field ConstValue)
    (h : ExecutedAll plan eval store value fields) (hf : field ∈ fields) :
    Executed plan eval store (some value) field := by
  induction fields with
  | nil => exact absurd hf List.not_mem_nil
  | cons first rest ih =>
    rcases List.mem_cons.mp hf with rfl | hf
    · exact h.1
    · exact ih h.2 hf

theorem shown_fed (hroot : ∀ field ∈ plan.selection, Executed plan eval store none field)
    (hagree : EntriesAgree plan vars store) (node : Field ConstValue) (typeOf : Schema.WrappingType)
    (path : List Nat) (value : ConstValue) (h : Shown plan vars store node typeOf path value) :
    ∃ fed, ExecutedAll plan eval store fed node.selection ∧
      (ResolvesBelow node → indexValue path fed = .value value) := by
  refine @Shown.rec plan vars store
    (fun node value path _ _ => ∃ parent, Executed plan eval store parent node ∧
      ∀ given, value = some given → ∃ fed fields, parent = some fed ∧
        (ResolvesBelow node → indexValue path fed = .value (.object fields)) ∧
        (node.ir = none → ResolvesBelow node →
          (ConstValue.object fields).getKey node.outputName = some given))
    (fun node _ path value _ => ∃ fed, ExecutedAll plan eval store fed node.selection ∧
      (ResolvesBelow node → indexValue path fed = .value value)) ?_ ?_ ?_ ?_ ?_ _ _ _ _ h
  · intro child hc _
    exact ⟨none, hroot child hc, fun _ h => absurd h (by simp)⟩
  · rintro node typeOf path fields child hshown _ hc hp hs _ ⟨fed, hfed, hindex⟩
    refine ⟨some fed, executedAll_mem fed node.selection child hfed hc, ?_⟩
    intro given hg
    refine ⟨fed, fields, rfl, fun hr => hindex (resolvesBelow_child node child hc (.inr hr)), ?_⟩
    intro hir hr
    exact hagree node typeOf path fields child hshown hc hp hs hir hr given hg
  · rintro node value path rootName stored inner _ hs hi _ ⟨parent, hexecuted, -⟩
    cases hir : node.ir with
    | some ir =>
      obtain ⟨result, hr, hstored⟩ := (executed_resolver parent node ir hir).mp hexecuted
      have hok : result = .ok stored := Option.some.inj (hr.symm.trans hs)
      exact ⟨stored, (hstored stored hok).2, fun _ => hi⟩
    | none =>
      obtain ⟨hnone, -⟩ := (executed_entry parent node hir).mp hexecuted
      exact absurd (hnone.symm.trans hs) (by simp)
  · rintro node value path rootName _ hs ⟨parent, hexecuted, hgiven⟩
    obtain ⟨fed, fields, rfl, hindex, hentry⟩ := hgiven value rfl
    cases hir : node.ir with
    | some ir =>
      obtain ⟨result, hr, -⟩ := (executed_resolver _ node ir hir).mp hexecuted
      exact absurd (hr.symm.trans hs) (by simp)
    | none =>
      obtain ⟨-, hbelow⟩ := (executed_entry _ node hir).mp hexecuted
      refine ⟨_, hbelow, ?_⟩
      intro hr
      rw [entryOf_index node.outputName path fed fields (hindex hr), hentry hir hr, Option.getD_some]
  · rintro node typeOf path items index item _ _ hi ⟨fed, hfed, hindex⟩
    exact ⟨fed, hfed, fun hr => indexValue_append path index fed item items (hindex hr) hi⟩

theorem reads_own (hroot : ∀ field ∈ plan.selection, Executed plan eval store none field)
    (hagree : EntriesAgree plan vars store) : ReadsOwn plan eval vars store := by
  intro node typeOf path fields child ir hshown hc hp hir
  obtain ⟨fed, hfed, hindex⟩ := shown_fed hroot hagree node typeOf path (.object fields) hshown
  have hchild := executedAll_mem fed node.selection child hfed hc
  obtain ⟨result, hr, hstored⟩ := (executed_resolver (some fed) child ir hir).mp hchild
  refine ⟨result, hr, ?_⟩
  intro stored hok
  have hfilled := (hstored stored hok).1 fed rfl
  have hbelow : ResolvesBelow node := resolvesBelow_child node child hc (.inl (by rw [hir]; rfl))
  obtain ⟨found, hfound, hanswer⟩ := filled_index path fed stored (.object fields) hfilled (hindex hbelow)
  rw [filled_item (.object fields) found rfl] at hanswer
  exact ⟨found, hfound, hanswer hp⟩

end

mutual

theorem mem_dfs_below {Input : Type} (field node child : Field Input) (hn : node ∈ field.dfs)
    (hc : child ∈ node.selection) : child ∈ Field.dfsAll field.selection := by
  match field with
  | { selection := fields, .. } =>
    rw [dfs_eq, List.mem_cons] at hn
    rcases hn with rfl | hn
    · exact mem_dfsAll fields child child hc (.inl rfl)
    · exact mem_dfsAll_below fields node child hn hc

theorem mem_dfsAll_below {Input : Type} (fields : List (Field Input)) (node child : Field Input)
    (hn : node ∈ Field.dfsAll fields) (hc : child ∈ node.selection) : child ∈ Field.dfsAll fields := by
  match fields with
  | [] => exact absurd hn List.not_mem_nil
  | field :: rest =>
    rw [Field.dfsAll, List.mem_append] at hn ⊢
    rcases hn with hn | hn
    · apply Or.inl
      rw [dfs_eq]
      exact List.mem_cons_of_mem _ (mem_dfs_below field node child hn hc)
    · exact .inr (mem_dfsAll_below rest node child hn hc)

end

variable {plan : OperationPlan ConstValue} {vars : Variables} {store : Store}

theorem shown_planned (node : Field ConstValue) (typeOf : WrappingType) (path : List Nat) (value : ConstValue)
    (h : Shown plan vars store node typeOf path value) : node ∈ plan.iterDfs := by
  refine @Shown.rec plan vars store (fun node _ _ _ _ => node ∈ plan.iterDfs)
    (fun node _ _ _ _ => node ∈ plan.iterDfs) ?_ ?_ ?_ ?_ ?_ _ _ _ _ h
  · intro child hc _
    exact mem_dfsAll plan.selection child child hc (.inl rfl)
  · intro node typeOf path fields child _ _ hc _ _ _ ih
    exact mem_dfsAll_below plan.selection node child ih hc
  · exact fun _ _ _ _ _ _ _ _ _ _ ih => ih
  · exact fun _ _ _ _ _ _ ih => ih
  · exact fun _ _ _ _ _ _ _ _ _ ih => ih

theorem entriesAgree_of_unaliased
    (h : ∀ field ∈ plan.iterDfs, field.ir = none → ResolvesBelow field → field.outputName = field.name) :
    EntriesAgree plan vars store := by
  intro node typeOf path fields child hshown hc _ _ hir hbelow value hv
  have hnode := shown_planned node typeOf path (.object fields) hshown
  have hchild := mem_dfsAll_below plan.selection node child hnode hc
  rw [h child hchild hir hbelow]
  exact hv

theorem items_answered {σ : Type} (frontend : Frontend) (blueprint : Blueprint) (fuel : Nat) (request : Request)
    (plan : OperationPlan Value) (hplan : createPlan frontend blueprint fuel request = some (.ok plan))
    (printer : SelectionSets.Printer ConstValue) (fuel' : Nat) (vars : Variables)
    (executed : OperationPlan ConstValue)
    (hexecuted : (resolveInput printer fuel' vars (Skip.transform vars plan)).run = some (.ok executed))
    (eval : IR → Context → StateM σ (Except EvalError ConstValue)) (s : σ) :
    (∀ ir ctx items, ctx.value = some (.list items) →
      constValueExec executed eval ir ctx = answerItems executed eval ir ctx (.list items)) ∧
    (∀ field ∈ executed.selection,
      Executed executed eval ((Executor.store (constValueExec executed eval) executed).run s).1 none field) ∧
    (EntriesAgree executed vars ((Executor.store (constValueExec executed eval) executed).run s).1 →
      ReadsOwn executed eval vars ((Executor.store (constValueExec executed eval) executed).run s).1) := by
  have hids : (ids executed.selection).Nodup :=
    executed_ids_nodup frontend blueprint fuel request plan hplan printer fuel' vars executed hexecuted
  have hroots := @store_executed _ executed eval hids s
  exact ⟨constValueExec_list executed eval, hroots, reads_own hroots⟩

def cityBlueprint : Blueprint :=
  ⟨[.object "Query" [⟨"user", [], .named "User" false, some (.dynamic (.const .null))⟩] [],
    .object "User" [⟨"place", [], .named "Place" false, none⟩] [],
    .object "Place" [⟨"city", [], .named "String" false, some (.dynamic (.const .null))⟩] []],
    ⟨"Query", none, none⟩⟩

def cityItem (placeAlias : Option String) : Selection :=
  .field ⟨1, 3⟩ none "user" [] []
    [.field ⟨1, 10⟩ placeAlias "place" [] [] [.field ⟨1, 20⟩ none "city" [] [] []]]

def cityField {Input : Type} : Field Input :=
  ⟨2, "city", "city", some (.dynamic (.const .null)), .named "String" false, some "Place", none, none, [], [], none,
    ⟨1, 20⟩, [], false, some .empty⟩

def placeField {Input : Type} (outputName : String) : Field Input :=
  ⟨1, "place", outputName, none, .named "Place" false, some "User", none, none, [], [cityField], none, ⟨1, 10⟩, [],
    false, none⟩

def userField {Input : Type} (outputName : String) : Field Input :=
  ⟨0, "user", "user", some (.dynamic (.const .null)), .named "User" false, some "Query", none, none, [],
    [placeField outputName], none, ⟨1, 3⟩, [], false, none⟩

def cityPlan {Input : Type} (outputName : String) (interfaces : Option (List String)) : OperationPlan Input :=
  ⟨"Query", .query, cityBlueprint.index, false, true, true, false, none, [userField outputName], none, interfaces⟩

def cityEval (_ : IR) (ctx : Context) : StateM Unit (Except EvalError ConstValue) :=
  match ctx.value with
  | none => return .ok (.object [("place", .object [])])
  | some _ => return .ok (.string "Rome")

def cityStore (outputName : String) : Store :=
  ((Executor.store (constValueExec (cityPlan outputName none) cityEval) (cityPlan outputName none)).run ()).1

theorem createPlan_city (placeAlias : Option String) :
    createPlan (frontendOf [cityItem placeAlias]) cityBlueprint 4 ⟨"", none, [], []⟩ =
      some (.ok (cityPlan (placeAlias.getD "place") (some []))) :=
  rfl

theorem resolveInput_city (outputName : String) :
    (resolveInput ⟨fun _ => "", fun _ => false⟩ 1 [] (Skip.transform [] (cityPlan outputName (some [])))).run =
      some (.ok (cityPlan outputName none)) :=
  rfl

theorem items_answered_city : ReadsOwn (cityPlan "place" none) cityEval [] (cityStore "place") := by
  apply (items_answered (frontendOf [cityItem none]) cityBlueprint 4 ⟨"", none, [], []⟩ _ (createPlan_city none)
    ⟨fun _ => "", fun _ => false⟩ 1 [] (cityPlan "place" none) (resolveInput_city "place") cityEval ()).2.2
  have hnames : ∀ field ∈ (cityPlan "place" none : OperationPlan ConstValue).iterDfs,
      field.outputName = field.name := by decide
  exact entriesAgree_of_unaliased fun field hf _ _ => hnames field hf

theorem readsOwn_below {σ : Type} {eval : IR → Context → StateM σ (Except EvalError ConstValue)}
    (h : ReadsOwn plan eval vars store) (top middle field : Field ConstValue) (ir : IR)
    (fields below : Object ConstValue) (found : ConstValue) (htop : top ∈ plan.selection) (hts : top.skip vars = false)
    (htv : store.get top.id = some (.ok (.object fields))) (htm : mismatched top (.object fields) = false)
    (htl : isLeaf top = false) (hmiddle : middle ∈ top.selection)
    (hmp : plan.fieldIsPartOfValue middle (.object fields) = true) (hms : middle.skip vars = false)
    (hmn : middle.name ≠ "__typename") (hmv : (ConstValue.object fields).getKey middle.name = some (.object below))
    (hnone : store.get middle.id = none) (hfield : field ∈ middle.selection)
    (hfp : plan.fieldIsPartOfValue field (.object below) = true) (hir : field.ir = some ir)
    (hfv : store.get field.id = some (.ok found)) : Answered eval ir field (.object below) found := by
  have hasked := @Asked.root plan vars store top htop hts
  have hshown := Shown.stored top none [] (some plan.rootName) (.object fields) (.object fields) hasked htv rfl htm
  have hchild := Asked.child top top.typeOf [] fields middle hshown htl hmiddle hmp hms hmn
  rw [hmv] at hchild
  have hgiven := Shown.given middle (.object below) [] none hchild hnone
  obtain ⟨result, hr, hstored⟩ := h middle middle.typeOf [] below field ir hgiven hfield hfp hir
  have hok : result = .ok found := Option.some.inj (hr.symm.trans hfv)
  obtain ⟨value, hv, hanswer⟩ := hstored found hok
  obtain rfl := Indexed.value.inj hv
  exact hanswer

theorem items_not_answered :
    ∃ plan, createPlan (frontendOf [cityItem (some "home")]) cityBlueprint 4 ⟨"", none, [], []⟩ = some (.ok plan) ∧
      (resolveInput ⟨fun _ => "", fun _ => false⟩ 1 [] (Skip.transform [] plan)).run = some (.ok (cityPlan "home" none)) ∧
      ¬ ReadsOwn (cityPlan "home" none) cityEval [] (cityStore "home") := by
  refine ⟨_, createPlan_city (some "home"), resolveInput_city "home", ?_⟩
  intro h
  obtain ⟨s, hs⟩ := readsOwn_below h (userField "home") (placeField "home") cityField _ [("place", .object [])] []
    .null List.mem_cons_self rfl rfl rfl rfl List.mem_cons_self rfl rfl (by decide) rfl rfl List.mem_cons_self rfl
    rfl rfl
  exact absurd (Except.ok.inj hs) (by simp)

end Gqlforge.ItemAnswers
