import Gqlforge.TypeSoundness

namespace Gqlforge.SynthesisTypes

open Json Errors Schema Plan Executor Synth Outcomes TypeSoundness

def mismatched (node : Field ConstValue) (value : ConstValue) : Bool :=
  node.scalar != some .json && node.typeOf.isList != value.asArray.isSome

section

variable (formats : Scalar.Formats) (plan : OperationPlan ConstValue) (vars : Variables) (store : Store)

mutual

/-- The fields that are processed, with the value and the index path they are processed with. -/
inductive Asked : Field ConstValue → Option ConstValue → List Nat → Option String → Prop
  | root (child : Field ConstValue) (h : child ∈ plan.selection) (hs : child.skip vars = false) :
      Asked child none [] (some plan.rootName)
  | child (node : Field ConstValue) (typeOf : WrappingType) (path : List Nat) (fields : Object ConstValue)
      (child : Field ConstValue) (h : Shown node typeOf path (.object fields)) (hl : isLeaf node = false)
      (hc : child ∈ node.selection) (hp : plan.fieldIsPartOfValue child (.object fields) = true)
      (hs : child.skip vars = false) (hn : child.name ≠ "__typename") :
      Asked child ((ConstValue.object fields).getKey child.name) path none

/-- The values the output is written from, with the level of the type of their field they stand at. -/
inductive Shown : Field ConstValue → WrappingType → List Nat → ConstValue → Prop
  | stored (node : Field ConstValue) (value : Option ConstValue) (path : List Nat)
      (rootName : Option String) (stored inner : ConstValue) (h : Asked node value path rootName)
      (hs : store.get node.id = some (.ok stored)) (hi : indexValue path stored = .value inner)
      (hm : mismatched node inner = false) : Shown node node.typeOf path inner
  | given (node : Field ConstValue) (value : ConstValue) (path : List Nat) (rootName : Option String)
      (h : Asked node (some value) path rootName) (hs : store.get node.id = none) :
      Shown node node.typeOf path value
  | item (node : Field ConstValue) (typeOf : WrappingType) (path : List Nat) (items : List ConstValue)
      (index : Nat) (item : ConstValue) (h : Shown node typeOf path (.list items)) (hl : isLeaf node = false)
      (hi : items[index]? = some item) : Shown node (itemType typeOf) (path ++ [index]) item

end

/-- Everywhere in the response the code is aligned with the types, and no index path leads into something
that is not a list at a field that cannot be null. -/
structure AlignedEverywhere : Prop where
  shown : ∀ node typeOf path value, Shown plan vars store node typeOf path value →
    Aligned formats plan node typeOf value
  asked : ∀ node value path rootName stored, Asked plan vars store node value path rootName →
    store.get node.id = some (.ok stored) → indexValue path stored = .notArray → node.typeOf.isNullable = true

structure FineEverywhere : Prop where
  shown : ∀ node typeOf path value, Shown plan vars store node typeOf path value →
    Fine formats plan node typeOf value
  resolved : ∀ node value path rootName error, Asked plan vars store node value path rootName →
    store.get node.id ≠ some (.error error)
  indexed : ∀ node value path rootName stored, Asked plan vars store node value path rootName →
    store.get node.id = some (.ok stored) → indexValue path stored ≠ .outOfBounds
  shaped : ∀ node value path rootName stored inner, Asked plan vars store node value path rootName →
    store.get node.id = some (.ok stored) → indexValue path stored = .value inner →
    mismatched node inner = true → node.typeOf.isNullable = true
  present : ∀ node path rootName, Asked plan vars store node none path rootName → store.get node.id = none →
    node.typeOf.isNullable = true ∨ rootName.isSome = true ∧ node.name = "__typename"

def ConformsRoot (output : Output) : Prop :=
  ∃ entries, output = .object entries ∧ ∀ entry ∈ entries, ∃ child ∈ plan.selection,
    child.outputName = entry.1 ∧ Conforms formats plan child child.typeOf entry.2

end

section

variable {formats : Scalar.Formats} {plan : OperationPlan ConstValue} {vars : Variables} {store : Store}
variable {w : Prop}

theorem failAt_settles {post : Output → Prop} (node : Field ConstValue) (error : ValidationError)
    (h : ¬ w) : Settles w (failAt node error) post := by
  apply settles_bind settles_get
  intro path _
  exact settles_throw _ h

theorem push_settles (segment : PathSegment) : Settles w (push segment) fun _ => True :=
  settles_modify _

theorem pop_settles : Settles w pop fun _ => True :=
  settles_modify _

theorem nodeNullableGuard_settles (node : Field ConstValue) (rootName : Option String)
    (h : w → node.typeOf.isNullable = true ∨ rootName.isSome = true ∧ node.name = "__typename") :
    Settles w (nodeNullableGuard node rootName) (Conforms formats plan node node.typeOf) := by
  unfold nodeNullableGuard
  split
  · rename_i name hn
    exact settles_pure (.typename node node.typeOf name (by simpa using hn))
  · rename_i hroot
    by_cases hnull : node.typeOf.isNullable = true
    · rw [if_pos hnull]
      exact settles_pure (.null node node.typeOf hnull)
    · rw [if_neg hnull]
      apply failAt_settles
      intro hw
      rcases h hw with h | ⟨hsome, hname⟩
      · exact hnull h
      · obtain ⟨name, rfl⟩ := Option.isSome_iff_exists.mp hsome
        exact hroot name rfl (by simp [hname])

section

variable (node : Field ConstValue)
variable (objectFields : List Nat → ConstValue → Synthesis (List (String × Output)))

theorem iterInner_leaf (hskip : node.skip vars = false) (typeOf : WrappingType) (dataPath : List Nat)
    (value : ConstValue) (result : Except ValidationError Output)
    (hc : checkLeaf formats plan vars node value = some result)
    (ha : Aligned formats plan node typeOf value) (hf : w → Fine formats plan node typeOf value) :
    Settles w (iterInner formats plan vars node objectFields dataPath value) (Conforms formats plan node typeOf) := by
  obtain ⟨hsound, hcomplete⟩ := (checkLeaf_meets_iff vars node hskip typeOf value).mpr ha
  have hrun : iterInner formats plan vars node objectFields dataPath value = (match result with
      | .ok output => pure output
      | .error error => failAt node error) := by
    cases value <;> cases result <;> simp only [iterInner, hc]
  rw [hrun]
  cases result with
  | ok output => exact settles_pure (hsound output hc)
  | error error => exact failAt_settles node error fun hw => hcomplete (hf hw) error hc

def Entries (formats : Scalar.Formats) (plan : OperationPlan ConstValue) (fields : List (Field ConstValue))
    (entries : List (String × Output)) : Prop :=
  ∃ written : List (Field ConstValue × Output),
    entries = written.map (fun entry => (entry.1.outputName, entry.2)) ∧
    (∀ entry ∈ written, entry.1 ∈ fields) ∧
    ∀ entry ∈ written, Conforms formats plan entry.1 entry.1.typeOf entry.2

mutual

theorem iterInner_settles (ha : AlignedEverywhere formats plan vars store)
    (hf : w → FineEverywhere formats plan vars store) (hskip : node.skip vars = false)
    (hobject : isLeaf node = false → ∀ typeOf path fields,
      Shown plan vars store node typeOf path (.object fields) →
        Settles w (objectFields path (.object fields)) (Entries formats plan node.selection))
    (typeOf : WrappingType) (path : List Nat) (value : ConstValue)
    (hshown : Shown plan vars store node typeOf path value) :
    Settles w (iterInner formats plan vars node objectFields path value) (Conforms formats plan node typeOf) := by
  have haligned := ha.shown node typeOf path value hshown
  cases hc : checkLeaf formats plan vars node value with
  | some result =>
    exact iterInner_leaf node objectFields hskip typeOf path value result hc haligned
      fun hw => (hf hw).shown node typeOf path value hshown
  | none =>
    obtain ⟨hn, hl⟩ := checkLeaf_eq_none vars node hskip value hc
    match value with
    | .list items =>
      simp only [iterInner, hc]
      apply settles_bind (iterItems_settles ha hf hskip hobject typeOf path items hshown hl [] items rfl)
      intro outputs houtputs
      exact settles_pure (.list node typeOf outputs (.inr hl) houtputs)
    | .object fields =>
      simp only [iterInner, hc]
      apply settles_bind (hobject hl typeOf path fields hshown)
      rintro entries ⟨written, rfl, hmem, hconforms⟩
      exact settles_pure (.object node typeOf written hmem hconforms)
    | .null => exact absurd hn (by simp [ConstValue.isNull])
    | .number value =>
      simp only [iterInner, hc]
      exact settles_pure (.plain node typeOf (.number value) hl hn rfl rfl)
    | .string value =>
      simp only [iterInner, hc]
      exact settles_pure (.plain node typeOf (.string value) hl hn rfl rfl)
    | .boolean value =>
      simp only [iterInner, hc]
      exact settles_pure (.plain node typeOf (.boolean value) hl hn rfl rfl)
    | .enum name =>
      simp only [iterInner, hc]
      exact settles_pure (.plain node typeOf (.enum name) hl hn rfl rfl)

theorem iterItems_settles (ha : AlignedEverywhere formats plan vars store)
    (hf : w → FineEverywhere formats plan vars store) (hskip : node.skip vars = false)
    (hobject : isLeaf node = false → ∀ typeOf path fields,
      Shown plan vars store node typeOf path (.object fields) →
        Settles w (objectFields path (.object fields)) (Entries formats plan node.selection))
    (typeOf : WrappingType) (path : List Nat) (items : List ConstValue)
    (hshown : Shown plan vars store node typeOf path (.list items)) (hl : isLeaf node = false)
    (done rest : List ConstValue) (hsplit : done ++ rest = items) :
    Settles w (iterItems formats plan vars node objectFields path done.length rest)
      fun outputs => ∀ output ∈ outputs, Conforms formats plan node (itemType typeOf) output := by
  match rest with
  | [] =>
    simp only [iterItems]
    exact settles_pure fun output ho => absurd ho List.not_mem_nil
  | item :: rest =>
    have hitem : items[done.length]? = some item := by
      rw [← hsplit, List.getElem?_append_right (Nat.le_refl _), Nat.sub_self, List.getElem?_cons_zero]
    have hnext : Shown plan vars store node (itemType typeOf) (path ++ [done.length]) item :=
      .item node typeOf path items done.length item hshown hl hitem
    have hsplit' : (done ++ [item]) ++ rest = items := by
      rw [List.append_assoc, List.singleton_append, hsplit]
    have hlength : (done ++ [item]).length = done.length + 1 := by
      rw [List.length_append, List.length_singleton]
    simp only [iterItems]
    apply settles_bind (push_settles _)
    intro _ _
    apply settles_bind (iterInner_settles ha hf hskip hobject (itemType typeOf) (path ++ [done.length]) item hnext)
    intro output houtput
    apply settles_bind pop_settles
    intro _ _
    have hrest := iterItems_settles ha hf hskip hobject typeOf path items hshown hl (done ++ [item]) rest hsplit'
    rw [hlength] at hrest
    apply settles_bind hrest
    intro outputs houtputs
    apply settles_pure
    intro other ho
    rcases List.mem_cons.mp ho with rfl | ho
    · exact houtput
    · exact houtputs other ho

end

end

theorem processNode_eq (value : Option ConstValue) (dataPath : List Nat) (rootName : Option String)
    (node : Field ConstValue) :
    processNode formats plan vars store value dataPath rootName node = (do
      push (.field node.outputName)
      let inner := iterInner formats plan vars node fun dataPath value =>
        processFields formats plan vars store dataPath node value node.selection
      match store.get node.id with
      | some (.error error) => throw (.error error)
      | some (.ok stored) => match indexValue dataPath stored with
        | .outOfBounds => throw .indexOutOfBounds
        | .notArray => return .null
        | .value value =>
          if mismatched node value then nodeNullableGuard node none
          else do
            let output ← inner dataPath value
            pop
            return output
      | none => match value with
        | some value => do
          let output ← inner dataPath value
          pop
          return output
        | none => do
          let output ← nodeNullableGuard node rootName
          pop
          return output) := by
  cases node
  rfl

theorem processNode_of_object (ha : AlignedEverywhere formats plan vars store)
    (hf : w → FineEverywhere formats plan vars store) (value : Option ConstValue) (path : List Nat)
    (rootName : Option String) (node : Field ConstValue) (hskip : node.skip vars = false)
    (hasked : Asked plan vars store node value path rootName)
    (hobject : isLeaf node = false → ∀ typeOf path fields,
      Shown plan vars store node typeOf path (.object fields) →
        Settles w (processFields formats plan vars store path node (.object fields) node.selection)
          (Entries formats plan node.selection)) :
    Settles w (processNode formats plan vars store value path rootName node)
      (Conforms formats plan node node.typeOf) := by
  have hpop (x : Synthesis Output) (hx : Settles w x (Conforms formats plan node node.typeOf)) :
      Settles w (do
        let output ← x
        pop
        return output) (Conforms formats plan node node.typeOf) := by
    apply settles_bind hx
    intro output houtput
    apply settles_bind pop_settles
    intro _ _
    exact settles_pure houtput
  have hinner (value : ConstValue) (hshown : Shown plan vars store node node.typeOf path value) :=
    iterInner_settles node (fun dataPath value => processFields formats plan vars store dataPath node value
      node.selection) ha hf hskip hobject node.typeOf path value hshown
  rw [processNode_eq]
  apply settles_bind (push_settles _)
  intro _ _
  cases hs : store.get node.id with
  | none =>
    cases value with
    | none =>
      apply hpop
      apply nodeNullableGuard_settles
      intro hw
      exact (hf hw).present node path rootName hasked hs
    | some value => exact hpop _ (hinner value (.given node value path rootName hasked hs))
  | some result =>
    cases result with
    | error error => exact settles_throw _ fun hw => (hf hw).resolved node value path rootName error hasked hs
    | ok stored =>
      cases hi : indexValue path stored with
      | outOfBounds =>
        simp only [hi]
        exact settles_throw _ fun hw => (hf hw).indexed node value path rootName stored hasked hs hi
      | notArray =>
        simp only [hi]
        exact settles_pure (.null node node.typeOf (ha.asked node value path rootName stored hasked hs hi))
      | value inner =>
        simp only [hi]
        by_cases hm : mismatched node inner = true
        · rw [if_pos hm]
          apply nodeNullableGuard_settles
          intro hw
          exact .inl ((hf hw).shaped node value path rootName stored inner hasked hs hi hm)
        · rw [if_neg hm]
          exact hpop _ (hinner inner (.stored node value path rootName stored inner hasked hs hi (by simpa using hm)))

mutual

theorem processNode_settles (ha : AlignedEverywhere formats plan vars store)
    (hf : w → FineEverywhere formats plan vars store) (value : Option ConstValue) (path : List Nat)
    (rootName : Option String) (node : Field ConstValue) (hskip : node.skip vars = false)
    (hasked : Asked plan vars store node value path rootName) :
    Settles w (processNode formats plan vars store value path rootName node)
      (Conforms formats plan node node.typeOf) := by
  match node with
  | { selection := fields, .. } =>
    apply processNode_of_object ha hf value path rootName _ hskip hasked
    intro hl typeOf path object hshown
    exact processFields_settles ha hf _ typeOf path object hshown hl fields fun _ hc => hc

theorem processFields_settles (ha : AlignedEverywhere formats plan vars store)
    (hf : w → FineEverywhere formats plan vars store) (node : Field ConstValue) (typeOf : WrappingType)
    (path : List Nat) (object : Object ConstValue) (hshown : Shown plan vars store node typeOf path (.object object))
    (hl : isLeaf node = false) (fields : List (Field ConstValue)) (hfields : ∀ child ∈ fields, child ∈ node.selection) :
    Settles w (processFields formats plan vars store path node (.object object) fields)
      (Entries formats plan fields) := by
  match fields with
  | [] =>
    simp only [processFields]
    exact settles_pure ⟨[], rfl, fun _ h => absurd h List.not_mem_nil, fun _ h => absurd h List.not_mem_nil⟩
  | child :: rest =>
    have hrest := processFields_settles ha hf node typeOf path object hshown hl rest
      fun child hc => hfields child (List.mem_cons_of_mem _ hc)
    simp only [processFields]
    by_cases hc : (plan.fieldIsPartOfValue child (.object object) && !child.skip vars) = true
    · rw [if_pos hc]
      obtain ⟨hpart, hskip⟩ := Bool.and_eq_true_iff.mp hc
      have hskip : child.skip vars = false := by simpa using hskip
      have houtput : Settles w (if (child.name == "__typename") = true
          then pure (Output.str (node.valueType (.object object)))
          else processNode formats plan vars store ((ConstValue.object object).getKey child.name) path none child)
          (Conforms formats plan child child.typeOf) := by
        by_cases hn : child.name = "__typename"
        · rw [if_pos (by simp [hn])]
          exact settles_pure (.typename child _ _ hn)
        · rw [if_neg (by simp [hn])]
          exact processNode_settles ha hf _ path none child hskip
            (.child node typeOf path object child hshown hl (hfields child List.mem_cons_self) hpart hskip hn)
      apply settles_bind houtput
      intro output hconforms
      apply settles_bind hrest
      rintro entries ⟨written, rfl, hmem, hwritten⟩
      apply settles_pure
      refine ⟨(child, output) :: written, rfl, ?_, ?_⟩
      · intro entry he
        rcases List.mem_cons.mp he with rfl | he
        · exact List.mem_cons_self
        · exact List.mem_cons_of_mem _ (hmem entry he)
      · intro entry he
        rcases List.mem_cons.mp he with rfl | he
        · exact hconforms
        · exact hwritten entry he
    · rw [if_neg hc]
      apply settles_mono hrest
      rintro entries ⟨written, rfl, hmem, hwritten⟩
      exact ⟨written, rfl, fun entry he => List.mem_cons_of_mem _ (hmem entry he), hwritten⟩

end

theorem synthesizeRoot_settles (ha : AlignedEverywhere formats plan vars store)
    (hf : w → FineEverywhere formats plan vars store) (data : Object Output) (fields : List (Field ConstValue))
    (hfields : ∀ child ∈ fields, child ∈ plan.selection)
    (hdata : ∀ entry ∈ data, ∃ child ∈ plan.selection, child.outputName = entry.1 ∧
      Conforms formats plan child child.typeOf entry.2) :
    Settles w (synthesizeRoot formats plan vars store data fields) fun data => ∀ entry ∈ data,
      ∃ child ∈ plan.selection, child.outputName = entry.1 ∧ Conforms formats plan child child.typeOf entry.2 := by
  induction fields generalizing data with
  | nil => exact settles_pure hdata
  | cons child rest ih =>
    have hrest : ∀ child ∈ rest, child ∈ plan.selection := fun child hc => hfields child (List.mem_cons_of_mem _ hc)
    have hchild := hfields child List.mem_cons_self
    rw [synthesizeRoot]
    by_cases hs : child.skip vars = true
    · rw [if_pos hs]
      exact ih data hrest hdata
    · rw [if_neg hs]
      have hskip : child.skip vars = false := by simpa using hs
      apply settles_bind (processNode_settles ha hf none [] (some plan.rootName) child hskip
        (.root child hchild hskip))
      intro output houtput
      apply ih _ hrest
      intro entry he
      rcases Object.mem_of_mem_insertKey data child.outputName output entry he with rfl | he
      · exact ⟨child, hchild, rfl, houtput⟩
      · exact hdata entry he

theorem synthesize_settles (ha : AlignedEverywhere formats plan vars store) :
    (∀ output, synthesize formats plan vars store = .ok output → ConformsRoot formats plan output) ∧
      (FineEverywhere formats plan vars store → ∃ output, synthesize formats plan vars store = .ok output) := by
  have hroot : Settles (FineEverywhere formats plan vars store)
      (synthesizeRoot formats plan vars store [] plan.selection) fun data => ∀ entry ∈ data,
        ∃ child ∈ plan.selection, child.outputName = entry.1 ∧ Conforms formats plan child child.typeOf entry.2 :=
    synthesizeRoot_settles ha id [] plan.selection (fun _ h => h) fun _ h => absurd h List.not_mem_nil
  obtain ⟨hsound, hcomplete⟩ := hroot []
  unfold synthesize
  constructor
  · intro output h
    cases hr : (synthesizeRoot formats plan vars store [] plan.selection).run [] with
    | error failure =>
      rw [hr] at h
      exact absurd h (by simp [Except.map])
    | ok result =>
      obtain ⟨data, path⟩ := result
      rw [hr] at h
      simp only [Except.map, Except.ok.injEq] at h
      exact ⟨data, h.symm, hsound data path hr⟩
  · intro hfine
    obtain ⟨data, path, hr⟩ := hcomplete hfine
    have hr : (synthesizeRoot formats plan vars store [] plan.selection).run [] = .ok (data, path) := hr
    rw [hr]
    exact ⟨.object data, rfl⟩

end

def fieldOf (id : Nat) (name : String) (typeOf : WrappingType) (scalar : Option Scalar)
    (fields : List (Field ConstValue)) : Field ConstValue :=
  ⟨id, name, name, none, typeOf, none, none, none, [], fields, none, ⟨1, 1⟩, [], false, scalar⟩

def queryPlan (fields : List (Field ConstValue)) : OperationPlan ConstValue :=
  .new "Query" fields .query ⟨[], ⟨"Query", none, none⟩⟩ false none

def anyFormat : Scalar.Formats :=
  ⟨fun _ => true, fun _ => true, fun _ => true, fun _ => true⟩

def nameField : Field ConstValue :=
  fieldOf 0 "name" (.named "String" true) (some .empty) []

def nameStore : Store :=
  [(0, .ok (.string "a"))]

theorem shown_name (node : Field ConstValue) (typeOf : WrappingType) (path : List Nat) (value : ConstValue)
    (h : Shown (queryPlan [nameField]) [] nameStore node typeOf path value) :
    node = nameField ∧ value = .string "a" := by
  refine @Shown.rec _ _ _ (fun node _ path _ _ => node = nameField ∧ path = [])
    (fun node _ _ value _ => node = nameField ∧ value = .string "a") ?_ ?_ ?_ ?_ ?_ _ _ _ _ h
  · intro child hc _
    exact ⟨List.mem_singleton.mp hc, rfl⟩
  · intro node typeOf path fields child _ hl _ _ _ _ ih
    rw [ih.1] at hl
    exact absurd hl (by decide)
  · rintro node value path rootName stored inner _ hs hi _ ⟨rfl, rfl⟩
    have hstored : stored = .string "a" := (Except.ok.inj (Option.some.inj hs)).symm
    rw [hstored] at hi
    exact ⟨rfl, (Indexed.value.inj hi).symm⟩
  · rintro node value path rootName _ hs ⟨rfl, -⟩
    exact absurd hs (by simp [nameStore, Store.get, nameField, fieldOf])
  · rintro node typeOf path items index item _ _ _ ⟨-, hv⟩
    exact absurd hv (by simp)

theorem asked_name (node : Field ConstValue) (value : Option ConstValue) (path : List Nat) (rootName : Option String)
    (h : Asked (queryPlan [nameField]) [] nameStore node value path rootName) : node = nameField ∧ path = [] := by
  cases h with
  | root _ h => exact ⟨List.mem_singleton.mp h, rfl⟩
  | child parent typeOf _ fields _ h hl =>
    rw [(shown_name parent typeOf path (.object fields) h).1] at hl
    exact absurd hl (by decide)

def tagsPlan (typeOf : WrappingType) : OperationPlan ConstValue :=
  queryPlan [fieldOf 0 "user" (.named "User" false) none [fieldOf 1 "tags" typeOf (some .empty) []]]

def tagsStore : Store :=
  [(0, .ok (.object [("tags", .null)]))]

end Gqlforge.SynthesisTypes
