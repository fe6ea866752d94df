import Gqlforge.CollectCalls

namespace Gqlforge.Occurrences

open Document Builder CollectCalls

structure Guard where
  typeCondition : Option String
  directives : List Document.Directive

structure Occurrence where
  guards : List Guard
  call : Call
  pos : Pos
  outputName : String
  name : String
  arguments : List (String × Value)
  directives : List Document.Directive
  selectionSet : List Selection

def Occurrence.guarded (guard : Guard) (occurrence : Occurrence) : Occurrence :=
  { occurrence with guards := guard :: occurrence.guards }

def fieldOccurrence (call : Call) (pos : Pos) (alias' : Option String) (name : String)
    (arguments : List (String × Value)) (directives : List Document.Directive)
    (selectionSet : List Selection) : Occurrence :=
  ⟨[], call, pos, alias'.getD name, name, arguments, directives, selectionSet⟩

section

variable (fragments : Fragments)

inductive Occurs : Call → Occurrence → Prop
  | field (call : Call) (pos : Pos) (alias' : Option String) (name : String)
      (arguments : List (String × Value)) (directives : List Document.Directive)
      (selectionSet : List Selection)
      (h : Selection.field pos alias' name arguments directives selectionSet ∈ call.selectionSet) :
      Occurs call (fieldOccurrence call pos alias' name arguments directives selectionSet)
  | spread (call : Call) (pos : Pos) (fragmentName : String) (directives : List Document.Directive)
      (fragment : FragmentDefinition) (occurrence : Occurrence)
      (h : Selection.fragmentSpread pos fragmentName directives ∈ call.selectionSet)
      (hf : fragments.lookup fragmentName = some fragment)
      (ho : Occurs (fragmentCall fragment) occurrence) :
      Occurs call (occurrence.guarded ⟨some fragment.typeCondition, directives⟩)
  | inline (call : Call) (pos : Pos) (typeCondition : Option String)
      (directives : List Document.Directive) (selectionSet : List Selection) (occurrence : Occurrence)
      (h : Selection.inlineFragment pos typeCondition directives selectionSet ∈ call.selectionSet)
      (ho : Occurs (inlineCall call typeCondition selectionSet) occurrence) :
      Occurs call (occurrence.guarded ⟨typeCondition, directives⟩)

structure Kept where
  fields : List Occurrence
  fragmentsFields : List Occurrence
  visited : List String

def Kept.empty : Kept := ⟨[], [], []⟩

section

variable (recur : Call → Option (List Occurrence))

def keepItem (call : Call) (acc : Kept) : Selection → Option Kept
  | .field pos alias' name arguments directives selectionSet =>
    if acc.visited.contains (alias'.getD name) then some acc
    else some ⟨acc.fields ++ [fieldOccurrence call pos alias' name arguments directives selectionSet],
      acc.fragmentsFields, alias'.getD name :: acc.visited⟩
  | .fragmentSpread _ fragmentName directives =>
    match fragments.lookup fragmentName with
    | some fragment => (recur (fragmentCall fragment)).map fun occurrences =>
      { acc with
        fragmentsFields := acc.fragmentsFields ++
          occurrences.map (Occurrence.guarded ⟨some fragment.typeCondition, directives⟩) }
    | none => some acc
  | .inlineFragment _ typeCondition directives selectionSet =>
    (recur (inlineCall call typeCondition selectionSet)).map fun occurrences =>
      { acc with
        fragmentsFields := acc.fragmentsFields ++
          occurrences.map (Occurrence.guarded ⟨typeCondition, directives⟩) }

def keepItems (call : Call) : Kept → List Selection → Option Kept
  | acc, [] => some acc
  | acc, item :: rest => (keepItem fragments recur call acc item).bind (keepItems call · rest)

end

def Kept.finish (acc : Kept) : List Occurrence :=
  acc.fields ++ acc.fragmentsFields.filter (!acc.visited.contains ·.outputName)

def kept : Nat → Call → Option (List Occurrence) :=
  FuelRecursion.iterate fun recur call =>
    (keepItems fragments recur call Kept.empty call.selectionSet).map Kept.finish

end

section

variable {fragments : Fragments} {recur recur' : Call → Option (List Occurrence)}

theorem keepItem_extends (hr : FuelRecursion.Extends recur recur') (call : Call) (acc : Kept)
    (item : Selection) (result : Kept) (h : keepItem fragments recur call acc item = some result) :
    keepItem fragments recur' call acc item = some result := by
  cases item with
  | field pos alias' name arguments directives selectionSet => exact h
  | fragmentSpread pos fragmentName directives =>
    simp only [keepItem] at h ⊢
    cases hf : fragments.lookup fragmentName with
    | none => simpa only [hf] using h
    | some fragment =>
      simp only [hf, Option.map_eq_some_iff] at h ⊢
      obtain ⟨occurrences, ho, hresult⟩ := h
      exact ⟨occurrences, hr _ _ ho, hresult⟩
  | inlineFragment pos typeCondition directives selectionSet =>
    simp only [keepItem, Option.map_eq_some_iff] at h ⊢
    obtain ⟨occurrences, ho, hresult⟩ := h
    exact ⟨occurrences, hr _ _ ho, hresult⟩

theorem keepItems_extends (hr : FuelRecursion.Extends recur recur') (call : Call) (acc : Kept)
    (items : List Selection) (result : Kept) (h : keepItems fragments recur call acc items = some result) :
    keepItems fragments recur' call acc items = some result := by
  induction items generalizing acc with
  | nil => exact h
  | cons item rest ih =>
    simp only [keepItems, Option.bind_eq_some_iff] at h ⊢
    obtain ⟨next, hi, hrest⟩ := h
    exact ⟨next, keepItem_extends hr call acc item next hi, ih next hrest⟩

theorem kept_unique (fuel fuel' : Nat) (call : Call) (occurrences occurrences' : List Occurrence)
    (h : kept fragments fuel call = some occurrences)
    (h' : kept fragments fuel' call = some occurrences') : occurrences = occurrences' := by
  refine FuelRecursion.iterate_unique (fun recur recur' hr call result h => ?_) fuel fuel' call _ _ h h'
  simp only [Option.map_eq_some_iff] at h ⊢
  obtain ⟨acc, hi, hresult⟩ := h
  exact ⟨acc, keepItems_extends hr call Kept.empty call.selectionSet acc hi, hresult⟩

end

section

variable {fragments : Fragments} {recur : Call → Option (List Occurrence)}

theorem keepItem_occurs (hr : ∀ call occurrences, recur call = some occurrences →
      ∀ occurrence ∈ occurrences, Occurs fragments call occurrence)
    (call : Call) (item : Selection) (hi : item ∈ call.selectionSet) (acc result : Kept)
    (hf : ∀ occurrence ∈ acc.fields, Occurs fragments call occurrence)
    (hn : ∀ occurrence ∈ acc.fragmentsFields, Occurs fragments call occurrence)
    (h : keepItem fragments recur call acc item = some result) :
    (∀ occurrence ∈ result.fields, Occurs fragments call occurrence) ∧
      ∀ occurrence ∈ result.fragmentsFields, Occurs fragments call occurrence := by
  cases item with
  | field pos alias' name arguments directives selectionSet =>
    simp only [keepItem] at h
    split at h
    · rw [← Option.some.inj h]
      exact ⟨hf, hn⟩
    · rw [← Option.some.inj h]
      refine ⟨fun occurrence ho => ?_, hn⟩
      rcases List.mem_append.mp ho with ho | ho
      · exact hf occurrence ho
      · rw [List.mem_singleton.mp ho]
        exact .field call pos alias' name arguments directives selectionSet hi
  | fragmentSpread pos fragmentName directives =>
    simp only [keepItem] at h
    cases hl : fragments.lookup fragmentName with
    | none =>
      simp only [hl, Option.some.injEq] at h
      exact h ▸ ⟨hf, hn⟩
    | some fragment =>
      simp only [hl, Option.map_eq_some_iff] at h
      obtain ⟨occurrences, ho, rfl⟩ := h
      refine ⟨hf, fun occurrence hm => ?_⟩
      rcases List.mem_append.mp hm with hm | hm
      · exact hn occurrence hm
      · obtain ⟨inner, hinner, rfl⟩ := List.mem_map.mp hm
        exact .spread call pos fragmentName directives fragment inner hi hl (hr _ _ ho inner hinner)
  | inlineFragment pos typeCondition directives selectionSet =>
    simp only [keepItem, Option.map_eq_some_iff] at h
    obtain ⟨occurrences, ho, rfl⟩ := h
    refine ⟨hf, fun occurrence hm => ?_⟩
    rcases List.mem_append.mp hm with hm | hm
    · exact hn occurrence hm
    · obtain ⟨inner, hinner, rfl⟩ := List.mem_map.mp hm
      exact .inline call pos typeCondition directives selectionSet inner hi (hr _ _ ho inner hinner)

theorem keepItems_occurs (hr : ∀ call occurrences, recur call = some occurrences →
      ∀ occurrence ∈ occurrences, Occurs fragments call occurrence)
    (call : Call) (items : List Selection) (hi : ∀ item ∈ items, item ∈ call.selectionSet)
    (acc result : Kept) (hf : ∀ occurrence ∈ acc.fields, Occurs fragments call occurrence)
    (hn : ∀ occurrence ∈ acc.fragmentsFields, Occurs fragments call occurrence)
    (h : keepItems fragments recur call acc items = some result) :
    (∀ occurrence ∈ result.fields, Occurs fragments call occurrence) ∧
      ∀ occurrence ∈ result.fragmentsFields, Occurs fragments call occurrence := by
  induction items generalizing acc with
  | nil =>
    rw [← Option.some.inj h]
    exact ⟨hf, hn⟩
  | cons item rest ih =>
    simp only [keepItems, Option.bind_eq_some_iff] at h
    obtain ⟨next, hitem, hrest⟩ := h
    obtain ⟨hf', hn'⟩ := keepItem_occurs hr call item (hi item List.mem_cons_self) acc next hf hn hitem
    exact ih (fun item h => hi item (List.mem_cons_of_mem _ h)) next hf' hn' hrest

end

theorem kept_occurs (fragments : Fragments) (fuel : Nat) (call : Call) (occurrences : List Occurrence)
    (h : kept fragments fuel call = some occurrences) :
    ∀ occurrence ∈ occurrences, Occurs fragments call occurrence := by
  induction fuel generalizing call occurrences with
  | zero => exact absurd h (by simp [kept, FuelRecursion.iterate])
  | succ fuel ih =>
    simp only [kept, FuelRecursion.iterate, Option.map_eq_some_iff] at h
    obtain ⟨acc, hi, rfl⟩ := h
    obtain ⟨hf, hn⟩ := keepItems_occurs ih call call.selectionSet (fun _ h => h) Kept.empty acc
      (by simp [Kept.empty]) (by simp [Kept.empty]) hi
    intro occurrence ho
    rcases List.mem_append.mp ho with ho | ho
    · exact hf occurrence ho
    · exact hn occurrence (List.mem_of_mem_filter ho)

end Gqlforge.Occurrences
