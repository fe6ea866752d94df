import Gqlforge.Occurrences

namespace Gqlforge.CollectExpansion

open Document Schema Builder CollectCalls Occurrences

section

variable (index : Index) (fragments : Fragments)

def Yields (call : Call) (fields : List (Field Value)) : Prop :=
  ∃ fuel counters counters', collectFields index fragments fuel call counters = some (fields, counters')

def Occurrence.isDefined (occurrence : Occurrence) : Bool :=
  (index.getField occurrence.call.typeCondition occurrence.name).isSome || occurrence.name == "__typename"

def Occurrence.below (occurrence : Occurrence) : Call :=
  (fieldCall index occurrence.call occurrence.name occurrence.selectionSet).getD ⟨none, [], "String"⟩

def Occurrence.isPlanned (occurrence : Occurrence) : Bool :=
  !(includeOf occurrence.directives).isConstSkip && Occurrence.isDefined index occurrence

structure Made (occurrence : Occurrence) (field : Field Value) : Prop where
  name : field.name = occurrence.name
  outputName : field.outputName = occurrence.outputName
  pos : field.pos = occurrence.pos
  typeCondition : field.typeCondition = some occurrence.call.typeCondition
  conditions : (field.includeVar, field.skipVar) = (includeOf occurrence.directives).intoVariableTuple
  typeOf : field.typeOf.name = (Occurrence.below index occurrence).typeCondition
  selection : Yields index fragments (Occurrence.below index occurrence) field.selection

def Matches (occurrences : List Occurrence) (fields : List (Field Value)) : Prop :=
  ∃ fields', fields'.Perm fields ∧
    List.Forall₂ (Made index fragments) (occurrences.filter (Occurrence.isPlanned index)) fields'

variable {index fragments}

theorem yields_nil (parentFragment : Option String) (typeCondition : String) :
    Yields index fragments ⟨parentFragment, [], typeCondition⟩ [] :=
  ⟨1, ⟨0, 0⟩, ⟨0, 0⟩, rfl⟩

theorem Matches.nil : Matches index fragments [] [] :=
  ⟨[], .nil, .nil⟩

variable {occurrences : List Occurrence} {fields : List (Field Value)}

theorem Matches.append {occurrences' : List Occurrence} {fields' : List (Field Value)}
    (h : Matches index fragments occurrences fields) (h' : Matches index fragments occurrences' fields') :
    Matches index fragments (occurrences ++ occurrences') (fields ++ fields') := by
  obtain ⟨made, hp, hm⟩ := h
  obtain ⟨made', hp', hm'⟩ := h'
  refine ⟨made ++ made', hp.append hp', ?_⟩
  rw [List.filter_append]
  exact List.rel_append hm hm'

theorem Matches.perm {fields' : List (Field Value)} (h : Matches index fragments occurrences fields)
    (hp : fields.Perm fields') : Matches index fragments occurrences fields' := by
  obtain ⟨made, hp', hm⟩ := h
  exact ⟨made, hp'.trans hp, hm⟩

theorem Matches.guarded (guard : Guard) (h : Matches index fragments occurrences fields) :
    Matches index fragments (occurrences.map (Occurrence.guarded guard)) fields := by
  obtain ⟨made, hp, hm⟩ := h
  refine ⟨made, hp, ?_⟩
  rw [List.filter_map, List.forall₂_map_left_iff]
  exact hm.imp fun _ _ h => ⟨h.1, h.2, h.3, h.4, h.5, h.6, h.7⟩

theorem forall₂_filter {α β : Type} {r : α → β → Prop} {p : α → Bool} {q : β → Bool} (hpq : ∀ a b, r a b → p a = q b)
    {as : List α} {bs : List β} (h : List.Forall₂ r as bs) : List.Forall₂ r (as.filter p) (bs.filter q) := by
  induction h with
  | nil => exact .nil
  | @cons a b as bs hab _ ih =>
    rw [List.filter_cons, List.filter_cons, hpq a b hab]
    split
    · exact .cons hab ih
    · exact ih

theorem forall₂_mem_right {α β : Type} {r : α → β → Prop} {as : List α} {bs : List β}
    (h : List.Forall₂ r as bs) (b : β) (hb : b ∈ bs) : ∃ a ∈ as, r a b := by
  induction h with
  | nil => exact absurd hb List.not_mem_nil
  | @cons a b' as bs hab _ ih =>
    rcases List.mem_cons.mp hb with rfl | hb
    · exact ⟨a, List.mem_cons_self, hab⟩
    · obtain ⟨a', ha, hr⟩ := ih hb
      exact ⟨a', List.mem_cons_of_mem a ha, hr⟩

theorem forall₂_mem_left {α β : Type} {r : α → β → Prop} {as : List α} {bs : List β}
    (h : List.Forall₂ r as bs) (a : α) (ha : a ∈ as) : ∃ b ∈ bs, r a b :=
  forall₂_mem_right h.flip a ha

theorem Matches.unvisited (visited : List String) (h : Matches index fragments occurrences fields) :
    Matches index fragments (occurrences.filter (!visited.contains ·.outputName))
      (fields.filter (!visited.contains ·.outputName)) := by
  obtain ⟨made, hp, hm⟩ := h
  refine ⟨made.filter (!visited.contains ·.outputName), hp.filter _, ?_⟩
  rw [List.filter_filter, show (fun a : Occurrence => Occurrence.isPlanned index a &&
    !visited.contains a.outputName) = fun a => !visited.contains a.outputName &&
      Occurrence.isPlanned index a from funext fun a => Bool.and_comm _ _, ← List.filter_filter]
  exact forall₂_filter (fun a b hab => by rw [hab.outputName]) hm

theorem collectField_made {recur : Call → Counting (List (Field Value))}
    (hrec : ∀ call counters fields counters', recur call counters = some (fields, counters') →
      Yields index fragments call fields)
    (call : Call) (pos : Pos) (alias' : Option String) (name : String) (arguments : List (String × Value))
    (directives : List Document.Directive) (selectionSet : List Selection) (counters counters' : Counters)
    (result : Option (Field Value))
    (h : collectField index recur call pos (alias'.getD name) name arguments directives selectionSet counters
      = some (result, counters')) :
    List.Forall₂ (Made index fragments)
      ([fieldOccurrence call pos alias' name arguments directives selectionSet].filter
        (Occurrence.isDefined index)) result.toList := by
  unfold collectField at h
  cases hg : index.getField call.typeCondition name with
  | some definition =>
    obtain ⟨args, argId, ha⟩ := collectArgs_run arguments (QueryField.args definition) counters
    simp only [hg, bind_run, ha, nextFieldId_run, Option.bind_some, pure_run, Option.bind_eq_some_iff,
      Option.some.injEq, Prod.mk.injEq, Prod.exists] at h
    obtain ⟨children, after, hc, rfl, -⟩ := h
    have hd : Occurrence.isDefined index (fieldOccurrence call pos alias' name arguments directives
        selectionSet) = true := by
      simp [Occurrence.isDefined, fieldOccurrence, hg]
    rw [List.filter_cons_of_pos hd]
    refine .cons ?_ .nil
    have hb : Occurrence.below index (fieldOccurrence call pos alias' name arguments directives
        selectionSet) = ⟨none, selectionSet, (QueryField.ofType definition).name⟩ := by
      simp [Occurrence.below, fieldOccurrence, fieldCall, hg]
    refine ⟨rfl, rfl, rfl, rfl, rfl, by rw [hb], ?_⟩
    rw [hb]
    exact hrec _ _ _ _ hc
  | none =>
    have hb : Occurrence.below index (fieldOccurrence call pos alias' name arguments directives
        selectionSet) = ⟨none, [], "String"⟩ := by
      simp [Occurrence.below, fieldOccurrence, fieldCall, hg]
    cases hn : name == "__typename" with
    | true =>
      simp only [hg, hn, ↓reduceIte, bind_run, nextFieldId_run, Option.bind_some, pure_run,
        Option.some.injEq, Prod.mk.injEq] at h
      obtain ⟨rfl, -⟩ := h
      have hd : Occurrence.isDefined index (fieldOccurrence call pos alias' name arguments directives
          selectionSet) = true := by
        simp [Occurrence.isDefined, fieldOccurrence, hn]
      rw [List.filter_cons_of_pos hd]
      refine .cons ⟨rfl, rfl, rfl, rfl, rfl, by rw [hb]; rfl, ?_⟩ .nil
      rw [hb]
      exact yields_nil _ _
    | false =>
      simp only [hg, hn, Bool.false_eq_true, ↓reduceIte, pure_run, Option.some.injEq, Prod.mk.injEq] at h
      obtain ⟨rfl, -⟩ := h
      have hd : ¬ Occurrence.isDefined index (fieldOccurrence call pos alias' name arguments directives
          selectionSet) = true := by
        simp [Occurrence.isDefined, fieldOccurrence, hg, hn]
      rw [List.filter_cons_of_neg hd]
      exact .nil

variable (index fragments) in
/-- The accumulator of `collectItems` holds the fields made from the occurrences kept so far. -/
structure Tracks (acc : Collected) (keptAcc : Kept) : Prop where
  visited : acc.visited = keptAcc.visited
  fields : Matches index fragments keptAcc.fields acc.fields
  fragmentsFields : Matches index fragments keptAcc.fragmentsFields acc.fragmentsFields

section

variable {recur : Call → Counting (List (Field Value))} {keep : Call → Option (List Occurrence)}

def Agrees (index : Index) (fragments : Fragments) (recur : Call → Counting (List (Field Value)))
    (keep : Call → Option (List Occurrence)) : Prop :=
  ∀ call counters fields counters', recur call counters = some (fields, counters') →
    Yields index fragments call fields ∧
      ∃ occurrences, keep call = some occurrences ∧ Matches index fragments occurrences fields

theorem collectItem_tracks (hrec : Agrees index fragments recur keep) (call : Call) (item : Selection)
    (acc acc' : Collected) (keptAcc : Kept) (counters counters' : Counters) (ht : Tracks index fragments acc keptAcc)
    (h : collectItem index fragments recur call acc item counters = some (acc', counters')) :
    ∃ keptAcc', keepItem fragments keep call keptAcc item = some keptAcc' ∧ Tracks index fragments acc' keptAcc' := by
  cases item with
  | field pos alias' name arguments directives selectionSet =>
    simp only [collectItem] at h
    simp only [keepItem, ← ht.visited]
    split at h <;> rename_i hv
    · rw [if_pos hv]
      simp only [pure_run, Option.some.injEq, Prod.mk.injEq] at h
      exact ⟨keptAcc, rfl, h.1 ▸ ht⟩
    · rw [if_neg hv]
      refine ⟨_, rfl, ?_⟩
      let occurrence := fieldOccurrence call pos alias' name arguments directives selectionSet
      split at h <;> rename_i hc
      · simp only [pure_run, Option.some.injEq, Prod.mk.injEq] at h
        have hm : Matches index fragments [occurrence] [] := by
          refine ⟨[], .nil, ?_⟩
          rw [List.filter_cons_of_neg (by simp [occurrence, Occurrence.isPlanned, fieldOccurrence, hc])]
          exact .nil
        rw [← h.1]
        exact ⟨rfl, by simpa using ht.fields.append hm, ht.fragmentsFields⟩
      · simp only [bind_pure_comp, map_run, Option.map_eq_some_iff, Prod.mk.injEq, Prod.exists] at h
        obtain ⟨result, after, hr, rfl, -⟩ := h
        have hm : Matches index fragments [occurrence] result.toList := by
          refine ⟨result.toList, .refl _, ?_⟩
          have hmade := collectField_made (fun call counters fields counters' h => (hrec call counters
            fields counters' h).1) call pos alias' name arguments directives selectionSet counters after
            result hr
          have hp : Occurrence.isPlanned index occurrence = Occurrence.isDefined index occurrence := by
            simp [occurrence, Occurrence.isPlanned, fieldOccurrence, hc]
          have hf : [occurrence].filter (Occurrence.isPlanned index) =
              [occurrence].filter (Occurrence.isDefined index) := by
            simp only [List.filter_cons, hp, List.filter_nil]
          rw [hf]
          exact hmade
        exact ⟨rfl, ht.fields.append hm, ht.fragmentsFields⟩
  | fragmentSpread pos fragmentName directives =>
    simp only [collectItem] at h
    simp only [keepItem]
    cases hf : fragments.lookup fragmentName with
    | none =>
      simp only [hf, pure_run, Option.some.injEq, Prod.mk.injEq] at h
      exact ⟨keptAcc, rfl, h.1 ▸ ht⟩
    | some fragment =>
      simp only [hf, bind_pure_comp, map_run, Option.map_eq_some_iff, Prod.mk.injEq, Prod.exists] at h
      obtain ⟨fields, after, hr, rfl, -⟩ := h
      obtain ⟨-, occurrences, hk, hm⟩ := hrec _ _ _ _ hr
      have hk : keep (fragmentCall fragment) = some occurrences := hk
      simp only [hk, Option.map_some]
      exact ⟨_, rfl, ht.visited, ht.fields, ht.fragmentsFields.append (hm.guarded _)⟩
  | inlineFragment pos typeCondition directives selectionSet =>
    simp only [collectItem, bind_pure_comp, map_run, Option.map_eq_some_iff, Prod.mk.injEq,
      Prod.exists] at h
    obtain ⟨fields, after, hr, rfl, -⟩ := h
    obtain ⟨-, occurrences, hk, hm⟩ := hrec _ _ _ _ hr
    have hk : keep (inlineCall call typeCondition selectionSet) = some occurrences := hk
    simp only [keepItem, hk, Option.map_some]
    exact ⟨_, rfl, ht.visited, ht.fields, ht.fragmentsFields.append (hm.guarded _)⟩

theorem collectItems_tracks (hrec : Agrees index fragments recur keep) (call : Call) (items : List Selection)
    (acc acc' : Collected) (keptAcc : Kept) (counters counters' : Counters) (ht : Tracks index fragments acc keptAcc)
    (h : collectItems index fragments recur call acc items counters = some (acc', counters')) :
    ∃ keptAcc', keepItems fragments keep call keptAcc items = some keptAcc' ∧ Tracks index fragments acc' keptAcc' := by
  induction items generalizing acc keptAcc counters with
  | nil =>
    simp only [collectItems, pure_run, Option.some.injEq, Prod.mk.injEq] at h
    exact ⟨keptAcc, rfl, h.1 ▸ ht⟩
  | cons item rest ih =>
    simp only [collectItems, bind_run, Option.bind_eq_some_iff, Prod.exists] at h
    obtain ⟨next, after, hi, hrest⟩ := h
    obtain ⟨keptNext, hk, htn⟩ := collectItem_tracks hrec call item acc next keptAcc counters after ht hi
    obtain ⟨keptAcc', hk', ht'⟩ := ih next keptNext after htn hrest
    exact ⟨keptAcc', by rw [keepItems, hk, Option.bind_some, hk'], ht'⟩

end

theorem collectFields_agrees (fuel : Nat) :
    Agrees index fragments (collectFields index fragments fuel) (kept fragments fuel) := by
  induction fuel with
  | zero =>
    intro call counters fields counters' h
    simp [collectFields] at h
  | succ fuel ih =>
    intro call counters fields counters' h
    refine ⟨⟨fuel + 1, counters, counters', h⟩, ?_⟩
    simp only [collectFields, collectBody, bind_pure_comp, map_run, Option.map_eq_some_iff,
      Prod.mk.injEq, Prod.exists] at h
    obtain ⟨acc, after, hi, rfl, -⟩ := h
    obtain ⟨keptAcc, hk, ht⟩ := collectItems_tracks ih call call.selectionSet Collected.empty acc
      Kept.empty counters after ⟨rfl, .nil, .nil⟩ hi
    refine ⟨keptAcc.finish, ?_, ?_⟩
    · rw [kept, FuelRecursion.iterate]
      exact Option.map_eq_some_iff.mpr ⟨keptAcc, hk, rfl⟩
    refine Matches.perm ?_ (List.perm_insertionSort _ _).symm
    rw [Kept.finish, ← ht.visited]
    exact ht.fields.append (ht.fragmentsFields.unvisited acc.visited)

end

section

variable (index : Index) (fragments : Fragments)

theorem yields_matches (call : Call) (fields : List (Field Value)) (h : Yields index fragments call fields) :
    ∃ fuel occurrences, kept fragments fuel call = some occurrences ∧ Matches index fragments occurrences fields := by
  obtain ⟨fuel, counters, counters', hr⟩ := h
  exact ⟨fuel, (collectFields_agrees fuel call counters fields counters' hr).2⟩

end

end Gqlforge.CollectExpansion
