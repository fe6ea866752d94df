import Gqlforge.MergeLookups
import Gqlforge.PartialMerges

namespace Gqlforge.SchemaMerge

open Config Schema Validation PartialMerges

def mergeTypes (nonNullMerge : Bool → Bool → Bool) : WrappingType → WrappingType → Option WrappingType
  | .named name nonNull, .named otherName otherNonNull =>
    if name = otherName then some (.named name (nonNullMerge nonNull otherNonNull)) else none
  | .list ofType nonNull, .list otherOfType otherNonNull =>
    (mergeTypes nonNullMerge ofType otherOfType).map fun ofType => .list ofType (nonNullMerge nonNull otherNonNull)
  | _, _ => none

example (name : String) : mergeTypes Bool.or (.named name true) (.named name false) = some (.named name true) := by
  simp [mergeTypes]

theorem toOption_mapOk {α β ε : Type} (valid : Valid α ε) (f : α → β) :
    (valid.mapOk f).toOption = valid.toOption.map f := by
  cases valid <;> rfl

theorem mergeType_toOption (nonNullMerge : Bool → Bool → Bool) (t u : WrappingType) :
    (mergeType nonNullMerge t u).toOption = mergeTypes nonNullMerge t u := by
  induction t generalizing u with
  | named name nonNull =>
    cases u with
    | named otherName otherNonNull =>
      rw [mergeType, mergeTypes]
      by_cases h : name = otherName
      · rw [if_neg (not_not.mpr h), if_pos h]
        rfl
      · rw [if_pos h, if_neg h]
        rfl
    | list otherOfType otherNonNull => rfl
  | list ofType nonNull ih =>
    cases u with
    | named otherName otherNonNull => rfl
    | list otherOfType otherNonNull => rw [mergeType, mergeTypes, toOption_mapOk, ih]

def shape : WrappingType → WrappingType
  | .named name _ => .named name false
  | .list ofType _ => .list (shape ofType) false

theorem mergeTypes_ne_none (nonNullMerge : Bool → Bool → Bool) (t u : WrappingType) :
    mergeTypes nonNullMerge t u ≠ none ↔ shape t = shape u := by
  induction t generalizing u with
  | named name nonNull => cases u <;> simp [mergeTypes, shape]
  | list ofType nonNull ih =>
    cases u with
    | named otherName otherNonNull => simp [mergeTypes, shape]
    | list otherOfType otherNonNull => simp [mergeTypes, shape, ← ih]

theorem shape_mergeTypes (nonNullMerge : Bool → Bool → Bool) (t u e : WrappingType)
    (h : mergeTypes nonNullMerge t u = some e) : shape e = shape t := by
  induction t generalizing u e with
  | named name nonNull =>
    cases u with
    | named otherName otherNonNull =>
      rw [mergeTypes] at h
      split at h
      · obtain rfl := Option.some.inj h
        rfl
      · cases h
    | list otherOfType otherNonNull => cases h
  | list ofType nonNull ih =>
    cases u with
    | named otherName otherNonNull => cases h
    | list otherOfType otherNonNull =>
      obtain ⟨m, hm, rfl⟩ := Option.map_eq_some_iff.mp h
      rw [shape, shape, ih otherOfType m hm]

theorem bind_mergeTypes_of_ne (nonNullMerge : Bool → Bool → Bool) (t u v : WrappingType)
    (h : ¬ (shape t = shape u ∧ shape t = shape v)) :
    (mergeTypes nonNullMerge t u).bind (mergeTypes nonNullMerge · v) = none := by
  rw [Option.bind_eq_none_iff]
  intro e he
  by_contra hne
  rw [← Ne, mergeTypes_ne_none, shape_mergeTypes _ t u e he] at hne
  have htu : mergeTypes nonNullMerge t u ≠ none := by rw [he]; exact nofun
  exact h ⟨(mergeTypes_ne_none _ t u).mp htu, hne⟩

theorem bind_mergeTypes_of_eq (nonNullMerge : Bool → Bool → Bool)
    (hswap : ∀ a b c, nonNullMerge (nonNullMerge a b) c = nonNullMerge (nonNullMerge a c) b) (t u v : WrappingType)
    (hu : shape t = shape u) (hv : shape t = shape v) :
    (mergeTypes nonNullMerge t u).bind (mergeTypes nonNullMerge · v) =
      (mergeTypes nonNullMerge t v).bind (mergeTypes nonNullMerge · u) := by
  induction t generalizing u v with
  | named name nonNull =>
    cases u with
    | list otherOfType otherNonNull => cases hu
    | named otherName otherNonNull =>
      cases v with
      | list thirdOfType thirdNonNull => cases hv
      | named thirdName thirdNonNull =>
        obtain ⟨rfl, -⟩ := WrappingType.named.inj hu
        obtain ⟨rfl, -⟩ := WrappingType.named.inj hv
        simp [mergeTypes, hswap nonNull otherNonNull]
  | list ofType nonNull ih =>
    cases u with
    | named otherName otherNonNull => cases hu
    | list otherOfType otherNonNull =>
      cases v with
      | named thirdName thirdNonNull => cases hv
      | list thirdOfType thirdNonNull =>
        have hmap (x y : WrappingType) (b c : Bool) :
            (mergeTypes nonNullMerge (.list ofType nonNull) (.list x b)).bind
              (mergeTypes nonNullMerge · (.list y c)) =
            ((mergeTypes nonNullMerge ofType x).bind (mergeTypes nonNullMerge · y)).map
              (.list · (nonNullMerge (nonNullMerge nonNull b) c)) := by
          rw [mergeTypes]
          cases mergeTypes nonNullMerge ofType x with
          | none => rfl
          | some m => rfl
        rw [hmap, hmap, ih _ _ (WrappingType.list.inj hu).1 (WrappingType.list.inj hv).1, hswap]

theorem swaps_mergeTypes (nonNullMerge : Bool → Bool → Bool) (hcomm : ∀ a b, nonNullMerge a b = nonNullMerge b a)
    (hswap : ∀ a b c, nonNullMerge (nonNullMerge a b) c = nonNullMerge (nonNullMerge a c) b) :
    Swaps (mergeTypes nonNullMerge) fun _ _ => True where
  comm t u := by
    induction t generalizing u with
    | named name nonNull =>
      cases u with
      | named otherName otherNonNull =>
        rw [mergeTypes, mergeTypes]
        by_cases h : name = otherName
        · rw [if_pos h, if_pos h.symm, h, hcomm]
        · rw [if_neg h, if_neg (Ne.symm h)]
      | list otherOfType otherNonNull => rfl
    | list ofType nonNull ih =>
      cases u with
      | named otherName otherNonNull => rfl
      | list otherOfType otherNonNull => rw [mergeTypes, mergeTypes, ih, hcomm]
  joint t u v e he htv huv := by
    rw [mergeTypes_ne_none] at htv ⊢
    rw [shape_mergeTypes _ t u e he, htv]
  perm _ _ _ _ _ := trivial
  keep _ _ _ _ _ _ := trivial
  swap t u v _ _ := by
    by_cases h : shape t = shape u ∧ shape t = shape v
    · exact bind_mergeTypes_of_eq nonNullMerge hswap t u v h.1 h.2
    · rw [bind_mergeTypes_of_ne _ t u v h, bind_mergeTypes_of_ne _ t v u fun h' => h h'.symm]

theorem isNullable_mergeTypes (t u e : WrappingType) (h : mergeTypes Bool.or t u = some e) :
    e.isNullable = (t.isNullable && u.isNullable) := by
  cases t with
  | named name nonNull =>
    cases u with
    | named otherName otherNonNull =>
      rw [mergeTypes] at h
      split at h
      · obtain rfl := Option.some.inj h
        exact Bool.not_or _ _
      · cases h
    | list otherOfType otherNonNull => cases h
  | list ofType nonNull =>
    cases u with
    | named otherName otherNonNull => cases h
    | list otherOfType otherNonNull =>
      obtain ⟨m, -, rfl⟩ := Option.map_eq_some_iff.mp h
      exact Bool.not_or _ _

theorem swaps_shrink : Swaps (mergeTypes Bool.or) fun _ _ => True :=
  swaps_mergeTypes Bool.or Bool.or_comm (by decide)

theorem swaps_expand : Swaps (mergeTypes Bool.and) fun _ _ => True :=
  swaps_mergeTypes Bool.and Bool.and_comm (by decide)

section Dicts

variable {E S : Type} (typeOf : E → WrappingType) (sig : E → S) (op : S → S → Option S) (nullable : S → Bool)

def dictSig (dict : Dict E) : String → Option S :=
  fun name => (dict.get? name).map sig

theorem toOption_of_iff {V T : Type} (valid : Valid V String) (view : V → T) (merged : Option T)
    (hok : ∀ v, valid = .ok v → merged = some (view v)) (hnone : merged ≠ none → ∃ v, valid = .ok v) :
    valid.toOption.map view = merged := by
  cases h : valid with
  | ok v => exact (hok v h).symm
  | error e =>
    by_contra hne
    obtain ⟨v, hv⟩ := hnone (Ne.symm hne)
    exact nomatch h.symm.trans hv

theorem exists_ok_iff {V T : Type} (valid : Valid V String) (view : V → T) (merged : Option T)
    (h : valid.toOption.map view = merged) : merged ≠ none ↔ ∃ v, valid = .ok v := by
  subst h
  cases valid with
  | ok v => simp [Except.toOption]
  | error e => simp [Except.toOption]

theorem shrinkDict_sig (shrink : E → E → Valid E String)
    (hs : ∀ f g, (shrink f g).toOption.map sig = op (sig f) (sig g))
    (hn : ∀ f, nullable (sig f) = (typeOf f).isNullable) (self other : Dict E) :
    (shrinkDict typeOf shrink self other).toOption.map (dictSig sig) =
      each (meet op nullable) (dictSig sig self) (dictSig sig other) := by
  refine toOption_of_iff _ _ _ (fun result hr => ?_) fun hne => ?_
  · rw [each_eq_some]
    intro name
    have hshrinks := (shrinkDict_succeeds_iff typeOf shrink self other).mp ⟨result, hr⟩
    have hget := get?_shrinkDict typeOf shrink self other result hr name
    have hnone (h : ∀ e, result.get? name ≠ some e) : result.get? name = none :=
      Option.eq_none_iff_forall_ne_some.mpr h
    simp only [dictSig]
    cases hf : self.get? name with
    | none =>
      rw [hnone fun e he => by simpa [hf] using (hget e).mp he]
      cases hg : other.get? name with
      | none => rfl
      | some g => simp [meet, hn, hshrinks.right name g hg hf]
    | some f =>
      cases hg : other.get? name with
      | none =>
        rw [hnone fun e he => by simpa [hg] using (hget e).mp he]
        simp [meet, hn, hshrinks.left name f hf hg]
      | some g =>
        obtain ⟨e, he⟩ := hshrinks.shared name f g hf hg
        rw [(hget e).mpr ⟨f, g, hf, hg, he⟩, Option.map_some, Option.map_some, meet, ← hs, he]
        rfl
  · rw [each_ne_none] at hne
    refine (shrinkDict_succeeds_iff typeOf shrink self other).mpr ⟨fun name f g hf hg => ?_, fun name f hf hg => ?_,
      fun name g hg hf => ?_⟩
    · have h := hne name
      rw [dictSig, dictSig, hf, hg, Option.map_some, Option.map_some, meet_some_some_ne_none, ← hs] at h
      exact (exists_ok_iff _ sig _ rfl).mp h
    · have h := hne name
      rw [dictSig, dictSig, hf, hg, Option.map_some, Option.map_none, meet_some_none_ne_none, hn] at h
      exact h
    · have h := hne name
      rw [dictSig, dictSig, hf, hg, Option.map_some, Option.map_none, meet_none_left_ne_none] at h
      rw [← hn]
      exact h _ rfl

theorem mergesTo_sig (merge : String → E → E → Valid E String) (op : String → S → S → Option S)
    (hs : ∀ name f g, (merge name f g).toOption.map sig = op name (sig f) (sig g)) (self other result : Dict E)
    (h : MergesTo merge self other result)
    (hok : ∀ name f g, self.get? name = some f → other.get? name = some g → ∃ e, merge name f g = .ok e)
    (name : String) :
    join (op name) (dictSig sig self name) (dictSig sig other name) = some (dictSig sig result name) := by
  rw [dictSig, dictSig, dictSig]
  cases hf : self.get? name with
  | none =>
    have heq : result.get? name = other.get? name := by
      refine Option.ext fun e => ?_
      rw [h name e, hf]
      simp
    rw [Option.map_none, join_none_left, heq]
  | some f =>
    cases hg : other.get? name with
    | none =>
      have heq : result.get? name = some f := (h name f).mpr (.inr (.inr ⟨hf, hg⟩))
      rw [Option.map_none, join_none_right, heq]
    | some g =>
      obtain ⟨e, he⟩ := hok name f g hf hg
      rw [(h name e).mpr (.inl ⟨f, g, hf, hg, he⟩), Option.map_some, Option.map_some, join, ← hs, he]
      rfl

theorem merges_of_join (merge : String → E → E → Valid E String) (op : String → S → S → Option S)
    (hs : ∀ name f g, (merge name f g).toOption.map sig = op name (sig f) (sig g)) (self other : Dict E)
    (hne : ∀ name, join (op name) (dictSig sig self name) (dictSig sig other name) ≠ none) (name : String) (f g : E)
    (hf : self.get? name = some f) (hg : other.get? name = some g) : ∃ e, merge name f g = .ok e := by
  have h := hne name
  rw [dictSig, dictSig, hf, hg, Option.map_some, Option.map_some, join, ← hs] at h
  refine (exists_ok_iff _ sig _ rfl).mp fun hnone => h ?_
  rw [hnone]
  rfl

theorem expandDict_sig (expand : E → E → Valid E String)
    (hs : ∀ f g, (expand f g).toOption.map sig = op (sig f) (sig g)) (self other : Dict E) :
    (expandDict expand self other).toOption.map (dictSig sig) =
      each (join op) (dictSig sig self) (dictSig sig other) := by
  refine toOption_of_iff _ _ _ (fun result hr => ?_) fun hne => ?_
  · rw [each_eq_some]
    exact mergesTo_sig sig (fun _ => expand) (fun _ => op) (fun _ => hs) self other result
      (expandDict_mergesTo expand self other result hr)
      fun name => (expandDict_succeeds_iff expand self other).mp ⟨result, hr⟩ name
  · rw [each_ne_none] at hne
    exact (expandDict_succeeds_iff expand self other).mpr
      (merges_of_join sig (fun _ => expand) (fun _ => op) (fun _ => hs) self other hne)

end Dicts

section Definitions

variable {P : Payloads} (R : Merging P)

abbrev ArgsSig := String → Option WrappingType

abbrev FieldSig := WrappingType × ArgsSig

abbrev FieldsSig := String → Option FieldSig

def fieldSig (field : Config.Field P) : FieldSig := (field.typeOf, dictSig Arg.typeOf field.args)

def fieldsSig (type : TypeDef P) : FieldsSig := dictSig fieldSig type.fields

noncomputable def mergeArgs : ArgsSig → ArgsSig → Option ArgsSig :=
  each (meet (mergeTypes Bool.or) WrappingType.isNullable)

noncomputable def mergeFieldSig (nonNullMerge : Bool → Bool → Bool) : FieldSig → FieldSig → Option FieldSig :=
  pair (mergeTypes nonNullMerge) mergeArgs

noncomputable def shrinkFields : FieldsSig → FieldsSig → Option FieldsSig :=
  each (meet (mergeFieldSig Bool.or) fun field => field.1.isNullable)

noncomputable def expandFields : FieldsSig → FieldsSig → Option FieldsSig :=
  each (join (mergeFieldSig Bool.and))

theorem shrinkArg_sig (f g : Arg P) :
    (shrinkArg R f g).toOption.map Arg.typeOf = mergeTypes Bool.or f.typeOf g.typeOf := by
  rw [shrinkArg, toOption_mapOk, ← mergeType_toOption]
  change ((shrinkType f.typeOf g.typeOf).toOption.map _).map _ = (shrinkType f.typeOf g.typeOf).toOption
  cases shrinkType f.typeOf g.typeOf <;> rfl

theorem mergeField_sig (nonNullMerge : Bool → Bool → Bool) (f g : Config.Field P) :
    (mergeField R (mergeType nonNullMerge) f g).toOption.map fieldSig =
      mergeFieldSig nonNullMerge (fieldSig f) (fieldSig g) := by
  have hargs := shrinkDict_sig Arg.typeOf Arg.typeOf _ WrappingType.isNullable (shrinkArg R)
    (shrinkArg_sig R) (fun _ => rfl) f.args g.args
  have htypes := mergeType_toOption nonNullMerge f.typeOf g.typeOf
  rw [mergeFieldSig, pair, fieldSig, fieldSig, mergeArgs, ← hargs, ← htypes, mergeField, toOption_mapOk]
  cases mergeType nonNullMerge f.typeOf g.typeOf with
  | error e => cases shrinkDict Arg.typeOf (shrinkArg R) f.args g.args <;> rfl
  | ok t => cases shrinkDict Arg.typeOf (shrinkArg R) f.args g.args <;> rfl

theorem shrinkTypeDef_sig (t u : TypeDef P) :
    (shrinkTypeDef R t u).toOption.map fieldsSig = shrinkFields (fieldsSig t) (fieldsSig u) := by
  have h := shrinkDict_sig Config.Field.typeOf fieldSig _ (fun field => field.1.isNullable) (shrinkField R)
    (mergeField_sig R Bool.or) (fun _ => rfl) t.fields u.fields
  rw [shrinkTypeDef, toOption_mapOk, Option.map_map]
  exact h

theorem expandTypeDef_sig (t u : TypeDef P) :
    (expandTypeDef R t u).toOption.map fieldsSig = expandFields (fieldsSig t) (fieldsSig u) := by
  have h := expandDict_sig fieldSig _ (expandField R) (mergeField_sig R Bool.and) t.fields u.fields
  rw [expandTypeDef, toOption_mapOk, Option.map_map]
  exact h

/-- The modules that have an argument agree on its type, or none of them may be left without it. -/
def ArgsGood : ArgsSig → List ArgsSig → Prop :=
  eachGood (meetGood (mergeTypes Bool.or) WrappingType.isNullable fun _ _ => True)

def FieldGood : FieldSig → List FieldSig → Prop :=
  pairGood (fun _ _ => True) ArgsGood

def ShrinkGood : FieldsSig → List FieldsSig → Prop :=
  eachGood (meetGood (mergeFieldSig Bool.or) (fun field => field.1.isNullable) FieldGood)

def ExpandGood : FieldsSig → List FieldsSig → Prop :=
  eachGood (joinGood FieldGood)

theorem swaps_mergeArgs : Swaps mergeArgs ArgsGood :=
  (swaps_shrink.meet isNullable_mergeTypes).each

theorem swaps_mergeFieldSig (nonNullMerge : Bool → Bool → Bool)
    (h : Swaps (mergeTypes nonNullMerge) fun _ _ => True) : Swaps (mergeFieldSig nonNullMerge) FieldGood :=
  h.pair swaps_mergeArgs

theorem swaps_shrinkFields : Swaps shrinkFields ShrinkGood :=
  ((swaps_mergeFieldSig Bool.or swaps_shrink).meet fun _ _ _ he =>
    isNullable_mergeTypes _ _ _ ((pair_eq_some _ _ _ _ _).mp he).1).each

theorem swaps_expandFields : Swaps expandFields ExpandGood :=
  (swaps_mergeFieldSig Bool.and swaps_expand).join.each

end Definitions

end Gqlforge.SchemaMerge
