import Gqlforge.MergeSignatures
import Gqlforge.NameStates

namespace Gqlforge.SchemaMerge

open Config SchemaUsage PartialMerges NameState

noncomputable def mergeFields : Usage → FieldsSig → FieldsSig → Option FieldsSig
  | .input => shrinkFields
  | .output => expandFields
  | .both | .different | .unknown => fun _ _ => none

structure TypeGood (s : NameState FieldsSig) (L : List (NameState FieldsSig)) : Prop extends Clear s L where
  inputs : (∃ x ∈ s :: L, x.isInput = true) → (∀ x ∈ s :: L, x.isOutput = false) →
    joinGood ShrinkGood s.decl (L.map decl)
  outputs : (∃ x ∈ s :: L, x.isOutput = true) → (∀ x ∈ s :: L, x.isInput = false) →
    joinGood ExpandGood s.decl (L.map decl)

theorem mergeFields_unknown (s x : NameState FieldsSig) (hs : s.known = false) (hx : x.known = false)
    (d e : FieldsSig) : mergeFields (useOf s x) d e = none := by
  obtain ⟨hi, ho⟩ := s.known_eq_false.mp hs
  obtain ⟨hi', ho'⟩ := x.known_eq_false.mp hx
  rw [useOf, hi, ho, hi', ho']
  rfl

theorem oneWay_inputs : OneWay mergeFields shrinkFields fun s => s.isOutput = false where
  closed s x _ hs hx := by
    change (s.isOutput || x.isOutput) = false
    rw [hs, hx]
    rfl
  used s x hs hx hk := by
    obtain ⟨a, b, _⟩ := s
    obtain ⟨c, d, _⟩ := x
    obtain rfl : b = false := hs
    obtain rfl : d = false := hx
    cases a <;> cases c <;> first | rfl | cases hk
  unused := mergeFields_unknown

theorem oneWay_outputs : OneWay mergeFields expandFields fun s => s.isInput = false where
  closed s x _ hs hx := by
    change (s.isInput || x.isInput) = false
    rw [hs, hx]
    rfl
  used s x hs hx hk := by
    obtain ⟨a, b, _⟩ := s
    obtain ⟨c, d, _⟩ := x
    obtain rfl : a = false := hs
    obtain rfl : c = false := hx
    cases b <;> cases d <;> first | rfl | cases hk
  unused := mergeFields_unknown

theorem mergeFields_one (s x : NameState FieldsSig) (d e m : FieldsSig) (h : mergeFields (useOf s x) d e = some m) :
    (s.isInput || x.isInput) = false ∨ (s.isOutput || x.isOutput) = false := by
  obtain ⟨a, b, _⟩ := s
  obtain ⟨c, f, _⟩ := x
  cases a <;> cases b <;> cases c <;> cases f <;> first | exact .inl rfl | exact .inr rfl | cases h

theorem TypeGood.perm (s : NameState FieldsSig) (L L' : List (NameState FieldsSig)) (hp : L.Perm L')
    (h : TypeGood s L) : TypeGood s L' := by
  have hmem (x : NameState FieldsSig) : x ∈ s :: L' ↔ x ∈ s :: L := (hp.cons s).mem_iff.symm
  refine ⟨h.toClear.perm s L L' hp, fun ⟨x, hx, hi⟩ ho => ?_, fun ⟨x, hx, ho⟩ hi => ?_⟩
  · exact swaps_shrinkFields.join.perm _ _ _ (hp.map _)
      (h.inputs ⟨x, (hmem x).mp hx, hi⟩ fun y hy => ho y ((hmem y).mpr hy))
  · exact swaps_expandFields.join.perm _ _ _ (hp.map _)
      (h.outputs ⟨x, (hmem x).mp hx, ho⟩ fun y hy => hi y ((hmem y).mpr hy))

theorem typeFold_perm (s : NameState FieldsSig) (L L' : List (NameState FieldsSig)) (hp : L.Perm L')
    (h : TypeGood s L) : L.foldlM (step mergeFields) s = L'.foldlM (step mergeFields) s := by
  have hp' := hp.cons s
  by_cases hi : ∃ x ∈ s :: L, x.isInput = true
  · by_cases ho : ∃ x ∈ s :: L, x.isOutput = true
    · by_cases hn : 2 ≤ (s :: L).countP declared
      · obtain ⟨x, hx, hxi⟩ := hi
        obtain ⟨y, hy, hyo⟩ := ho
        rw [foldlM_mixed mergeFields mergeFields_one L s h.flags ⟨x, hx, hxi⟩ ⟨y, hy, hyo⟩ hn,
          foldlM_mixed mergeFields mergeFields_one L' s (fun z hz => h.flags z (hp'.mem_iff.mpr hz))
            ⟨x, hp'.mem_iff.mp hx, hxi⟩ ⟨y, hp'.mem_iff.mp hy, hyo⟩ (hp'.countP_eq _ ▸ hn)]
      · exact (reorders_single mergeFields).foldlM_eq s L L' hp ⟨h.flags, by omega⟩
    · push Not at ho
      have ho' (x : NameState FieldsSig) (hx : x ∈ s :: L) : x.isOutput = false := by simpa using ho x hx
      exact (oneWay_inputs.reorders swaps_shrinkFields).foldlM_eq s L L' hp
        ⟨h.toClear, ho', fun _ => h.inputs hi ho'⟩
  · push Not at hi
    have hi' (x : NameState FieldsSig) (hx : x ∈ s :: L) : x.isInput = false := by simpa using hi x hx
    refine (oneWay_outputs.reorders swaps_expandFields).foldlM_eq s L L' hp
      ⟨h.toClear, hi', fun ⟨x, hx, hk⟩ => h.outputs ⟨x, hx, ?_⟩ hi'⟩
    rw [known, hi' x hx, Bool.false_or] at hk
    exact hk

abbrev EnumSig := Finset Variant × Option String

def mergeVariants : Usage → EnumSig → EnumSig → Option EnumSig
  | .input => fun d e => some (d.1 ∩ e.1, docMergeRight d.2 e.2)
  | .output => fun d e => some (d.1 ∪ e.1, docMergeRight d.2 e.2)
  | .both => fun d e => if d = e then some d else none
  | .different | .unknown => fun _ _ => none

def bothWays (s : NameState EnumSig) : Bool := s.isInput && s.isOutput

def onlyInput (s : NameState EnumSig) : Bool := s.isInput && !s.isOutput

def onlyOutput (s : NameState EnumSig) : Bool := s.isOutput && !s.isInput

/-- Equal but for the doc, which has to be equal as well only where the use is in both ways. -/
def SameEnum (s s' : NameState EnumSig) : Prop :=
  s.isInput = s'.isInput ∧ s.isOutput = s'.isOutput ∧ s.decl.map Prod.fst = s'.decl.map Prod.fst ∧
    (bothWays s = true → s.decl = s'.decl)

theorem sameEnum_equivalence : Equivalence SameEnum where
  refl s := ⟨rfl, rfl, rfl, fun _ => rfl⟩
  symm h := by
    obtain ⟨hi, ho, hd, hb⟩ := h
    exact ⟨hi.symm, ho.symm, hd.symm, fun h => (hb (by rwa [bothWays, hi, ho])).symm⟩
  trans h h' := by
    obtain ⟨hi, ho, hd, hb⟩ := h
    obtain ⟨hi', ho', hd', hb'⟩ := h'
    exact ⟨hi.trans hi', ho.trans ho', hd.trans hd',
      fun h => (hb h).trans (hb' (by rwa [bothWays, ← hi, ← ho]))⟩

structure EnumGood (s : NameState EnumSig) (L : List (NameState EnumSig)) : Prop extends Clear s L where
  both : bothWays s = false → (∃ x ∈ L, bothWays x = true) →
    (∀ x ∈ s :: L, ∀ y ∈ s :: L, ∀ d e, x.decl = some d → y.decl = some e → d = e) ∧
      ((∀ x ∈ s :: L, onlyInput x = false) ∨ ∀ x ∈ s :: L, onlyOutput x = false)

theorem EnumGood.perm (s : NameState EnumSig) (L L' : List (NameState EnumSig)) (hp : L.Perm L')
    (h : EnumGood s L) : EnumGood s L' := by
  have hmem (x : NameState EnumSig) (hx : x ∈ s :: L') : x ∈ s :: L := (hp.cons s).mem_iff.mpr hx
  refine ⟨h.toClear.perm s L L' hp, fun hs ⟨x, hx, hb⟩ => ?_⟩
  obtain ⟨hsame, hside⟩ := h.both hs ⟨x, hp.mem_iff.mpr hx, hb⟩
  exact ⟨fun x hx y hy => hsame x (hmem x hx) y (hmem y hy),
    hside.imp (fun h x hx => h x (hmem x hx)) fun h x hx => h x (hmem x hx)⟩

theorem docMergeRight_self (doc : Option String) : docMergeRight doc doc = doc := by
  cases doc <;> rfl

theorem mergeVariants_same (s x : NameState EnumSig) (d : EnumSig) (hk : (s.known || x.known) = true)
    (hside : (onlyInput s = false ∧ onlyInput x = false) ∨ (onlyOutput s = false ∧ onlyOutput x = false)) :
    mergeVariants (useOf s x) d d = some d := by
  have hinput : some (d.1 ∩ d.1, docMergeRight d.2 d.2) = some d := by
    rw [Finset.inter_self, docMergeRight_self]
  have houtput : some (d.1 ∪ d.1, docMergeRight d.2 d.2) = some d := by
    rw [Finset.union_self, docMergeRight_self]
  have hboth : (if d = d then some d else none) = some d := if_pos rfl
  obtain ⟨a, b, _⟩ := s
  obtain ⟨c, e, _⟩ := x
  cases a <;> cases b <;> cases c <;> cases e <;>
    first
    | exact hinput
    | exact houtput
    | exact hboth
    | simp [known] at hk; done
    | simp [onlyInput, onlyOutput] at hside

theorem mergeVariants_bothWays (s x : NameState EnumSig) (hs : bothWays s = true) (d e : EnumSig) :
    mergeVariants (useOf s x) d e = if d = e then some d else none := by
  rw [bothWays, Bool.and_eq_true] at hs
  rw [useOf, hs.1, hs.2, usage, mergeVariants]

theorem sides_merged (s x : NameState EnumSig) (decl : Option EnumSig) (h : bothWays (merged s x decl) = false) :
    (onlyInput (merged s x decl) = true → onlyInput s = true ∨ onlyInput x = true) ∧
      (onlyOutput (merged s x decl) = true → onlyOutput s = true ∨ onlyOutput x = true) := by
  obtain ⟨a, b, _⟩ := s
  obtain ⟨c, d, _⟩ := x
  revert h
  simp only [bothWays, onlyInput, onlyOutput, merged]
  cases a <;> cases b <;> cases c <;> cases d <;> decide

theorem bothWays_merged (s x : NameState EnumSig) (decl : Option EnumSig)
    (h : bothWays (merged s x decl) = false) : bothWays s = false ∧ bothWays x = false := by
  obtain ⟨a, b, _⟩ := s
  obtain ⟨c, d, _⟩ := x
  revert h
  simp only [bothWays, merged]
  cases a <;> cases b <;> cases c <;> cases d <;> decide

theorem bothWays_known (s : NameState EnumSig) (h : bothWays s = true) : s.known = true := by
  rw [bothWays, Bool.and_eq_true] at h
  rw [known, h.1]
  rfl

theorem bothWays_of_step (s x s' : NameState EnumSig) (d e : EnumSig) (hd : s.decl = some d) (he : x.decl = some e)
    (hs : bothWays s = false) (hx : bothWays x = false) (h : step mergeVariants s x = some s') :
    bothWays s' = false := by
  rw [step_declared mergeVariants s x d e hd he] at h
  obtain ⟨m, hm, rfl⟩ := Option.map_eq_some_iff.mp h
  obtain ⟨a, b, _⟩ := s
  obtain ⟨c, f, _⟩ := x
  revert hs hx
  simp only [bothWays, merged]
  cases a <;> cases b <;> cases c <;> cases f <;> first | decide | cases hm

theorem EnumGood.keep (s x : NameState EnumSig) (L : List (NameState EnumSig)) (s' : NameState EnumSig)
    (h : EnumGood s (x :: L)) (hs : step mergeVariants s x = some s') : EnumGood s' L := by
  refine ⟨h.toClear.keep mergeVariants s x L s' hs, fun hs' ⟨z, hz, hb⟩ => ?_⟩
  have hmerged := (step_eq_some mergeVariants s x s' hs).2
  have hnot := bothWays_merged s x s'.decl (by rwa [← hmerged])
  obtain ⟨hsame, hside⟩ := h.both hnot.1 ⟨z, List.mem_cons_of_mem _ hz, hb⟩
  have hsides := sides_merged s x s'.decl (by rwa [← hmerged])
  rw [← hmerged] at hsides
  -- The merged enum is that of all the others.
  have hdecl (d : EnumSig) (hd : s'.decl = some d) :
      ∃ y ∈ s :: x :: L, y.decl = some d := by
    have hj := (step_eq_some mergeVariants s x s' hs).1
    cases hsd : s.decl with
    | none =>
      rw [hsd, join_none_left, hd] at hj
      exact ⟨x, by simp, Option.some.inj hj⟩
    | some a =>
      cases hxd : x.decl with
      | none =>
        rw [hsd, hxd, join_none_right, hd] at hj
        exact ⟨s, by simp, hsd.trans (Option.some.inj hj)⟩
      | some b =>
        obtain rfl := hsame s (by simp) x (by simp) a b hsd hxd
        have hk : (s.known || x.known) = true := by
          refine h.toClear.known_of_declared s x _ _ (.refl _) ⟨z, by simp [hz], bothWays_known z hb⟩ ?_ ?_
          · simp [hsd]
          · simp [hxd]
        have hboth := mergeVariants_same s x a hk (hside.imp (fun h => ⟨h s (by simp), h x (by simp)⟩)
          fun h => ⟨h s (by simp), h x (by simp)⟩)
        rw [hsd, hxd, join, hboth, hd] at hj
        exact ⟨s, by simp, hsd.trans (Option.some.inj hj)⟩
  have hany (y : NameState EnumSig) (hy : y ∈ s' :: L) (d : EnumSig) (hd : y.decl = some d) :
      ∃ w ∈ s :: x :: L, w.decl = some d := by
    rcases List.mem_cons.mp hy with rfl | hy
    · exact hdecl d hd
    · exact ⟨y, by simp [hy], hd⟩
  refine ⟨fun y hy w hw d e hd he => ?_, hside.imp (fun hin y hy => ?_) fun hout y hy => ?_⟩
  · obtain ⟨y', hy', hd'⟩ := hany y hy d hd
    obtain ⟨w', hw', he'⟩ := hany w hw e he
    exact hsame y' hy' w' hw' d e hd' he'
  · rcases List.mem_cons.mp hy with rfl | hy
    · rw [Bool.eq_false_iff]
      intro hy'
      rcases hsides.1 hy' with h | h
      · exact absurd h (by simp [hin s (by simp)])
      · exact absurd h (by simp [hin x (by simp)])
    · exact hin y (by simp [hy])
  · rcases List.mem_cons.mp hy with rfl | hy
    · rw [Bool.eq_false_iff]
      intro hy'
      rcases hsides.2 hy' with h | h
      · exact absurd h (by simp [hout s (by simp)])
      · exact absurd h (by simp [hout x (by simp)])
    · exact hout y (by simp [hy])

theorem useOf_ne_both (s x : NameState EnumSig) (hs : bothWays s = false) (hx : bothWays x = false) :
    useOf s x ≠ .both := by
  obtain ⟨a, b, _⟩ := s
  obtain ⟨c, d, _⟩ := x
  revert hs hx
  simp only [bothWays, useOf]
  cases a <;> cases b <;> cases c <;> cases d <;> decide

theorem sameEnum_of_decl_eq (s s' : NameState EnumSig) (h : SameEnum s s') (hd : s.decl = s'.decl) : s = s' := by
  obtain ⟨a, b, _⟩ := s
  obtain ⟨c, d, _⟩ := s'
  obtain ⟨hi, ho, -, -⟩ := h
  obtain rfl : a = c := hi
  obtain rfl : b = d := ho
  rw [NameState.mk.injEq]
  exact ⟨rfl, rfl, hd⟩

theorem bothWays_useOf_right (s x : NameState EnumSig) (hx : bothWays x = true) (d e : EnumSig) :
    mergeVariants (useOf s x) d e = if d = e then some d else none := by
  rw [useOf_comm, mergeVariants_bothWays x s hx]

theorem EnumGood.congr (s s' x : NameState EnumSig) (L : List (NameState EnumSig)) (hr : SameEnum s s')
    (h : EnumGood s (x :: L)) (h' : EnumGood s' (x :: L)) :
    Option.Rel SameEnum (step mergeVariants s x) (step mergeVariants s' x) := by
  by_cases hd : s.decl = s'.decl
  · rw [sameEnum_of_decl_eq s s' hr hd]
    exact rel_refl sameEnum_equivalence _
  by_cases hxd : x.decl = none
  · have hxk := h.flags x (by simp) hxd
    rw [step_undeclared mergeVariants s x hxd hxk, step_undeclared mergeVariants s' x hxd hxk]
    exact .some hr
  obtain ⟨e, he⟩ := Option.ne_none_iff_exists'.mp hxd
  obtain ⟨hi, ho, hfst, hboth⟩ := hr
  have hs : bothWays s = false := Bool.eq_false_iff.mpr fun hs => hd (hboth hs)
  have hs' : bothWays s' = false := by rwa [bothWays, ← hi, ← ho]
  cases hsd : s.decl with
  | none =>
    rw [hsd] at hfst hd
    cases hsd' : s'.decl with
    | none => exact absurd hsd'.symm hd
    | some a' =>
      rw [hsd'] at hfst
      cases hfst
  | some a =>
    cases hsd' : s'.decl with
    | none =>
      rw [hsd, hsd'] at hfst
      cases hfst
    | some a' =>
      rw [hsd, hsd'] at hfst
      have hx : bothWays x = false := by
        rw [Bool.eq_false_iff]
        intro hx
        have ha := (h.both hs ⟨x, by simp, hx⟩).1 s (by simp) x (by simp) a e hsd he
        have ha' := (h'.both hs' ⟨x, by simp, hx⟩).1 s' (by simp) x (by simp) a' e hsd' he
        exact hd (by rw [hsd, hsd', ha, ha'])
      have huse : useOf s' x = useOf s x := by rw [useOf, useOf, hi, ho]
      have hplain := useOf_ne_both s x hs hx
      have hfst' : a.1 = a'.1 := Option.some.inj hfst
      have hone (m : EnumSig) (hm : mergeVariants (useOf s x) a e = some m) :
          bothWays (merged s x (some m)) = false := by
        refine bothWays_of_step s x _ a e hsd he hs hx ?_
        rw [step_declared mergeVariants s x a e hsd he, hm]
        rfl
      rw [step_declared mergeVariants s x a e hsd he, step_declared mergeVariants s' x a' e hsd' he, huse]
      cases hu : useOf s x with
      | both => exact absurd hu hplain
      | different => exact .none
      | unknown => exact .none
      | input =>
        rw [hu] at hone
        refine .some ⟨congrArg (· || x.isInput) hi, congrArg (· || x.isOutput) ho, ?_, fun hb => ?_⟩
        · exact congrArg (fun v => some (v ∩ e.1)) hfst'
        · exact absurd hb (by rw [hone _ rfl]; exact Bool.false_ne_true)
      | output =>
        rw [hu] at hone
        refine .some ⟨congrArg (· || x.isInput) hi, congrArg (· || x.isOutput) ho, ?_, fun hb => ?_⟩
        · exact congrArg (fun v => some (v ∪ e.1)) hfst'
        · exact absurd hb (by rw [hone _ rfl]; exact Bool.false_ne_true)

theorem step_rel_comm (s x : NameState EnumSig) (hs : s.decl = none → s.known = false)
    (hx : x.decl = none → x.known = false) : Option.Rel SameEnum (step mergeVariants s x) (step mergeVariants x s) := by
  by_cases hsd : s.decl = none
  · rw [undeclared_step mergeVariants s x hsd (hs hsd), step_undeclared mergeVariants x s hsd (hs hsd)]
    exact rel_refl sameEnum_equivalence _
  by_cases hxd : x.decl = none
  · rw [undeclared_step mergeVariants x s hxd (hx hxd), step_undeclared mergeVariants s x hxd (hx hxd)]
    exact rel_refl sameEnum_equivalence _
  obtain ⟨d, hd⟩ := Option.ne_none_iff_exists'.mp hsd
  obtain ⟨e, he⟩ := Option.ne_none_iff_exists'.mp hxd
  by_cases hb : bothWays s = true ∨ bothWays x = true
  · have heq : step mergeVariants s x = step mergeVariants x s := by
      refine step_comm mergeVariants s x fun a b => ?_
      have hif : mergeVariants (useOf s x) a b = if a = b then some a else none :=
        hb.elim (fun h => mergeVariants_bothWays s x h a b) fun h => bothWays_useOf_right s x h a b
      have hif' : mergeVariants (useOf s x) b a = if b = a then some b else none :=
        hb.elim (fun h => mergeVariants_bothWays s x h b a) fun h => bothWays_useOf_right s x h b a
      rw [hif, hif']
      by_cases hab : a = b
      · rw [if_pos hab, if_pos hab.symm, hab]
      · rw [if_neg hab, if_neg (Ne.symm hab)]
    rw [heq]
    exact rel_refl sameEnum_equivalence _
  · rw [not_or, Bool.not_eq_true, Bool.not_eq_true] at hb
    have hone (m : EnumSig) (hm : mergeVariants (useOf s x) d e = some m) :
        bothWays (merged s x (some m)) = false := by
      refine bothWays_of_step s x _ d e hd he hb.1 hb.2 ?_
      rw [step_declared mergeVariants s x d e hd he, hm]
      rfl
    rw [step_declared mergeVariants s x d e hd he, step_declared mergeVariants x s e d he hd, useOf_comm x s,
      merged_comm x s]
    cases hu : useOf s x with
    | both => exact absurd hu (useOf_ne_both s x hb.1 hb.2)
    | different => exact .none
    | unknown => exact .none
    | input =>
      rw [hu] at hone
      refine .some ⟨rfl, rfl, congrArg some (Finset.inter_comm _ _), fun hb => ?_⟩
      exact absurd hb (by rw [hone _ rfl]; exact Bool.false_ne_true)
    | output =>
      rw [hu] at hone
      refine .some ⟨rfl, rfl, congrArg some (Finset.union_comm _ _), fun hb => ?_⟩
      exact absurd hb (by rw [hone _ rfl]; exact Bool.false_ne_true)

theorem swap_plain (a b c p q r : Bool) (d e f : EnumSig) (hs : (a && b) = false) (hx : (c && p) = false)
    (hy : (q && r) = false) (hsx : (a || b || (c || p) || (q || r)) = true → (a || b || (c || p)) = true)
    (hsy : (a || b || (c || p) || (q || r)) = true → (a || b || (q || r)) = true) :
    Option.Rel SameEnum
      ((step mergeVariants ⟨a, b, some d⟩ ⟨c, p, some e⟩).bind (step mergeVariants · ⟨q, r, some f⟩))
      ((step mergeVariants ⟨a, b, some d⟩ ⟨q, r, some f⟩).bind (step mergeVariants · ⟨c, p, some e⟩)) := by
  cases a <;> cases b <;> cases c <;> cases p <;> cases q <;> cases r <;>
    first
    | exact absurd hs (by decide)
    | exact absurd hx (by decide)
    | exact absurd hy (by decide)
    | exact absurd hsx (by decide)
    | exact absurd hsy (by decide)
    | exact .none
    | exact .some ⟨rfl, rfl, congrArg some (Finset.inter_right_comm _ _ _), fun h => absurd h Bool.false_ne_true⟩
    | exact .some ⟨rfl, rfl, congrArg some (Finset.union_right_comm _ _ _), fun h => absurd h Bool.false_ne_true⟩

theorem step_same (s x : NameState EnumSig) (d : EnumSig) (hd : s.decl = some d) (he : x.decl = some d)
    (hk : (s.known || x.known) = true)
    (hside : (onlyInput s = false ∧ onlyInput x = false) ∨ (onlyOutput s = false ∧ onlyOutput x = false)) :
    step mergeVariants s x = some (merged s x (some d)) := by
  rw [step_declared mergeVariants s x d d hd he, mergeVariants_same s x d hk hside]
  rfl

theorem swap_bothWays (s x y : NameState EnumSig) (d e f : EnumSig) (hd : s.decl = some d) (he : x.decl = some e)
    (hf : y.decl = some f) (hs : bothWays s = true) :
    (step mergeVariants s x).bind (step mergeVariants · y) =
      (step mergeVariants s y).bind (step mergeVariants · x) := by
  have hmerged (z : NameState EnumSig) : bothWays (merged s z (some d)) = true := by
    rw [bothWays, Bool.and_eq_true] at hs
    rw [bothWays, merged, hs.1, hs.2]
    rfl
  have htwice (u v : NameState EnumSig) (a b : EnumSig) (ha : u.decl = some a) (hb : v.decl = some b) :
      (step mergeVariants s u).bind (step mergeVariants · v) =
        if d = a ∧ d = b then some (merged (merged s u (some d)) v (some d)) else none := by
    rw [step_declared mergeVariants s u d a hd ha, mergeVariants_bothWays s u hs]
    by_cases hda : d = a
    · rw [if_pos hda, Option.map_some, Option.bind_some, step_declared mergeVariants _ v d b rfl hb,
        mergeVariants_bothWays _ v (hmerged u)]
      by_cases hdb : d = b
      · rw [if_pos hdb, if_pos ⟨hda, hdb⟩]
        rfl
      · rw [if_neg hdb, if_neg fun h => hdb h.2]
        rfl
    · rw [if_neg hda, if_neg fun h => hda h.1]
      rfl
  rw [htwice x y e f he hf, htwice y x f e hf he, merged_merged s x y _ (some d)]
  simp only [and_comm]

theorem EnumGood.swap (s x y : NameState EnumSig) (L : List (NameState EnumSig)) (h : EnumGood s (x :: y :: L)) :
    Option.Rel SameEnum ((step mergeVariants s x).bind (step mergeVariants · y))
      ((step mergeVariants s y).bind (step mergeVariants · x)) := by
  by_cases hsd : s.decl = none
  · have hsk := h.flags s (by simp) hsd
    rw [undeclared_step mergeVariants s x hsd hsk, undeclared_step mergeVariants s y hsd hsk]
    exact step_rel_comm x y (h.flags x (by simp)) (h.flags y (by simp))
  by_cases hxd : x.decl = none
  · rw [swap_undeclared mergeVariants s x y hxd (h.flags x (by simp) hxd)]
    exact rel_refl sameEnum_equivalence _
  by_cases hyd : y.decl = none
  · rw [swap_undeclared mergeVariants s y x hyd (h.flags y (by simp) hyd)]
    exact rel_refl sameEnum_equivalence _
  obtain ⟨d, hd⟩ := Option.ne_none_iff_exists'.mp hsd
  obtain ⟨e, he⟩ := Option.ne_none_iff_exists'.mp hxd
  obtain ⟨f, hf⟩ := Option.ne_none_iff_exists'.mp hyd
  have hex (hk : (s.known || x.known || y.known) = true) : ∃ z ∈ s :: x :: y :: L, z.known = true := by
    rw [Bool.or_eq_true, Bool.or_eq_true] at hk
    rcases hk with (hk | hk) | hk
    · exact ⟨s, by simp, hk⟩
    · exact ⟨x, by simp, hk⟩
    · exact ⟨y, by simp, hk⟩
  have hsx (hk : (s.known || x.known || y.known) = true) :=
    h.toClear.known_of_declared s x _ _ (.refl _) (hex hk) hsd hxd
  have hsy (hk : (s.known || x.known || y.known) = true) :=
    h.toClear.known_of_declared s y _ _ (.swap y x L) (hex hk) hsd hyd
  by_cases hs : bothWays s = true
  · rw [swap_bothWays s x y d e f hd he hf hs]
    exact rel_refl sameEnum_equivalence _
  rw [Bool.not_eq_true] at hs
  by_cases hb : bothWays x = true ∨ bothWays y = true
  · obtain ⟨hsame, hside⟩ := h.both hs (hb.elim (fun hx => ⟨x, by simp, hx⟩) fun hy => ⟨y, by simp, hy⟩)
    obtain rfl := hsame s (by simp) x (by simp) d e hd he
    obtain rfl := hsame s (by simp) y (by simp) d f hd hf
    have hk : (s.known || x.known || y.known) = true := by
      rcases hb with hb | hb <;> simp [bothWays_known _ hb]
    have htwice (u v : NameState EnumSig) (hu : u ∈ s :: x :: y :: L) (hv : v ∈ s :: x :: y :: L)
        (hud : u.decl = some d) (hvd : v.decl = some d) (hsu : (s.known || u.known) = true) :
        (step mergeVariants s u).bind (step mergeVariants · v) =
          some (merged (merged s u (some d)) v (some d)) := by
      have hsu' : (onlyInput s = false ∧ onlyInput u = false) ∨ (onlyOutput s = false ∧ onlyOutput u = false) :=
        hside.imp (fun h => ⟨h s (by simp), h u hu⟩) fun h => ⟨h s (by simp), h u hu⟩
      rw [step_same s u d hd hud hsu hsu', Option.bind_some]
      refine step_same _ v d rfl hvd (by rw [known_merged, hsu]; rfl) ?_
      have hneither (a b : Bool) (p q : Bool) (h : (a && !p) = false ∧ (b && !q) = false) :
          ((a || b) && !(p || q)) = false := by
        revert h
        cases a <;> cases b <;> cases p <;> cases q <;> decide
      rcases hside with h | h
      · exact .inl ⟨hneither _ _ _ _ ⟨h s (by simp), h u hu⟩, h v hv⟩
      · exact .inr ⟨hneither _ _ _ _ ⟨h s (by simp), h u hu⟩, h v hv⟩
    rw [htwice x y (by simp) (by simp) he hf (hsx hk), htwice y x (by simp) (by simp) hf he (hsy hk),
      merged_merged s x y _ (some d)]
    exact rel_refl sameEnum_equivalence _
  · rw [not_or, Bool.not_eq_true, Bool.not_eq_true] at hb
    obtain ⟨a, b, _⟩ := s
    obtain ⟨c, p, _⟩ := x
    obtain ⟨q, r, _⟩ := y
    obtain rfl := hd
    obtain rfl := he
    obtain rfl := hf
    exact swap_plain a b c p q r d e f hs hb.1 hb.2 hsx hsy

theorem enum_reorders : Reorders (step mergeVariants) SameEnum EnumGood where
  equiv := sameEnum_equivalence
  perm := EnumGood.perm
  keep := EnumGood.keep
  congr := EnumGood.congr
  swap := EnumGood.swap

end Gqlforge.SchemaMerge
