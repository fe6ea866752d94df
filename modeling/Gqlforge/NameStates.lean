import Gqlforge.SchemaMerge
import Gqlforge.PartialMerges

namespace Gqlforge.SchemaMerge

open PartialMerges

structure NameState (D : Type) where
  isInput : Bool
  isOutput : Bool
  decl : Option D

namespace NameState

variable {D : Type}

def known (s : NameState D) : Bool := s.isInput || s.isOutput

def unclear (s : NameState D) : Bool := s.decl.isSome && !s.known

def merged (s x : NameState D) (decl : Option D) : NameState D :=
  ⟨s.isInput || x.isInput, s.isOutput || x.isOutput, decl⟩

def useOf (s x : NameState D) : Usage := usage s.isInput s.isOutput x.isInput x.isOutput

def step (merge : Usage → D → D → Option D) (s x : NameState D) : Option (NameState D) :=
  (join (merge (useOf s x)) s.decl x.decl).map (merged s x)

theorem known_eq_false (s : NameState D) : s.known = false ↔ s.isInput = false ∧ s.isOutput = false := by
  rw [known, Bool.or_eq_false_iff]

theorem known_merged (s x : NameState D) (decl : Option D) : (merged s x decl).known = (s.known || x.known) := by
  change (s.isInput || x.isInput || (s.isOutput || x.isOutput)) = (s.isInput || s.isOutput || (x.isInput || x.isOutput))
  ac_rfl

theorem useOf_comm (s x : NameState D) : useOf s x = useOf x s := by
  obtain ⟨a, b, _⟩ := s
  obtain ⟨c, d, _⟩ := x
  cases a <;> cases b <;> cases c <;> cases d <;> rfl

theorem merged_comm (s x : NameState D) : merged s x = merged x s := by
  funext decl
  rw [merged, merged, Bool.or_comm, Bool.or_comm s.isOutput]

theorem merged_merged (s x y : NameState D) (d e f : Option D) :
    merged (merged s x d) y f = merged (merged s y e) x f := by
  rw [merged, merged, merged, merged, Bool.or_right_comm, Bool.or_right_comm s.isOutput]

theorem merged_unused (s x : NameState D) (hx : x.known = false) : merged s x s.decl = s := by
  obtain ⟨hi, ho⟩ := x.known_eq_false.mp hx
  rw [merged, hi, ho, Bool.or_false, Bool.or_false]

theorem step_comm (merge : Usage → D → D → Option D) (s x : NameState D)
    (hcomm : ∀ d e, merge (useOf s x) d e = merge (useOf s x) e d) : step merge s x = step merge x s := by
  rw [step, step, useOf_comm x s, join_comm hcomm, merged_comm]

theorem step_undeclared (merge : Usage → D → D → Option D) (s x : NameState D) (hd : x.decl = none)
    (hx : x.known = false) : step merge s x = some s := by
  rw [step, hd, join_none_right, Option.map_some, merged_unused s x hx]

theorem swap_undeclared (merge : Usage → D → D → Option D) (s x y : NameState D) (hd : x.decl = none)
    (hx : x.known = false) : (step merge s x).bind (step merge · y) = (step merge s y).bind (step merge · x) := by
  rw [step_undeclared merge s x hd hx, Option.bind_some]
  cases step merge s y with
  | none => rfl
  | some m => rw [Option.bind_some, step_undeclared merge m x hd hx]

theorem undeclared_step (merge : Usage → D → D → Option D) (s x : NameState D) (hd : s.decl = none)
    (hs : s.known = false) : step merge s x = some x := by
  rw [step, hd, join_none_left, Option.map_some, merged_comm, merged_unused x s hs]

theorem step_declared (merge : Usage → D → D → Option D) (s x : NameState D) (d e : D) (hd : s.decl = some d)
    (he : x.decl = some e) : step merge s x = (merge (useOf s x) d e).map fun m => merged s x (some m) := by
  rw [step, hd, he, join, Option.map_map]
  rfl

theorem step_eq_some (merge : Usage → D → D → Option D) (s x s' : NameState D) (h : step merge s x = some s') :
    join (merge (useOf s x)) s.decl x.decl = some s'.decl ∧ s' = merged s x s'.decl := by
  obtain ⟨decl, hd, rfl⟩ := Option.map_eq_some_iff.mp h
  exact ⟨hd, rfl⟩

def Flagged (L : List (NameState D)) : Prop := ∀ x ∈ L, x.decl = none → x.known = false

/-- Where a use is known at all, at most one declaration comes without one, unless the first has it. -/
structure Clear (s : NameState D) (L : List (NameState D)) : Prop where
  flags : Flagged (s :: L)
  usage : (∃ x ∈ s :: L, x.known = true) → s.known = true ∨ (s :: L).countP unclear ≤ 1

theorem Clear.perm (s : NameState D) (L L' : List (NameState D)) (hp : L.Perm L') (h : Clear s L) : Clear s L' := by
  have hp' := hp.cons s
  refine ⟨fun x hx => h.flags x (hp'.mem_iff.mpr hx), fun ⟨x, hx, hk⟩ => ?_⟩
  rw [← hp'.countP_eq]
  exact h.usage ⟨x, hp'.mem_iff.mpr hx, hk⟩

theorem mem_of_step (merge : Usage → D → D → Option D) (s x s' : NameState D) (L : List (NameState D))
    (h : step merge s x = some s') (hk : ∃ y ∈ s' :: L, y.known = true) : ∃ y ∈ s :: x :: L, y.known = true := by
  obtain ⟨y, hy, hk⟩ := hk
  rcases List.mem_cons.mp hy with rfl | hy
  · rw [(step_eq_some merge s x y h).2, known_merged, Bool.or_eq_true] at hk
    rcases hk with hk | hk
    · exact ⟨s, by simp, hk⟩
    · exact ⟨x, by simp, hk⟩
  · exact ⟨y, by simp [hy], hk⟩

theorem decl_eq_none_of_step (merge : Usage → D → D → Option D) (s x s' : NameState D)
    (h : step merge s x = some s') (hd : s'.decl = none) : s.decl = none ∧ x.decl = none := by
  have hj := (step_eq_some merge s x s' h).1
  rw [hd] at hj
  cases hs : s.decl with
  | none =>
    rw [hs, join_none_left] at hj
    exact ⟨rfl, Option.some.inj hj⟩
  | some d =>
    cases hx : x.decl with
    | none =>
      rw [hs, hx, join_none_right] at hj
      cases hj
    | some e =>
      rw [hs, hx] at hj
      obtain ⟨_, _, hm⟩ := Option.map_eq_some_iff.mp hj
      cases hm

theorem Flagged.keep (merge : Usage → D → D → Option D) (s x : NameState D) (L : List (NameState D))
    (s' : NameState D) (h : Flagged (s :: x :: L)) (hs : step merge s x = some s') : Flagged (s' :: L) := by
  intro y hy hd
  rcases List.mem_cons.mp hy with rfl | hy
  · obtain ⟨hsd, hxd⟩ := decl_eq_none_of_step merge s x y hs hd
    rw [(step_eq_some merge s x y hs).2, known_merged, h s (by simp) hsd, h x (by simp) hxd]
    rfl
  · exact h y (by simp [hy]) hd

theorem unclear_eq_true (s : NameState D) : s.unclear = true ↔ s.decl ≠ none ∧ s.known = false := by
  rw [unclear, Bool.and_eq_true, Bool.not_eq_true', Option.ne_none_iff_isSome]

theorem Clear.keep (merge : Usage → D → D → Option D) (s x : NameState D) (L : List (NameState D))
    (s' : NameState D) (h : Clear s (x :: L)) (hs : step merge s x = some s') : Clear s' L := by
  refine ⟨h.flags.keep merge s x L s' hs, fun hk => ?_⟩
  · have hknown : s'.known = (s.known || x.known) := by
      rw [(step_eq_some merge s x s' hs).2, known_merged]
    rcases h.usage (mem_of_step merge s x s' L hs hk) with hs' | hcount
    · exact .inl (by rw [hknown, hs']; rfl)
    · by_cases hk' : s'.known = true
      · exact .inl hk'
      · refine .inr (le_trans ?_ hcount)
        rw [hknown, Bool.not_eq_true, Bool.or_eq_false_iff] at hk'
        -- Neither is used, so the merged one is declared only if one of the two is.
        have hone : s'.unclear = true → s.unclear = true ∨ x.unclear = true := by
          rw [unclear_eq_true, unclear_eq_true, unclear_eq_true]
          rintro ⟨hd, -⟩
          by_contra hno
          push Not at hno
          have hsd : s.decl = none := by
            by_contra hne
            exact hno.1 hne hk'.1
          have hxd : x.decl = none := by
            by_contra hne
            exact hno.2 hne hk'.2
          have hj := (step_eq_some merge s x s' hs).1
          rw [hsd, hxd] at hj
          exact hd (Option.some.inj hj).symm
        rw [List.countP_cons, List.countP_cons, List.countP_cons]
        cases hs' : s'.unclear with
        | false =>
          rw [if_neg Bool.false_ne_true]
          omega
        | true => rcases hone hs' with hu | hu <;> simp [hu]

section OneWay

variable (merge : Usage → D → D → Option D) (op : D → D → Option D) (side : NameState D → Prop)

structure OneWay : Prop where
  closed : ∀ (s x : NameState D) decl, side s → side x → side (merged s x decl)
  used : ∀ s x : NameState D, side s → side x → (s.known || x.known) = true → merge (useOf s x) = op
  unused : ∀ s x : NameState D, s.known = false → x.known = false → ∀ d e, merge (useOf s x) d e = none

variable {merge op side}

theorem OneWay.join (h : OneWay merge op side) (s x : NameState D) (hs : side s) (hx : side x)
    (hk : s.decl ≠ none → x.decl ≠ none → (s.known || x.known) = true) :
    PartialMerges.join (merge (useOf s x)) s.decl x.decl = PartialMerges.join op s.decl x.decl := by
  cases hd : s.decl with
  | none => rw [join_none_left, join_none_left]
  | some d =>
    cases he : x.decl with
    | none => rw [join_none_right, join_none_right]
    | some e => rw [h.used s x hs hx (hk (by simp [hd]) (by simp [he]))]

theorem OneWay.join_of_step (h : OneWay merge op side) (s x s' : NameState D) (hs : side s) (hx : side x)
    (hstep : step merge s x = some s') : PartialMerges.join op s.decl x.decl = some s'.decl := by
  have hj := (step_eq_some merge s x s' hstep).1
  rw [← hj]
  refine (h.join s x hs hx fun hd he => ?_).symm
  by_contra hk
  rw [Bool.not_eq_true, Bool.or_eq_false_iff] at hk
  obtain ⟨d, hd⟩ := Option.ne_none_iff_exists'.mp hd
  obtain ⟨e, he⟩ := Option.ne_none_iff_exists'.mp he
  rw [step_declared merge s x d e hd he, h.unused s x hk.1 hk.2 d e] at hstep
  cases hstep

theorem Clear.known_of_declared (s x : NameState D) (L L' : List (NameState D)) (h : Clear s L)
    (hL : L.Perm (x :: L')) (hk : ∃ y ∈ s :: L, y.known = true) (hd : s.decl ≠ none) (he : x.decl ≠ none) :
    (s.known || x.known) = true := by
  by_contra hno
  rw [Bool.not_eq_true, Bool.or_eq_false_iff] at hno
  rcases h.usage hk with hs | hcount
  · rw [hno.1] at hs
    cases hs
  · have hs : s.unclear = true := s.unclear_eq_true.mpr ⟨hd, hno.1⟩
    have hx : x.unclear = true := x.unclear_eq_true.mpr ⟨he, hno.2⟩
    rw [(hL.cons s).countP_eq, List.countP_cons, List.countP_cons, if_pos hs, if_pos hx] at hcount
    omega

theorem OneWay.step_step (h : OneWay merge op side) (s x y : NameState D) (hs : side s) (hx : side x) (hy : side y)
    (hsx : s.decl ≠ none → x.decl ≠ none → (s.known || x.known) = true)
    (hsy : (s.known || x.known || y.known) = true) :
    (step merge s x).bind (step merge · y) =
      ((PartialMerges.join op s.decl x.decl).bind (PartialMerges.join op · y.decl)).map
        (NameState.merged (NameState.merged s x none) y) := by
  rw [step, h.join s x hs hx hsx]
  cases hj : PartialMerges.join op s.decl x.decl with
  | none => rfl
  | some d =>
    rw [Option.map_some, Option.bind_some, Option.bind_some, step, h.join _ y (h.closed s x d hs hx) hy]
    · rfl
    · intro _ _
      rw [known_merged]
      exact hsy

theorem OneWay.swap {goodD : D → List D → Prop} (h : OneWay merge op side) (hop : Swaps op goodD) (s x y : NameState D)
    (L : List (NameState D)) (hc : Clear s (x :: y :: L)) (hside : ∀ z ∈ s :: x :: y :: L, side z)
    (hgood : (∃ z ∈ s :: x :: y :: L, z.known = true) → joinGood goodD s.decl ((x :: y :: L).map decl)) :
    (step merge s x).bind (step merge · y) = (step merge s y).bind (step merge · x) := by
  have hs := hside s (by simp)
  have hx := hside x (by simp)
  have hy := hside y (by simp)
  by_cases hsd : s.decl = none
  · rw [undeclared_step merge s x hsd (hc.flags s (by simp) hsd), undeclared_step merge s y hsd
      (hc.flags s (by simp) hsd)]
    refine step_comm merge x y fun d e => ?_
    by_cases hk : (x.known || y.known) = true
    · rw [h.used x y hx hy hk, hop.comm]
    · rw [Bool.not_eq_true, Bool.or_eq_false_iff] at hk
      rw [h.unused x y hk.1 hk.2, h.unused x y hk.1 hk.2]
  by_cases hxd : x.decl = none
  · exact swap_undeclared merge s x y hxd (hc.flags x (by simp) hxd)
  by_cases hyd : y.decl = none
  · exact (swap_undeclared merge s y x hyd (hc.flags y (by simp) hyd)).symm
  by_cases hk : (s.known || x.known || y.known) = true
  · have hex : ∃ z ∈ s :: x :: y :: L, z.known = true := by
      rw [Bool.or_eq_true, Bool.or_eq_true] at hk
      rcases hk with (hk | hk) | hk
      · exact ⟨s, by simp, hk⟩
      · exact ⟨x, by simp, hk⟩
      · exact ⟨y, by simp, hk⟩
    have hsx := hc.known_of_declared s x _ _ (.refl _) hex
    have hsy := hc.known_of_declared s y _ _ (.swap y x L) hex
    rw [h.step_step s x y hs hx hy hsx hk, h.step_step s y x hs hy hx hsy (by rwa [Bool.or_right_comm]),
      (hop.join).swap s.decl x.decl y.decl _ (hgood hex)]
    congr 1
    funext decl
    exact merged_merged s x y none none decl
  · rw [Bool.not_eq_true, Bool.or_eq_false_iff, Bool.or_eq_false_iff] at hk
    obtain ⟨⟨hsk, hxk⟩, hyk⟩ := hk
    obtain ⟨d, hd⟩ := Option.ne_none_iff_exists'.mp hsd
    obtain ⟨e, he⟩ := Option.ne_none_iff_exists'.mp hxd
    obtain ⟨f, hf⟩ := Option.ne_none_iff_exists'.mp hyd
    rw [step_declared merge s x d e hd he, step_declared merge s y d f hd hf, h.unused s x hsk hxk,
      h.unused s y hsk hyk]
    rfl

theorem OneWay.reorders {goodD : D → List D → Prop} (h : OneWay merge op side) (hop : Swaps op goodD) :
    Reorders (step merge) (· = ·) fun s L => Clear s L ∧ (∀ x ∈ s :: L, side x) ∧
      ((∃ x ∈ s :: L, x.known = true) → joinGood goodD s.decl (L.map decl)) where
  equiv := eq_equivalence
  perm s L L' hp hg := by
    obtain ⟨hc, hside, hgood⟩ := hg
    have hp' := hp.cons s
    refine ⟨hc.perm s L L' hp, fun x hx => hside x (hp'.mem_iff.mpr hx), fun ⟨x, hx, hk⟩ => ?_⟩
    exact hop.join.perm _ _ _ (hp.map _) (hgood ⟨x, hp'.mem_iff.mpr hx, hk⟩)
  keep s x L s' hg hs' := by
    obtain ⟨hc, hside, hgood⟩ := hg
    have hs := hside s (by simp)
    have hx := hside x (by simp)
    refine ⟨hc.keep merge s x L s' hs', fun y hy => ?_, fun hk => ?_⟩
    · rcases List.mem_cons.mp hy with rfl | hy
      · rw [(step_eq_some merge s x y hs').2]
        exact h.closed s x y.decl hs hx
      · exact hside y (by simp [hy])
    · exact hop.join.keep _ _ _ _ (hgood (mem_of_step merge s x s' L hs' hk))
        (h.join_of_step s x s' hs hx hs')
  congr s s' x L hr _ _ := by
    subst hr
    exact rel_refl eq_equivalence _
  swap s x y L hg := by
    obtain ⟨hc, hside, hgood⟩ := hg
    rw [h.swap hop s x y L hc hside hgood]
    exact rel_refl eq_equivalence _

end OneWay

section Mixed

variable (merge : Usage → D → D → Option D)

def declared (s : NameState D) : Bool := s.decl.isSome

theorem declared_of_step (s x s' : NameState D) (h : step merge s x = some s') :
    s'.declared = (s.declared || x.declared) := by
  have hj := (step_eq_some merge s x s' h).1
  rw [declared, declared, declared]
  cases hs : s.decl with
  | none =>
    rw [hs, join_none_left] at hj
    rw [← Option.some.inj hj]
    rfl
  | some d =>
    cases hx : x.decl with
    | none =>
      rw [hs, hx, join_none_right] at hj
      rw [← Option.some.inj hj]
      rfl
    | some e =>
      rw [hs, hx] at hj
      obtain ⟨m, -, hm⟩ := Option.map_eq_some_iff.mp hj
      rw [← hm]
      rfl

theorem reorders_single : Reorders (step merge) (· = ·)
    fun s L => Flagged (s :: L) ∧ (s :: L).countP declared ≤ 1 where
  equiv := eq_equivalence
  perm s L L' hp hg := by
    have hp' := hp.cons s
    exact ⟨fun x hx => hg.1 x (hp'.mem_iff.mpr hx), hp'.countP_eq _ ▸ hg.2⟩
  keep s x L s' hg hs := by
    refine ⟨hg.1.keep merge s x L s' hs, le_trans ?_ hg.2⟩
    rw [List.countP_cons, List.countP_cons, List.countP_cons, declared_of_step merge s x s' hs]
    cases s.declared <;> cases x.declared <;> simp
  congr s s' x L hr _ _ := by
    subst hr
    exact rel_refl eq_equivalence _
  swap s x y L hg := by
    obtain ⟨hflags, hcount⟩ := hg
    have heq : (step merge s x).bind (step merge · y) = (step merge s y).bind (step merge · x) := by
      by_cases hxd : x.decl = none
      · exact swap_undeclared merge s x y hxd (hflags x (by simp) hxd)
      by_cases hyd : y.decl = none
      · exact (swap_undeclared merge s y x hyd (hflags y (by simp) hyd)).symm
      have hx : x.declared = true := Option.isSome_iff_ne_none.mpr hxd
      have hy : y.declared = true := Option.isSome_iff_ne_none.mpr hyd
      rw [List.countP_cons, List.countP_cons, List.countP_cons, if_pos hx, if_pos hy] at hcount
      omega
    rw [heq]
    exact rel_refl eq_equivalence _

theorem foldlM_mixed
    (hone : ∀ (s x : NameState D) d e m, merge (useOf s x) d e = some m →
      (s.isInput || x.isInput) = false ∨ (s.isOutput || x.isOutput) = false)
    (L : List (NameState D)) (s : NameState D) (hf : Flagged (s :: L)) (hi : ∃ x ∈ s :: L, x.isInput = true)
    (ho : ∃ x ∈ s :: L, x.isOutput = true) (hn : 2 ≤ (s :: L).countP declared) :
    L.foldlM (step merge) s = none := by
  induction L generalizing s with
  | nil =>
    rw [List.countP_cons] at hn
    cases hs : s.declared <;> simp [hs] at hn
  | cons x rest ih =>
    rw [List.foldlM_cons]
    cases hs : step merge s x with
    | none => rfl
    | some s' =>
      have hdecl := declared_of_step merge s x s' hs
      have hmerged := (step_eq_some merge s x s' hs).2
      have hflags := hf.keep merge s x rest s' hs
      -- Where both were declared and merged only one kind of use is known so far, the other is still to come.
      have hcount : 2 ≤ (s' :: rest).countP declared := by
        rw [List.countP_cons, List.countP_cons] at hn
        rw [List.countP_cons, hdecl]
        cases hsd : s.declared with
        | false =>
          rw [hsd] at hn
          simpa using hn
        | true =>
          cases hxd : x.declared with
          | false =>
            rw [hsd, hxd] at hn
            simpa using hn
          | true =>
            obtain ⟨d, hd⟩ := Option.isSome_iff_exists.mp hsd
            obtain ⟨e, he⟩ := Option.isSome_iff_exists.mp hxd
            rw [step_declared merge s x d e hd he] at hs
            obtain ⟨m, hm, -⟩ := Option.map_eq_some_iff.mp hs
            have hlater : ∃ y ∈ rest, y.known = true := by
              have hlast (p : NameState D → Bool) (hp : ∃ y ∈ s :: x :: rest, p y = true) (hsp : p s = false)
                  (hxp : p x = false) : ∃ y ∈ rest, p y = true := by
                obtain ⟨y, hy, hp⟩ := hp
                rcases List.mem_cons.mp hy with rfl | hy
                · exact absurd hp (by simp [hsp])
                rcases List.mem_cons.mp hy with rfl | hy
                · exact absurd hp (by simp [hxp])
                exact ⟨y, hy, hp⟩
              rcases hone s x d e m hm with h | h
              · rw [Bool.or_eq_false_iff] at h
                obtain ⟨y, hy, hp⟩ := hlast NameState.isInput hi h.1 h.2
                exact ⟨y, hy, by rw [known, hp]; rfl⟩
              · rw [Bool.or_eq_false_iff] at h
                obtain ⟨y, hy, hp⟩ := hlast NameState.isOutput ho h.1 h.2
                exact ⟨y, hy, by rw [known, hp, Bool.or_true]⟩
            obtain ⟨y, hy, hk⟩ := hlater
            have hyd : y.declared = true := by
              rw [declared, Option.isSome_iff_ne_none]
              intro hyd
              rw [hflags y (List.mem_cons_of_mem _ hy) hyd] at hk
              cases hk
            have hpos := List.countP_pos_iff.mpr ⟨y, hy, hyd⟩
            rw [Bool.or_self, if_pos rfl]
            omega
      have hmem (p : NameState D → Bool) (hp : p s' = (p s || p x)) (hex : ∃ y ∈ s :: x :: rest, p y = true) :
          ∃ y ∈ s' :: rest, p y = true := by
        obtain ⟨y, hy, hpy⟩ := hex
        rcases List.mem_cons.mp hy with rfl | hy
        · exact ⟨s', by simp, by rw [hp, hpy]; rfl⟩
        rcases List.mem_cons.mp hy with rfl | hy
        · exact ⟨s', by simp, by rw [hp, hpy, Bool.or_true]⟩
        exact ⟨y, by simp [hy], hpy⟩
      exact ih s' hflags (hmem NameState.isInput (by rw [hmerged]; rfl) hi)
        (hmem NameState.isOutput (by rw [hmerged]; rfl) ho) hcount

end Mixed

end NameState

end Gqlforge.SchemaMerge
