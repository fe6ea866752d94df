import Gqlforge.FuelRecursion

namespace Gqlforge.GuardedSearch

open Relation FuelRecursion

section Visits

variable {α σ : Type*}

def visitAll (visit : α → σ → Option σ) (next : List α) (state : σ) : Option σ :=
  next.foldlM (fun state y => visit y state) state

theorem visitAll_cons (visit : α → σ → Option σ) (y : α) (rest : List α) (state : σ) :
    visitAll visit (y :: rest) state = (visit y state).bind (visitAll visit rest) := rfl

theorem visitAll_mono (visit visit' : α → σ → Option σ)
    (h : ∀ y state result, visit y state = some result → visit' y state = some result) (next : List α)
    (state result : σ) (hv : visitAll visit next state = some result) : visitAll visit' next state = some result := by
  induction next generalizing state with
  | nil => exact hv
  | cons y rest ih =>
    rw [visitAll_cons] at hv ⊢
    obtain ⟨middle, hm, hv⟩ := Option.bind_eq_some_iff.mp hv
    rw [h y state middle hm]
    exact ih middle hv

theorem visitAll_preserves (visit : α → σ → Option σ) (inv : σ → Prop) (next : List α)
    (hinv : ∀ y ∈ next, ∀ state result, inv state → visit y state = some result → inv result)
    (state result : σ) (hs : inv state) (hv : visitAll visit next state = some result) : inv result := by
  induction next generalizing state with
  | nil => exact Option.some.inj hv ▸ hs
  | cons y rest ih =>
    rw [visitAll_cons] at hv
    obtain ⟨middle, hm, hv⟩ := Option.bind_eq_some_iff.mp hv
    refine ih (fun w hw => hinv w (List.mem_cons_of_mem y hw)) middle ?_ hv
    exact hinv y List.mem_cons_self state middle hs hm

theorem visitAll_returns (visit : ℕ → α → σ → Option σ) (inv : σ → Prop)
    (hmono : ∀ {n n' : ℕ}, n ≤ n' → ∀ y state result, visit n y state = some result →
      visit n' y state = some result)
    (hinv : ∀ n y state result, inv state → visit n y state = some result → inv result) (next : List α)
    (hreturns : ∀ y ∈ next, ∀ state, inv state → ∃ n result, visit n y state = some result)
    (state : σ) (hs : inv state) : ∃ n result, visitAll (visit n) next state = some result := by
  induction next generalizing state with
  | nil => exact ⟨0, state, rfl⟩
  | cons y rest ih =>
    obtain ⟨n, middle, hm⟩ := hreturns y List.mem_cons_self state hs
    obtain ⟨n', result, hr⟩ := ih (fun w hw => hreturns w (List.mem_cons_of_mem y hw)) middle
      (hinv n y state middle hs hm)
    refine ⟨max n n', result, ?_⟩
    rw [visitAll_cons, hmono (Nat.le_max_left n n') y state middle hm]
    exact visitAll_mono _ _ (hmono (Nat.le_max_right n n')) rest middle result hr

end Visits

inductive Node (α : Type*) where
  | branch (next : List α)
  | guarded (next : List α)
  | leaf
  | missing

section Search

variable {α : Type*} (node : α → Node α) (skip : α → Bool)

def Defined (x : α) : Prop :=
  node x ≠ .missing

def Member (y x : α) : Prop :=
  ∃ next, node x = .branch next ∧ y ∈ next

def Steps (x y : α) : Prop :=
  Member node y x ∨ ∃ next, node x = .guarded next ∧ y ∈ next ∧ skip y = false

structure Explored (x : α) (seen result : Finset α) : Prop where
  grows : seen ⊆ result
  found : Defined node x → x ∈ result
  acc : Acc (Member node) x
  fresh_acc : ∀ y ∈ result, y ∈ seen ∨ Acc (Member node) y
  sound : ∀ y ∈ result, y ∈ seen ∨ Defined node y ∧ ReflTransGen (Steps node skip) x y
  closed : ∀ y ∈ result, y ∈ seen ∨ ∀ z, Steps node skip y z → Defined node z → z ∈ result

structure ExploredAll (next : List α) (seen result : Finset α) : Prop where
  grows : seen ⊆ result
  fresh_acc : ∀ y ∈ result, y ∈ seen ∨ Acc (Member node) y
  sound : ∀ y ∈ result, y ∈ seen ∨ Defined node y ∧ ∃ x ∈ next, ReflTransGen (Steps node skip) x y
  closed : ∀ y ∈ result, y ∈ seen ∨ ∀ z, Steps node skip y z → Defined node z → z ∈ result

variable {node skip}

theorem ExploredAll.nil (seen : Finset α) : ExploredAll node skip [] seen seen :=
  ⟨subset_rfl, fun _ hy => .inl hy, fun _ hy => .inl hy, fun _ hy => .inl hy⟩

theorem ExploredAll.skipped (x : α) (rest : List α) (seen result : Finset α)
    (h : ExploredAll node skip rest seen result) : ExploredAll node skip (x :: rest) seen result := by
  refine ⟨h.grows, h.fresh_acc, fun y hy => ?_, h.closed⟩
  rcases h.sound y hy with hs | ⟨hd, w, hw, hr⟩
  · exact .inl hs
  · exact .inr ⟨hd, w, List.mem_cons_of_mem x hw, hr⟩

theorem ExploredAll.cons (x : α) (rest : List α) (seen middle result : Finset α) (hx : Explored node skip x seen middle)
    (h : ExploredAll node skip rest middle result) : ExploredAll node skip (x :: rest) seen result := by
  refine ⟨hx.grows.trans h.grows, fun y hy => ?_, fun y hy => ?_, fun y hy => ?_⟩
  · rcases h.fresh_acc y hy with hm | ha
    · exact hx.fresh_acc y hm
    · exact .inr ha
  · rcases h.sound y hy with hm | ⟨hd, w, hw, hr⟩
    · rcases hx.sound y hm with hs | ⟨hd, hr⟩
      · exact .inl hs
      · exact .inr ⟨hd, x, List.mem_cons_self, hr⟩
    · exact .inr ⟨hd, w, List.mem_cons_of_mem x hw, hr⟩
  · rcases h.closed y hy with hm | hc
    · rcases hx.closed y hm with hs | hc
      · exact .inl hs
      · exact .inr fun z hz hdz => h.grows (hc z hz hdz)
    · exact .inr hc

theorem visitAll_branch (visit : α → Finset α → Option (Finset α))
    (hv : ∀ x seen result, visit x seen = some result → Explored node skip x seen result) (next : List α)
    (seen result : Finset α) (h : visitAll visit next seen = some result) :
    ExploredAll node skip next seen result ∧ ∀ x ∈ next, Acc (Member node) x ∧ (Defined node x → x ∈ result) := by
  induction next generalizing seen with
  | nil =>
    obtain rfl := Option.some.inj h
    exact ⟨.nil seen, nofun⟩
  | cons x rest ih =>
    rw [visitAll_cons] at h
    obtain ⟨middle, hm, h⟩ := Option.bind_eq_some_iff.mp h
    have hx := hv x seen middle hm
    obtain ⟨hall, hrest⟩ := ih middle h
    refine ⟨.cons x rest seen middle result hx hall, fun w hw => ?_⟩
    rcases List.mem_cons.mp hw with rfl | hw
    · exact ⟨hx.acc, fun hd => hall.grows (hx.found hd)⟩
    · exact hrest w hw

section

variable [DecidableEq α] (node skip)

def unlessSeen (visit : α → Finset α → Option (Finset α)) (y : α) (seen : Finset α) : Option (Finset α) :=
  if y ∈ seen ∨ skip y = true then some seen else visit y seen

def search : ℕ → α → Finset α → Option (Finset α)
  | 0, _, _ => none
  | fuel + 1, x, seen =>
    match node x with
    | .branch next => visitAll (search fuel) next (insert x seen)
    | .guarded next => visitAll (unlessSeen skip (search fuel)) next (insert x seen)
    | .leaf => some (insert x seen)
    | .missing => some seen

end

variable [DecidableEq α]

theorem visitAll_guarded (visit : α → Finset α → Option (Finset α))
    (hv : ∀ x seen result, visit x seen = some result → Explored node skip x seen result) (next : List α)
    (seen result : Finset α) (h : visitAll (unlessSeen skip visit) next seen = some result) :
    ExploredAll node skip (next.filter fun x => !skip x) seen result ∧
      ∀ x ∈ next, skip x = false → Defined node x → x ∈ result := by
  induction next generalizing seen with
  | nil =>
    obtain rfl := Option.some.inj h
    exact ⟨.nil seen, nofun⟩
  | cons x rest ih =>
    rw [visitAll_cons] at h
    obtain ⟨middle, hm, h⟩ := Option.bind_eq_some_iff.mp h
    obtain ⟨hall, hrest⟩ := ih middle h
    rw [unlessSeen] at hm
    split at hm
    · next hc =>
      obtain rfl := Option.some.inj hm
      constructor
      · rw [List.filter_cons]
        split
        · exact .skipped x _ _ _ hall
        · exact hall
      · intro w hw hs hd
        rcases List.mem_cons.mp hw with rfl | hw
        · rcases hc with hc | hc
          · exact hall.grows hc
          · exact absurd hs (by simp [hc])
        · exact hrest w hw hs hd
    · next hc =>
      have hs : skip x = false := by
        cases hx : skip x with
        | false => rfl
        | true => exact absurd (.inr hx) hc
      have hx := hv x seen middle hm
      constructor
      · rw [List.filter_cons_of_pos (by simp [hs])]
        exact .cons x _ seen middle result hx hall
      · intro w hw hsw hd
        rcases List.mem_cons.mp hw with rfl | hw
        · exact hall.grows (hx.found hd)
        · exact hrest w hw hsw hd

theorem ExploredAll.explored (x : α) (next : List α) (seen result : Finset α)
    (h : ExploredAll node skip next (insert x seen) result) (hd : Defined node x) (hacc : Acc (Member node) x)
    (hnext : ∀ y ∈ next, Steps node skip x y) (hfound : ∀ y, Steps node skip x y → Defined node y → y ∈ result) :
    Explored node skip x seen result := by
  have hx : x ∈ result := h.grows (Finset.mem_insert_self x seen)
  have hcases (y : α) (hy : y ∈ insert x seen) : y = x ∨ y ∈ seen := Finset.mem_insert.mp hy
  refine ⟨(Finset.subset_insert x seen).trans h.grows, fun _ => hx, hacc, fun y hy => ?_, fun y hy => ?_,
    fun y hy => ?_⟩
  · rcases h.fresh_acc y hy with hi | ha
    · rcases hcases y hi with rfl | hs
      · exact .inr hacc
      · exact .inl hs
    · exact .inr ha
  · rcases h.sound y hy with hi | ⟨hdy, w, hw, hr⟩
    · rcases hcases y hi with rfl | hs
      · exact .inr ⟨hd, .refl⟩
      · exact .inl hs
    · exact .inr ⟨hdy, .head (hnext w hw) hr⟩
  · rcases h.closed y hy with hi | hc
    · rcases hcases y hi with rfl | hs
      · exact .inr hfound
      · exact .inl hs
    · exact .inr hc

theorem search_explored (fuel : ℕ) (x : α) (seen result : Finset α)
    (h : search node skip fuel x seen = some result) : Explored node skip x seen result := by
  induction fuel generalizing x seen result with
  | zero => cases h
  | succ fuel ih =>
    have hmember {next : List α} (hn : node x = .branch next) (y : α) :
        Member node y x ↔ y ∈ next := by
      simp [Member, hn]
    rw [search] at h
    cases hn : node x with
    | branch next =>
      rw [hn] at h
      obtain ⟨hall, hnext⟩ := visitAll_branch _ ih next _ _ h
      refine hall.explored x next seen result (by simp [Defined, hn]) ?_ ?_ ?_
      · exact Acc.intro x fun y hy => (hnext y ((hmember hn y).mp hy)).1
      · intro y hy
        exact .inl ((hmember hn y).mpr hy)
      · intro y hy hd
        rcases hy with hy | ⟨_, hg, _⟩
        · exact (hnext y ((hmember hn y).mp hy)).2 hd
        · rw [hn] at hg
          cases hg
    | guarded next =>
      rw [hn] at h
      have hnone (y : α) : ¬ Member node y x := by simp [Member, hn]
      obtain ⟨hall, hnext⟩ := visitAll_guarded _ ih next _ _ h
      refine hall.explored x _ seen result (by simp [Defined, hn]) ?_ ?_ ?_
      · exact Acc.intro x fun y hy => absurd hy (hnone y)
      · intro y hy
        obtain ⟨hy, hs⟩ := List.mem_filter.mp hy
        exact .inr ⟨next, hn, hy, by simpa using hs⟩
      · intro y hy hd
        rcases hy with hy | ⟨next', hg, hy, hs⟩
        · exact absurd hy (hnone y)
        · obtain rfl := Node.guarded.inj (hn.symm.trans hg)
          exact hnext y hy hs hd
    | leaf =>
      rw [hn] at h
      obtain rfl := Option.some.inj h
      refine (ExploredAll.nil _).explored x [] seen _ (by simp [Defined, hn]) ?_ nofun ?_
      · exact Acc.intro x fun y hy => absurd hy (by simp [Member, hn])
      · exact fun y hy => absurd hy (by simp [Steps, Member, hn])
    | missing =>
      rw [hn] at h
      obtain rfl := Option.some.inj h
      refine ⟨subset_rfl, fun hd => absurd hn hd, ?_, fun _ hy => .inl hy, fun _ hy => .inl hy,
        fun _ hy => .inl hy⟩
      exact Acc.intro x fun y hy => absurd hy (by simp [Member, hn])

theorem unlessSeen_mono (visit visit' : α → Finset α → Option (Finset α))
    (h : ∀ y seen result, visit y seen = some result → visit' y seen = some result) (y : α) (seen result : Finset α)
    (hv : unlessSeen skip visit y seen = some result) : unlessSeen skip visit' y seen = some result := by
  rw [unlessSeen] at hv ⊢
  split at hv
  · next hc => rwa [if_pos hc]
  · next hc =>
    rw [if_neg hc]
    exact h y seen result hv

theorem search_succ (fuel : ℕ) (x : α) (seen result : Finset α)
    (h : search node skip fuel x seen = some result) : search node skip (fuel + 1) x seen = some result := by
  induction fuel generalizing x seen result with
  | zero => cases h
  | succ fuel ih =>
    rw [search] at h ⊢
    cases hn : node x with
    | branch next =>
      rw [hn] at h
      exact visitAll_mono _ _ ih next _ _ h
    | guarded next =>
      rw [hn] at h
      exact visitAll_mono _ _ (unlessSeen_mono _ _ ih) next _ _ h
    | leaf => rwa [hn] at h
    | missing => rwa [hn] at h

theorem search_le {fuel fuel' : ℕ} (hf : fuel ≤ fuel') (x : α) (seen result : Finset α)
    (h : search node skip fuel x seen = some result) : search node skip fuel' x seen = some result := by
  induction hf with
  | refl => exact h
  | step _ ih => exact search_succ _ x seen result ih

theorem search_returns (nodes : Finset α) (hnodes : ∀ x, Defined node x → x ∈ nodes) (m : ℕ) (x : α) (seen : Finset α)
    (hm : (nodes \ insert x seen).card ≤ m) (hacc : ∀ y, ReflTransGen (Steps node skip) x y → Acc (Member node) y) :
    ∃ fuel result, search node skip fuel x seen = some result := by
  induction m using Nat.strong_induction_on generalizing x seen with
  | _ m ihm =>
    have hx := hacc x .refl
    induction hx generalizing seen with
    | intro x _ ihx =>
      have hsize (y : α) (s : Finset α) (hs : insert x seen ⊆ s) :
          (nodes \ insert y s).card ≤ (nodes \ insert x seen).card :=
        Finset.card_le_card (Finset.sdiff_subset_sdiff subset_rfl (hs.trans (Finset.subset_insert y s)))
      cases hn : node x with
      | branch next =>
        have hall : ∀ y ∈ next, ∀ s, insert x seen ⊆ s → ∃ n result, search node skip n y s = some result := by
          intro y hy s hs
          have hstep : Member node y x := ⟨next, hn, hy⟩
          refine ihx y hstep s ((hsize y s hs).trans hm) fun z hz => ?_
          exact hacc z (.head (.inl hstep) hz)
        obtain ⟨n, result, hr⟩ := visitAll_returns (search node skip) (insert x seen ⊆ ·) search_le
          (fun n y s r hs h => hs.trans (search_explored n y s r h).grows) next hall _ subset_rfl
        exact ⟨n + 1, result, by rw [search, hn]; exact hr⟩
      | guarded next =>
        have hall : ∀ y ∈ next, ∀ s, insert x seen ⊆ s →
            ∃ n result, unlessSeen skip (search node skip n) y s = some result := by
          intro y hy s hs
          by_cases hc : y ∈ s ∨ skip y = true
          · exact ⟨0, s, if_pos hc⟩
          · simp only [unlessSeen, if_neg hc]
            rw [not_or, Bool.not_eq_true] at hc
            by_cases hd : Defined node y
            · have hfresh : y ∈ nodes \ s := Finset.mem_sdiff.mpr ⟨hnodes y hd, hc.1⟩
              have hless : (nodes \ insert y s).card < (nodes \ s).card := by
                rw [Finset.sdiff_insert]
                exact Finset.card_erase_lt_of_mem hfresh
              have hle : (nodes \ s).card ≤ (nodes \ insert x seen).card :=
                Finset.card_le_card (Finset.sdiff_subset_sdiff subset_rfl hs)
              refine ihm _ (by omega) y s le_rfl fun z hz => ?_
              exact hacc z (.head (.inr ⟨next, hn, hy, hc.2⟩) hz)
            · exact ⟨1, s, by rw [search, not_not.mp hd]⟩
        have hgrows (n : ℕ) (y : α) (s r : Finset α) (hs : insert x seen ⊆ s)
            (h : unlessSeen skip (search node skip n) y s = some r) : insert x seen ⊆ r := by
          rw [unlessSeen] at h
          split at h
          · exact Option.some.inj h ▸ hs
          · exact hs.trans (search_explored n y s r h).grows
        obtain ⟨n, result, hr⟩ := visitAll_returns (fun n => unlessSeen skip (search node skip n))
          (insert x seen ⊆ ·) (fun hle => unlessSeen_mono _ _ (search_le hle)) hgrows next hall _ subset_rfl
        exact ⟨n + 1, result, by rw [search, hn]; exact hr⟩
      | leaf => exact ⟨1, insert x seen, by rw [search, hn]⟩
      | missing => exact ⟨1, seen, by rw [search, hn]⟩

section Starts

variable (starts : List α)

def Reached (node : α → Node α) (skip : α → Bool) (starts : List α) (y : α) : Prop :=
  ∃ x ∈ starts, ReflTransGen (Steps node skip) x y

theorem searchAll_exact (fuel : ℕ) (result : Finset α) (h : visitAll (search node skip fuel) starts ∅ = some result)
    (y : α) : y ∈ result ↔ Defined node y ∧ Reached node skip starts y := by
  obtain ⟨hall, hstarts⟩ := visitAll_branch _ (search_explored fuel) starts ∅ result h
  constructor
  · intro hy
    exact (hall.sound y hy).resolve_left (Finset.notMem_empty y)
  · rintro ⟨hd, x, hx, hr⟩
    induction hr with
    | refl => exact (hstarts x hx).2 hd
    | @tail y z _ hyz ih =>
      have hdy : Defined node y := by
        rcases hyz with ⟨_, hn, _⟩ | ⟨_, hn, _⟩ <;> simp [Defined, hn]
      exact (hall.closed y (ih hdy)).resolve_left (Finset.notMem_empty y) z hyz hd

theorem searchAll_returns_iff (nodes : Finset α) (hnodes : ∀ x, Defined node x → x ∈ nodes) :
    (∃ fuel result, visitAll (search node skip fuel) starts ∅ = some result) ↔
      ∀ y, Reached node skip starts y → Acc (Member node) y := by
  constructor
  · rintro ⟨fuel, result, h⟩ y hy
    by_cases hd : Defined node y
    · have hm := (searchAll_exact starts fuel result h y).mpr ⟨hd, hy⟩
      obtain ⟨hall, -⟩ := visitAll_branch _ (search_explored fuel) starts ∅ result h
      exact (hall.fresh_acc y hm).resolve_left (Finset.notMem_empty y)
    · refine Acc.intro y fun z hz => ?_
      obtain ⟨_, hn, _⟩ := hz
      exact absurd (by simp [Defined, hn]) hd
  · intro h
    refine visitAll_returns (search node skip) (fun _ => True) search_le (fun _ _ _ _ _ _ => trivial)
      starts ?_ ∅ trivial
    intro x hx seen _
    exact search_returns nodes hnodes _ x seen le_rfl fun y hy => h y ⟨x, hx, hy⟩

theorem acc_member_iff (nodes : Finset α) (hnodes : ∀ x, Defined node x → x ∈ nodes) :
    (∀ y, Reached node skip starts y → Acc (Member node) y) ↔
      ∀ y, Reached node skip starts y → ¬ TransGen (Member node) y y := by
  constructor
  · intro h y hy
    exact not_transGen_self_of_acc y (h y hy)
  · rintro h y ⟨x, hx, hy⟩
    have hstep (a b : α) (hb : Member node b a) :
        (∃ k : nodes, b = k.1) ∨ (if b ∈ nodes then 1 else 0) < (if a ∈ nodes then 1 else 0) := by
      by_cases hbn : b ∈ nodes
      · exact .inl ⟨⟨b, hbn⟩, rfl⟩
      · have ha : a ∈ nodes := by
          obtain ⟨_, hn, _⟩ := hb
          exact hnodes a (by simp [Defined, hn])
        exact .inr (by simp [hbn, ha])
    refine (acc_iff_no_cycle hstep y).mpr fun k hk => h k.1 ⟨x, hx, hy.trans ?_⟩
    have hs : ReflTransGen (Function.swap (Member node)) y k.1 := reflTransGen_swap.mpr hk
    exact ReflTransGen.mono (fun a b hab => Or.inl hab) _ _ hs

end Starts

end Search

end Gqlforge.GuardedSearch
