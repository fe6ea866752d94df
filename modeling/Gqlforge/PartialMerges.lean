import Mathlib.Data.List.Perm.Basic
import Mathlib.Data.Option.Basic

namespace Gqlforge.PartialMerges

section Folds

variable {σ α : Type*}

/-- A step that may fail, two of which can change places, up to `r`, where `good` holds of the state and
the steps to come. -/
structure Reorders (op : σ → α → Option σ) (r : σ → σ → Prop) (good : σ → List α → Prop) : Prop where
  equiv : Equivalence r
  perm : ∀ s L L', L.Perm L' → good s L → good s L'
  keep : ∀ s x L s', good s (x :: L) → op s x = some s' → good s' L
  congr : ∀ s s' x L, r s s' → good s (x :: L) → good s' (x :: L) → Option.Rel r (op s x) (op s' x)
  swap : ∀ s x y L, good s (x :: y :: L) → Option.Rel r ((op s x).bind (op · y)) ((op s y).bind (op · x))

theorem rel_bind {r : σ → σ → Prop} {a b : Option σ} (h : Option.Rel r a b) (f g : σ → Option σ)
    (hfg : ∀ x y, a = some x → b = some y → r x y → Option.Rel r (f x) (g y)) : Option.Rel r (a.bind f) (b.bind g) := by
  cases h with
  | none => exact .none
  | some h => exact hfg _ _ rfl rfl h

theorem rel_refl {r : σ → σ → Prop} (hr : Equivalence r) (a : Option σ) : Option.Rel r a a := by
  cases a with
  | none => exact .none
  | some a => exact .some (hr.refl a)

theorem rel_trans {r : σ → σ → Prop} (hr : Equivalence r) {a b c : Option σ} (hab : Option.Rel r a b)
    (hbc : Option.Rel r b c) : Option.Rel r a c := by
  cases hab with
  | none => exact hbc
  | some hab =>
    cases hbc with
    | some hbc => exact .some (hr.trans hab hbc)

theorem rel_of_eq_some {r : σ → σ → Prop} {a b : σ} (h : Option.Rel r (some a) (some b)) : r a b := by
  cases h with
  | some h => exact h

variable {op : σ → α → Option σ} {r : σ → σ → Prop} {good : σ → List α → Prop}

theorem Reorders.foldlM_congr (h : Reorders op r good) (L : List α) (s s' : σ) (hr : r s s') (hs : good s L)
    (hs' : good s' L) : Option.Rel r (L.foldlM op s) (L.foldlM op s') := by
  induction L generalizing s s' with
  | nil => exact .some hr
  | cons x rest ih =>
    rw [List.foldlM_cons, List.foldlM_cons]
    exact rel_bind (h.congr s s' x rest hr hs hs') _ _ fun t t' ht ht' hrt =>
      ih t t' hrt (h.keep s x rest t hs ht) (h.keep s' x rest t' hs' ht')

theorem Reorders.foldlM_perm (h : Reorders op r good) (L L' : List α) (hp : L.Perm L') (s : σ) (hs : good s L) :
    Option.Rel r (L.foldlM op s) (L'.foldlM op s) := by
  induction hp generalizing s with
  | nil => exact .some (h.equiv.refl s)
  | @cons x rest rest' _ ih =>
    rw [List.foldlM_cons, List.foldlM_cons]
    exact rel_bind (rel_refl h.equiv _) _ _ fun t t' ht ht' _ => by
      obtain rfl := Option.some.inj (ht.symm.trans ht')
      exact ih t (h.keep s x rest t hs ht)
  | swap x y rest =>
    have hs' : good s (x :: y :: rest) := h.perm s _ _ (List.Perm.swap x y rest) hs
    have htwice (u v : α) (hu : good s (u :: v :: rest)) (t : σ) (ht : (op s u).bind (op · v) = some t) :
        good t rest := by
      obtain ⟨m, hm, ht⟩ := Option.bind_eq_some_iff.mp ht
      exact h.keep m v rest t (h.keep s u _ m hu hm) ht
    have hfold (u v : α) : (u :: v :: rest).foldlM op s = ((op s u).bind (op · v)).bind (rest.foldlM op) := by
      rw [List.foldlM_cons, Option.bind_assoc]
      exact Option.bind_congr fun m _ => List.foldlM_cons
    rw [hfold, hfold]
    exact rel_bind (h.swap s y x rest hs) _ _ fun t t' ht ht' hr =>
      h.foldlM_congr rest t t' hr (htwice y x hs t ht) (htwice x y hs' t' ht')
  | @trans M M' M'' hp _ ih ih' => exact rel_trans h.equiv (ih s hs) (ih' s (h.perm s M M' hp hs))

theorem Reorders.foldlM_eq (h : Reorders op (· = ·) good) (s : σ) (L L' : List α) (hp : L.Perm L')
    (hg : good s L) : L.foldlM op s = L'.foldlM op s := by
  have hr := h.foldlM_perm L L' hp s hg
  generalize L.foldlM op s = a at hr ⊢
  generalize L'.foldlM op s = b at hr ⊢
  cases hr with
  | none => rfl
  | some hr => rw [hr]

end Folds

section Combined

variable {α β K : Type*}

/-- A partial merge of two values of one type: commutative, failing on a merged value only where it fails on
one of the two, and indifferent to the order of what comes next where `good` holds. -/
structure Swaps (op : α → α → Option α) (good : α → List α → Prop) : Prop where
  comm : ∀ a b, op a b = op b a
  joint : ∀ a b c e, op a b = some e → op a c ≠ none → op b c ≠ none → op e c ≠ none
  perm : ∀ a L L', L.Perm L' → good a L → good a L'
  keep : ∀ a b e L, good a (b :: L) → op a b = some e → good e L
  swap : ∀ a b c L, good a (b :: c :: L) → (op a b).bind (op · c) = (op a c).bind (op · b)

section Pairs

def pair (op : α → α → Option α) (op' : β → β → Option β) (a b : α × β) : Option (α × β) :=
  (op a.1 b.1).bind fun e => (op' a.2 b.2).map fun e' => (e, e')

def pairGood (good : α → List α → Prop) (good' : β → List β → Prop) (a : α × β) (L : List (α × β)) : Prop :=
  good a.1 (L.map Prod.fst) ∧ good' a.2 (L.map Prod.snd)

variable (op : α → α → Option α) (op' : β → β → Option β)

theorem pair_eq_some (a b e : α × β) : pair op op' a b = some e ↔ op a.1 b.1 = some e.1 ∧ op' a.2 b.2 = some e.2 := by
  obtain ⟨e, e'⟩ := e
  simp only [pair, Option.bind_eq_some_iff, Option.map_eq_some_iff, Prod.mk.injEq]
  constructor
  · rintro ⟨_, h, _, h', rfl, rfl⟩
    exact ⟨h, h'⟩
  · rintro ⟨h, h'⟩
    exact ⟨e, h, e', h', rfl, rfl⟩

theorem pair_ne_none (a b : α × β) : pair op op' a b ≠ none ↔ op a.1 b.1 ≠ none ∧ op' a.2 b.2 ≠ none := by
  rw [pair]
  cases op a.1 b.1 <;> cases op' a.2 b.2 <;> simp

theorem Swaps.pair {op op'} {good : α → List α → Prop} {good' : β → List β → Prop} (h : Swaps op good)
    (h' : Swaps op' good') : Swaps (PartialMerges.pair op op') (pairGood good good') where
  comm a b := by
    rw [PartialMerges.pair, PartialMerges.pair, h.comm, h'.comm]
  joint a b c e he hac hbc := by
    rw [pair_eq_some] at he
    rw [pair_ne_none] at hac hbc ⊢
    exact ⟨h.joint _ _ _ _ he.1 hac.1 hbc.1, h'.joint _ _ _ _ he.2 hac.2 hbc.2⟩
  perm a L L' hp hg := ⟨h.perm _ _ _ (hp.map _) hg.1, h'.perm _ _ _ (hp.map _) hg.2⟩
  keep a b e L hg he := by
    rw [pair_eq_some] at he
    exact ⟨h.keep _ _ _ _ hg.1 he.1, h'.keep _ _ _ _ hg.2 he.2⟩
  swap a b c L hg := by
    have hbind (x y : α × β) (e : α × β) : (PartialMerges.pair op op' a x).bind (PartialMerges.pair op op' · y) = some e ↔
        (op a.1 x.1).bind (op · y.1) = some e.1 ∧ (op' a.2 x.2).bind (op' · y.2) = some e.2 := by
      simp only [Option.bind_eq_some_iff, pair_eq_some]
      constructor
      · rintro ⟨m, ⟨hm, hm'⟩, he, he'⟩
        exact ⟨⟨m.1, hm, he⟩, m.2, hm', he'⟩
      · rintro ⟨⟨m, hm, he⟩, m', hm', he'⟩
        exact ⟨(m, m'), ⟨hm, hm'⟩, he, he'⟩
    refine Option.ext fun e => ?_
    rw [hbind, hbind, h.swap _ _ _ _ hg.1, h'.swap _ _ _ _ hg.2]

end Pairs

section Each

open Classical in
noncomputable def each (op : α → α → Option α) (f g : K → α) : Option (K → α) :=
  if h : ∀ k, (op (f k) (g k)).isSome = true then some fun k => (op (f k) (g k)).get (h k) else none

def eachGood (good : α → List α → Prop) (f : K → α) (L : List (K → α)) : Prop :=
  ∀ k, good (f k) (L.map (· k))

variable (op : α → α → Option α)

theorem each_eq_some (f g e : K → α) : each op f g = some e ↔ ∀ k, op (f k) (g k) = some (e k) := by
  rw [each]
  split
  · next h =>
    rw [Option.some.injEq]
    constructor
    · rintro rfl k
      exact (Option.some_get (h k)).symm
    · intro he
      funext k
      exact Option.get_of_eq_some (h k) (he k)
  · next h =>
    refine iff_of_false nofun fun he => h fun k => ?_
    rw [he k, Option.isSome_some]

theorem each_ne_none (f g : K → α) : each op f g ≠ none ↔ ∀ k, op (f k) (g k) ≠ none := by
  rw [each]
  simp only [Option.ne_none_iff_isSome]
  split
  · next h => simp [h]
  · next h => simpa using h

theorem Swaps.each {op} {good : α → List α → Prop} (h : Swaps op good) :
    Swaps (PartialMerges.each op : (K → α) → (K → α) → Option (K → α)) (eachGood good) where
  comm f g := by
    refine Option.ext fun e => ?_
    rw [each_eq_some, each_eq_some]
    exact forall_congr' fun k => by rw [h.comm]
  joint f g i e he hfi hgi := by
    rw [each_eq_some] at he
    rw [each_ne_none] at hfi hgi ⊢
    exact fun k => h.joint _ _ _ _ (he k) (hfi k) (hgi k)
  perm f L L' hp hg k := h.perm _ _ _ (hp.map _) (hg k)
  keep f g e L hg he k := h.keep _ _ _ _ (hg k) ((each_eq_some op f g e).mp he k)
  swap f g i L hg := by
    have hbind (x y e : K → α) : (PartialMerges.each op f x).bind (PartialMerges.each op · y) = some e ↔
        ∀ k, (op (f k) (x k)).bind (op · (y k)) = some (e k) := by
      simp only [Option.bind_eq_some_iff, each_eq_some]
      constructor
      · rintro ⟨m, hm, he⟩ k
        exact ⟨m k, hm k, he k⟩
      · intro he
        choose m hm he using he
        exact ⟨m, hm, he⟩
    refine Option.ext fun e => ?_
    rw [hbind, hbind]
    exact forall_congr' fun k => by rw [h.swap _ _ _ _ (hg k)]

end Each

section Meet

def meet (op : α → α → Option α) (nullable : α → Bool) : Option α → Option α → Option (Option α)
  | some a, some b => (op a b).map some
  | some a, none => if nullable a then some none else none
  | none, some b => if nullable b then some none else none
  | none, none => some none

/-- Nothing is there any more, or no two that could not be merged may both be left out for a third that is
not there. -/
def meetGood (op : α → α → Option α) (nullable : α → Bool) (good : α → List α → Prop) :
    Option α → List (Option α) → Prop
  | none, _ => True
  | some a, L => good a (L.filterMap id) ∧
      (none ∈ L → ∀ b ∈ a :: L.filterMap id, ∀ c ∈ a :: L.filterMap id,
        nullable b = true → nullable c = true → op b c ≠ none)

variable {op : α → α → Option α} {nullable : α → Bool}

example (a : α) : meet op nullable (some a) none = if nullable a then some none else none := by
  rw [meet]

theorem meet_none_left_ne_none (c : Option α) :
    meet op nullable none c ≠ none ↔ ∀ a, c = some a → nullable a = true := by
  cases c with
  | none => simp [meet]
  | some a => cases h : nullable a <;> simp [meet, h]

theorem meet_some_none_ne_none (a : α) : meet op nullable (some a) none ≠ none ↔ nullable a = true := by
  cases h : nullable a <;> simp [meet, h]

theorem meet_some_some_ne_none (a b : α) : meet op nullable (some a) (some b) ≠ none ↔ op a b ≠ none := by
  cases h : op a b <;> simp [meet, h]

theorem meet_some_some_eq_some (a b : α) (e : Option α) :
    meet op nullable (some a) (some b) = some e ↔ ∃ m, op a b = some m ∧ some m = e := by
  rw [meet, Option.map_eq_some_iff]

theorem meet_none_left_eq_some (b e : Option α) (h : meet op nullable none b = some e) : e = none := by
  cases b with
  | none => exact (Option.some.inj h).symm
  | some b =>
    rw [meet] at h
    split at h
    · exact (Option.some.inj h).symm
    · cases h

theorem meet_comm (hcomm : ∀ a b, op a b = op b a) (a b : Option α) : meet op nullable a b = meet op nullable b a := by
  cases a <;> cases b <;> first | rfl | rw [meet, meet, hcomm]

theorem meet_none_right_eq_some (hcomm : ∀ a b, op a b = op b a) (a e : Option α)
    (h : meet op nullable a none = some e) : e = none :=
  meet_none_left_eq_some a e (by rwa [meet_comm hcomm])

variable {good : α → List α → Prop}

theorem meetGood_perm (hperm : ∀ a L L', L.Perm L' → good a L → good a L') (a : Option α) (L L' : List (Option α))
    (hp : L.Perm L') (hg : meetGood op nullable good a L) : meetGood op nullable good a L' := by
  cases a with
  | none => trivial
  | some a =>
    obtain ⟨hgood, hfree⟩ := hg
    have hpf := hp.filterMap id
    refine ⟨hperm _ _ _ hpf hgood, fun hn b hb c hc => ?_⟩
    exact hfree (hp.mem_iff.mpr hn) b ((hpf.cons a).mem_iff.mpr hb) c ((hpf.cons a).mem_iff.mpr hc)

theorem meetGood_keep (h : Swaps op good) (hnull : ∀ a b e, op a b = some e → nullable e = (nullable a && nullable b))
    (a b e : Option α) (L : List (Option α)) (hg : meetGood op nullable good a (b :: L))
    (he : meet op nullable a b = some e) : meetGood op nullable good e L := by
  cases a with
  | none =>
    obtain rfl := meet_none_left_eq_some b e he
    trivial
  | some a =>
    cases b with
    | none =>
      obtain rfl := meet_none_right_eq_some h.comm _ e he
      trivial
    | some b =>
      obtain ⟨m, hm, rfl⟩ := (meet_some_some_eq_some a b e).mp he
      obtain ⟨hgood, hfree⟩ := hg
      have hpresent : (some b :: L).filterMap id = b :: L.filterMap id := rfl
      rw [hpresent] at hgood hfree
      refine ⟨h.keep a b m _ hgood hm, fun hn => ?_⟩
      have hfree := hfree (List.mem_cons_of_mem _ hn)
      have hand := hnull a b m hm
      -- The merged value against one that is still to come, by the two it was merged from.
      have hjoint (hmn : nullable m = true) (c : α) (hc : c ∈ a :: b :: L.filterMap id) (hcn : nullable c = true) :
          op m c ≠ none := by
        rw [hand, Bool.and_eq_true] at hmn
        exact h.joint a b c m hm (hfree a List.mem_cons_self c hc hmn.1 hcn)
          (hfree b (List.mem_cons_of_mem _ List.mem_cons_self) c hc hmn.2 hcn)
      have hself (hmn : nullable m = true) : op m m ≠ none := by
        have hab := hmn
        rw [hand, Bool.and_eq_true] at hab
        refine h.joint a b m m hm ?_ ?_
        · rw [h.comm]
          exact hjoint hmn a List.mem_cons_self hab.1
        · rw [h.comm]
          exact hjoint hmn b (List.mem_cons_of_mem _ List.mem_cons_self) hab.2
      intro x hx y hy hxn hyn
      have hin (z : α) (hz : z ∈ L.filterMap id) : z ∈ a :: b :: L.filterMap id :=
        List.mem_cons_of_mem _ (List.mem_cons_of_mem _ hz)
      rcases List.mem_cons.mp hx with rfl | hx'
      · rcases List.mem_cons.mp hy with rfl | hy'
        · exact hself hxn
        · exact hjoint hxn y (hin y hy') hyn
      · rcases List.mem_cons.mp hy with rfl | hy'
        · rw [h.comm]
          exact hjoint hyn x (hin x hx') hxn
        · exact hfree x (hin x hx') y (hin y hy') hxn hyn

theorem meet_left_out (hnull : ∀ a b e, op a b = some e → nullable e = (nullable a && nullable b)) (a b : α)
    (hfree : nullable a = true → nullable b = true → op a b ≠ none) :
    (meet op nullable (some a) (some b)).bind (meet op nullable · none) =
      (meet op nullable (some a) none).bind (meet op nullable · (some b)) := by
  cases hm : op a b with
  | none =>
    cases ha : nullable a
    · simp [meet, hm, ha]
    · cases hb : nullable b
      · simp [meet, hm, ha, hb]
      · exact absurd hm (hfree ha hb)
  | some m =>
    have hand := hnull a b m hm
    cases ha : nullable a <;> cases hb : nullable b <;> simp [meet, hm, ha, hb, hand]

theorem Swaps.meet (h : Swaps op good) (hnull : ∀ a b e, op a b = some e → nullable e = (nullable a && nullable b)) :
    Swaps (PartialMerges.meet op nullable) (meetGood op nullable good) where
  comm := meet_comm h.comm
  joint a b c e he hac hbc := by
    cases a with
    | none =>
      obtain rfl := meet_none_left_eq_some b e he
      exact hac
    | some a =>
      cases b with
      | none =>
        obtain rfl := meet_none_right_eq_some h.comm _ e he
        exact hbc
      | some b =>
        obtain ⟨m, hm, rfl⟩ := (meet_some_some_eq_some a b e).mp he
        cases c with
        | none =>
          rw [meet_some_none_ne_none] at hac hbc ⊢
          rw [hnull a b m hm, hac, hbc]
          rfl
        | some c =>
          rw [meet_some_some_ne_none] at hac hbc ⊢
          exact h.joint a b c m hm hac hbc
  perm := meetGood_perm h.perm
  keep := meetGood_keep h hnull
  swap a b c L hg := by
    cases a with
    | none =>
      cases b with
      | none => cases c with
        | none => rfl
        | some c => cases hc : nullable c <;> simp [PartialMerges.meet, hc]
      | some b => cases c with
        | none => cases hb : nullable b <;> simp [PartialMerges.meet, hb]
        | some c => cases hb : nullable b <;> cases hc : nullable c <;> simp [PartialMerges.meet, hb, hc]
    | some a =>
      obtain ⟨hgood, hfree⟩ := hg
      cases b with
      | none => cases c with
        | none => rfl
        | some c =>
          refine (meet_left_out hnull a c fun ha hc => ?_).symm
          exact hfree List.mem_cons_self a List.mem_cons_self c (by simp) ha hc
      | some b => cases c with
        | none =>
          refine meet_left_out hnull a b fun ha hb => ?_
          exact hfree (List.mem_cons_of_mem _ List.mem_cons_self) a List.mem_cons_self b (by simp) ha hb
        | some c =>
          have hmap (x y : α) : (PartialMerges.meet op nullable (some a) (some x)).bind
              (PartialMerges.meet op nullable · (some y)) = ((op a x).bind (op · y)).map some := by
            cases hx : op a x <;> simp [PartialMerges.meet, hx]
          rw [hmap, hmap, h.swap a b c _ hgood]

end Meet

section Join

def join (op : α → α → Option α) : Option α → Option α → Option (Option α)
  | some a, some b => (op a b).map some
  | none, b => some b
  | a, none => some a

def joinGood (good : α → List α → Prop) : Option α → List (Option α) → Prop
  | some a, L => good a (L.filterMap id)
  | none, L => ∀ a rest, (L.filterMap id).Perm (a :: rest) → good a rest

variable {op : α → α → Option α}

theorem join_none_right (a : Option α) : join op a none = some a := by
  cases a <;> rfl

theorem join_none_left (b : Option α) : join op none b = some b := by
  cases b <;> rfl

theorem join_comm (hcomm : ∀ a b, op a b = op b a) (a b : Option α) : join op a b = join op b a := by
  cases a <;> cases b <;> first | rfl | rw [join, join, hcomm]

variable {good : α → List α → Prop}

theorem joinGood_perm (hperm : ∀ a L L', L.Perm L' → good a L → good a L')
    (a : Option α) (L L' : List (Option α)) (hp : L.Perm L') (hg : joinGood good a L) : joinGood good a L' := by
  cases a with
  | none => exact fun b rest hb => hg b rest ((hp.filterMap id).trans hb)
  | some a => exact hperm _ _ _ (hp.filterMap id) hg

theorem joinGood_keep (hkeep : ∀ a b e L, good a (b :: L) → op a b = some e → good e L) (a b e : Option α)
    (L : List (Option α)) (hg : joinGood good a (b :: L)) (he : join op a b = some e) : joinGood good e L := by
  cases b with
  | none =>
    rw [join_none_right] at he
    obtain rfl := Option.some.inj he
    cases a <;> exact hg
  | some b =>
    cases a with
    | none =>
      obtain rfl := Option.some.inj he
      exact hg b _ (.refl _)
    | some a =>
      obtain ⟨m, hm, rfl⟩ := Option.map_eq_some_iff.mp he
      exact hkeep a b m _ hg hm

theorem Swaps.join (h : Swaps op good) :
    Swaps (PartialMerges.join op) (joinGood good) where
  comm := join_comm h.comm
  joint a b c e he hac hbc := by
    cases c with
    | none =>
      rw [join_none_right]
      exact nofun
    | some c =>
      cases a with
      | none =>
        rw [join_none_left] at he
        obtain rfl := Option.some.inj he
        exact hbc
      | some a =>
        cases b with
        | none =>
          rw [join_none_right] at he
          obtain rfl := Option.some.inj he
          exact hac
        | some b =>
          obtain ⟨m, hm, rfl⟩ := Option.map_eq_some_iff.mp he
          have hsome (x : α) : PartialMerges.join op (some x) (some c) ≠ none ↔ op x c ≠ none := by
            cases hx : op x c <;> simp [PartialMerges.join, hx]
          rw [hsome] at hac hbc ⊢
          exact h.joint a b c m hm hac hbc
  perm := joinGood_perm h.perm
  keep := joinGood_keep h.keep
  swap a b c L hg := by
    cases b with
    | none =>
      rw [join_none_right, Option.bind_some]
      cases PartialMerges.join op a c with
      | none => rfl
      | some e => rw [Option.bind_some, join_none_right]
    | some b =>
      cases c with
      | none =>
        rw [join_none_right, Option.bind_some]
        cases PartialMerges.join op a (some b) with
        | none => rfl
        | some e => rw [Option.bind_some, join_none_right]
      | some c =>
        cases a with
        | none => exact join_comm h.comm (some b) (some c)
        | some a =>
          have hmap (x y : α) : (PartialMerges.join op (some a) (some x)).bind (PartialMerges.join op · (some y)) =
              ((op a x).bind (op · y)).map some := by
            cases hx : op a x <;> simp [PartialMerges.join, hx]
          rw [hmap, hmap, h.swap a b c _ hg]

end Join

end Combined

end Gqlforge.PartialMerges
