import Mathlib.Data.List.Basic

namespace Gqlforge.NestedLists

inductive Nested (α : Type) where
  | item (a : α)
  | list (items : List (Nested α))

namespace Nested

section

variable {α β : Type} {m : Type → Type} [Monad m] (f : α → m β)

mutual

def mapM : Nested α → m (Nested β)
  | .item a => do
    let b ← f a
    return .item b
  | .list items => do
    let items ← mapItems items
    return .list items

def mapItems : List (Nested α) → m (List (Nested β))
  | [] => return []
  | first :: rest => do
    let first ← mapM first
    let rest ← mapItems rest
    return first :: rest

end

end

section

variable {α : Type}

mutual

def leaves : Nested α → List α
  | .item a => [a]
  | .list items => leavesAll items

def leavesAll : List (Nested α) → List α
  | [] => []
  | first :: rest => leaves first ++ leavesAll rest

end

def at' : List Nat → Nested α → Option (Nested α)
  | [], nested => some nested
  | index :: path, .list items => items[index]?.bind (at' path)
  | _ :: _, .item _ => none

end

section

variable {α β : Type} (r : α → β → Prop)

mutual

def Rel : Nested α → Nested β → Prop
  | .item a, .item b => r a b
  | .list as, .list bs => RelAll as bs
  | _, _ => False

def RelAll : List (Nested α) → List (Nested β) → Prop
  | [], [] => True
  | a :: as, b :: bs => Rel a b ∧ RelAll as bs
  | _, _ => False

end

variable {r}

theorem relAll_getElem? (as : List (Nested α)) (bs : List (Nested β)) (h : RelAll r as bs) (index : Nat)
    (a : Nested α) (ha : as[index]? = some a) : ∃ b, bs[index]? = some b ∧ Rel r a b := by
  induction as generalizing bs index with
  | nil => exact absurd ha (by simp)
  | cons first rest ih =>
    cases bs with
    | nil => exact absurd h (by simp [RelAll])
    | cons first' rest' =>
      rw [RelAll] at h
      cases index with
      | zero =>
        obtain rfl : first = a := by simpa using ha
        exact ⟨first', rfl, h.1⟩
      | succ index => exact ih rest' h.2 index ha

theorem rel_at (path : List Nat) (as : Nested α) (bs : Nested β) (h : Rel r as bs) (a : Nested α)
    (ha : as.at' path = some a) : ∃ b, bs.at' path = some b ∧ Rel r a b := by
  induction path generalizing as bs with
  | nil =>
    obtain rfl : as = a := by simpa [at'] using ha
    exact ⟨bs, rfl, h⟩
  | cons index path ih =>
    cases as with
    | item a' => exact absurd ha (by simp [at'])
    | list items =>
      cases bs with
      | item b' => exact absurd h (by simp [Rel])
      | list items' =>
        rw [Rel] at h
        simp only [at', Option.bind_eq_some_iff] at ha
        obtain ⟨next, hn, ha⟩ := ha
        obtain ⟨next', hn', hr⟩ := relAll_getElem? items items' h index next hn
        obtain ⟨b, hb, hrel⟩ := ih next next' hr ha
        exact ⟨b, by simp only [at', hn', Option.bind_some, hb], hrel⟩

theorem rel_item (a : α) (bs : Nested β) (h : Rel r (.item a) bs) : ∃ b, bs = .item b ∧ r a b := by
  cases bs with
  | item b => exact ⟨b, rfl, by simpa [Rel] using h⟩
  | list => exact absurd h (by simp [Rel])

mutual

theorem rel_trans {γ : Type} {r' : β → γ → Prop} {r'' : α → γ → Prop} (hr : ∀ a b c, r a b → r' b c → r'' a c)
    (as : Nested α) (bs : Nested β) (cs : Nested γ) (h : Rel r as bs) (h' : Rel r' bs cs) : Rel r'' as cs := by
  match as, bs, cs with
  | .item a, .item b, .item c =>
    simp only [Rel] at h h' ⊢
    exact hr a b c h h'
  | .list as, .list bs, .list cs =>
    simp only [Rel] at h h' ⊢
    exact relAll_trans hr as bs cs h h'
  | .item _, .list _, _ => simp [Rel] at h
  | .list _, .item _, _ => simp [Rel] at h
  | .item _, .item _, .list _ => simp [Rel] at h'
  | .list _, .list _, .item _ => simp [Rel] at h'

theorem relAll_trans {γ : Type} {r' : β → γ → Prop} {r'' : α → γ → Prop} (hr : ∀ a b c, r a b → r' b c → r'' a c)
    (as : List (Nested α)) (bs : List (Nested β)) (cs : List (Nested γ)) (h : RelAll r as bs)
    (h' : RelAll r' bs cs) : RelAll r'' as cs := by
  match as, bs, cs with
  | [], [], [] => trivial
  | a :: as, b :: bs, c :: cs =>
    simp only [RelAll] at h h' ⊢
    exact ⟨rel_trans hr a b c h.1 h'.1, relAll_trans hr as bs cs h.2 h'.2⟩
  | [], _ :: _, _ => simp [RelAll] at h
  | _ :: _, [], _ => simp [RelAll] at h
  | [], [], _ :: _ => simp [RelAll] at h'
  | _ :: _, _ :: _, [] => simp [RelAll] at h'

end

section

variable {σ : Type} {f : α → StateM σ β}

mutual

theorem mapM_rel (hf : ∀ a s, r a ((f a).run s).1) (as : Nested α) (s : σ) : Rel r as ((as.mapM f).run s).1 := by
  match as with
  | .item a => exact hf a s
  | .list items => exact mapItems_rel hf items s

theorem mapItems_rel (hf : ∀ a s, r a ((f a).run s).1) (items : List (Nested α)) (s : σ) :
    RelAll r items ((mapItems f items).run s).1 := by
  match items with
  | [] => trivial
  | first :: rest => exact ⟨mapM_rel hf first s, mapItems_rel hf rest ((first.mapM f).run s).2⟩

end

end

section

variable {ε : Type} {f : α → Except ε β}

mutual

theorem mapM_ok_rel (hf : ∀ a b, f a = .ok b → r a b) (as : Nested α) (bs : Nested β) (h : as.mapM f = .ok bs) :
    Rel r as bs := by
  match as with
  | .item a =>
    simp only [mapM] at h
    cases hb : f a with
    | error e => simp [hb, bind, Except.bind] at h
    | ok b =>
      simp only [hb, bind, Except.bind, pure, Except.pure, Except.ok.injEq] at h
      rw [← h]
      exact hf a b hb
  | .list items =>
    simp only [mapM] at h
    cases hb : mapItems f items with
    | error e => simp [hb, bind, Except.bind] at h
    | ok items' =>
      simp only [hb, bind, Except.bind, pure, Except.pure, Except.ok.injEq] at h
      rw [← h]
      exact mapItems_ok_rel hf items items' hb

theorem mapItems_ok_rel (hf : ∀ a b, f a = .ok b → r a b) (items : List (Nested α)) (items' : List (Nested β))
    (h : mapItems f items = .ok items') : RelAll r items items' := by
  match items with
  | [] =>
    simp only [mapItems, pure, Except.pure, Except.ok.injEq] at h
    rw [← h]
    trivial
  | first :: rest =>
    simp only [mapItems] at h
    cases hi : first.mapM f with
    | error e => simp [hi, bind, Except.bind] at h
    | ok first' =>
      cases hr : mapItems f rest with
      | error e => simp [hi, hr, bind, Except.bind] at h
      | ok rest' =>
        simp only [hi, hr, bind, Except.bind, pure, Except.pure, Except.ok.injEq] at h
        rw [← h]
        exact ⟨mapM_ok_rel hf first first' hi, mapItems_ok_rel hf rest rest' hr⟩

end

end

end

section

variable {α γ δ ε : Type} (part : α → Bool) (pick : γ → Except ε δ) (default : δ) (missing : ε)

def takeNext (a : α) : StateT (List γ) (Except ε) δ :=
  if part a then do
    match ← get with
    | result :: rest =>
      set rest
      StateT.lift (pick result)
    | [] => throw missing
  else return default

def answer {m : Type → Type} [Monad m] (g : α → m γ) (a : α) : m (Option γ) :=
  if part a then do
    let result ← g a
    return some result
  else return none

def settle : Option γ → Except ε δ
  | some result => pick result
  | none => .ok default

variable {part pick default missing}

mutual

theorem mapM_takeNext (as : Nested α) (results : Nested (Option γ)) (rest : List γ)
    (h : Rel (fun a result => result.isSome = part a) as results) :
    (as.mapM (takeNext part pick default missing)).run (results.leaves.filterMap id ++ rest) =
      (results.mapM (settle pick default)).map (·, rest) := by
  match as, results with
  | .item a, .item result =>
    simp only [Rel] at h
    simp only [mapM, leaves]
    cases result with
    | none =>
      have hp : part a = false := h.symm
      rw [takeNext, hp]
      rfl
    | some result =>
      have hp : part a = true := h.symm
      rw [takeNext, hp]
      change ((pick result).bind fun a => .ok (a, rest)).bind _ = _
      cases hr : pick result <;> simp [settle, hr] <;> rfl
  | .list items, .list results =>
    simp only [Rel] at h
    simp only [mapM, leaves]
    rw [StateT.run_bind, mapItems_takeNext items results rest h]
    cases mapItems (settle pick default) results <;> rfl
  | .item _, .list _ => simp [Rel] at h
  | .list _, .item _ => simp [Rel] at h

theorem mapItems_takeNext (as : List (Nested α)) (results : List (Nested (Option γ))) (rest : List γ)
    (h : RelAll (fun a result => result.isSome = part a) as results) :
    (mapItems (takeNext part pick default missing) as).run ((leavesAll results).filterMap id ++ rest) =
      (mapItems (settle pick default) results).map (·, rest) := by
  match as, results with
  | [], [] => rfl
  | a :: as, result :: results =>
    simp only [RelAll] at h
    simp only [mapItems, leavesAll, List.filterMap_append, List.append_assoc]
    rw [StateT.run_bind, mapM_takeNext a result _ h.1]
    cases result.mapM (settle pick default) with
    | error e => rfl
    | ok first =>
      have hrest : (mapItems (takeNext part pick default missing) as >>= fun rest => pure (first :: rest)).run
          ((leavesAll results).filterMap id ++ rest) =
            (mapItems (settle pick default) results >>= fun rest => pure (first :: rest)).map (·, rest) := by
        rw [StateT.run_bind, mapItems_takeNext as results rest h.2]
        cases mapItems (settle pick default) results <;> rfl
      exact hrest
  | [], _ :: _ => simp [RelAll] at h
  | _ :: _, [] => simp [RelAll] at h

end

section

variable {σ : Type} (g : α → StateM σ γ)

theorem mapM_append_run {β : Type} (f : α → StateM σ β) (as bs : List α) (s : σ) :
    ((as ++ bs).mapM f).run s = (((as.mapM f).run s).1 ++ ((bs.mapM f).run ((as.mapM f).run s).2).1,
      ((bs.mapM f).run ((as.mapM f).run s).2).2) := by
  rw [List.mapM_append]
  rfl

mutual

theorem leaves_mapM (as : Nested α) (s : σ) :
    ((as.leaves.filter part).mapM g).run s =
      (((as.mapM (answer part g)).run s).1.leaves.filterMap id, ((as.mapM (answer part g)).run s).2) := by
  match as with
  | .item a =>
    simp only [leaves, mapM, answer]
    by_cases hp : part a = true
    · simp only [List.filter_cons, hp, if_true, List.filter_nil, List.mapM_cons, List.mapM_nil]
      rfl
    · simp only [List.filter_cons, hp, List.filter_nil]
      rfl
  | .list items =>
    simp only [leaves, mapM]
    rw [leavesAll_mapItems items s]
    rfl

theorem leavesAll_mapItems (as : List (Nested α)) (s : σ) :
    (((leavesAll as).filter part).mapM g).run s =
      ((leavesAll ((mapItems (answer part g) as).run s).1).filterMap id,
        ((mapItems (answer part g) as).run s).2) := by
  match as with
  | [] => rfl
  | first :: rest =>
    simp only [leavesAll, mapItems, List.filter_append]
    rw [mapM_append_run, leaves_mapM first s, leavesAll_mapItems rest _]
    simp only [← List.filterMap_append]
    rfl

end

theorem collect_refill (as : Nested α) :
    (do
      let results ← (as.leaves.filter part).mapM g
      return ((as.mapM (takeNext part pick default missing)).run results).map Prod.fst : StateM σ _) =
    (do
      let results ← as.mapM (answer part g)
      return results.mapM (settle pick default)) := by
  funext s
  have hrel : Rel (fun a result => result.isSome = part a) as ((as.mapM (answer part g)).run s).1 := by
    apply mapM_rel
    intro a s
    unfold answer
    by_cases hp : part a = true
    · rw [if_pos hp, hp]
      rfl
    · rw [if_neg hp]
      exact (Bool.not_eq_true _ ▸ hp : part a = false).symm
  have htake := @mapM_takeNext _ _ _ _ part pick default missing as _ [] hrel
  rw [List.append_nil] at htake
  have hcollect := @leaves_mapM _ _ part _ g as s
  have hrun : (do
      let results ← (as.leaves.filter part).mapM g
      return ((as.mapM (takeNext part pick default missing)).run results).map Prod.fst : StateM σ _) s =
        (((as.mapM (takeNext part pick default missing)).run (((as.leaves.filter part).mapM g).run s).1).map
          Prod.fst, (((as.leaves.filter part).mapM g).run s).2) := rfl
  have hresult : (do
      let results ← as.mapM (answer part g)
      return results.mapM (settle pick default) : StateM σ _) s =
        (((as.mapM (answer part g)).run s).1.mapM (settle pick default), ((as.mapM (answer part g)).run s).2) := rfl
  rw [hrun, hcollect, htake, hresult]
  cases ((as.mapM (answer part g)).run s).1.mapM (settle pick default) <;> rfl

end

end

end Nested

end Gqlforge.NestedLists
