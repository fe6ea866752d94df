import Mathlib.Data.Fintype.EquivFin
import Mathlib.Order.WellFounded

namespace Gqlforge.FuelRecursion

open Relation

section Fuel

variable {ι : Type*} (callees : ι → List ι) (run : ℕ → ι → Prop)

structure Unfolds : Prop where
  zero : ∀ i, ¬ run 0 i
  succ : ∀ n i, run (n + 1) i ↔ ∀ j ∈ callees i, run n j

variable {callees run}

theorem Unfolds.mono (h : Unfolds callees run) (n : ℕ) (i : ι) (hr : run n i) : run (n + 1) i := by
  induction n generalizing i with
  | zero => exact absurd hr (h.zero i)
  | succ n ih =>
    rw [h.succ] at hr ⊢
    intro j hj
    exact ih j (hr j hj)

theorem Unfolds.le (h : Unfolds callees run) {m n : ℕ} (i : ι) (hmn : m ≤ n) (hr : run m i) : run n i := by
  induction hmn with
  | refl => exact hr
  | step _ ih => exact h.mono _ i ih

theorem Unfolds.common (h : Unfolds callees run) (calls : List ι) (hc : ∀ j ∈ calls, ∃ n, run n j) :
    ∃ n, ∀ j ∈ calls, run n j := by
  induction calls with
  | nil => exact ⟨0, by simp⟩
  | cons i rest ih =>
    obtain ⟨m, hm⟩ := ih fun j hj => hc j (List.mem_cons_of_mem i hj)
    obtain ⟨k, hk⟩ := hc i List.mem_cons_self
    refine ⟨max m k, fun j hj => ?_⟩
    rcases List.mem_cons.mp hj with rfl | hj
    · exact h.le j (Nat.le_max_right m k) hk
    · exact h.le j (Nat.le_max_left m k) (hm j hj)

theorem Unfolds.unique {run' : ℕ → ι → Prop} (h : Unfolds callees run) (h' : Unfolds callees run') (n : ℕ)
    (i : ι) : run n i ↔ run' n i := by
  induction n generalizing i with
  | zero => exact iff_of_false (h.zero i) (h'.zero i)
  | succ n ih =>
    rw [h.succ, h'.succ]
    exact forall₂_congr fun j _ => ih j

theorem Unfolds.exists_iff_acc (h : Unfolds callees run) (i : ι) :
    (∃ n, run n i) ↔ Acc (fun j i => j ∈ callees i) i := by
  constructor
  · rintro ⟨n, hn⟩
    induction n generalizing i with
    | zero => exact absurd hn (h.zero i)
    | succ n ih => exact Acc.intro i fun j hj => ih j ((h.succ n i).mp hn j hj)
  · intro ha
    induction ha with
    | intro i _ ih =>
      obtain ⟨n, hn⟩ := h.common (callees i) ih
      exact ⟨n + 1, (h.succ n i).mpr hn⟩

end Fuel

section Heads

variable {ι κ : Type*} {r : ι → ι → Prop} {head : κ → ι} {size : ι → ℕ}

theorem not_transGen_self_of_acc (i : ι) (h : Acc r i) : ¬ TransGen r i i := by
  have ht : Acc (TransGen r) i := h.transGen
  clear h
  induction ht with
  | intro i _ ih =>
    intro hc
    exact ih i hc hc

theorem acc_of_reflTransGen (i j : ι) (h : Acc r i) (hr : ReflTransGen r j i) : Acc r j := by
  rcases reflTransGen_iff_eq_or_transGen.mp hr with rfl | ht
  · exact h
  · exact h.inv_of_transGen ht

theorem acc_of_heads (hstep : ∀ i j, r j i → (∃ k, j = head k) ∨ size j < size i) (n : ℕ) (i : ι)
    (hn : size i ≤ n) (h : ∀ k, TransGen r (head k) i → Acc r (head k)) : Acc r i := by
  induction n generalizing i with
  | zero =>
    refine Acc.intro i fun j hj => ?_
    rcases hstep i j hj with ⟨k, rfl⟩ | hs
    · exact h k (.single hj)
    · omega
  | succ n ih =>
    refine Acc.intro i fun j hj => ?_
    rcases hstep i j hj with ⟨k, rfl⟩ | hs
    · exact h k (.single hj)
    · exact ih j (by omega) fun k hk => h k (hk.tail hj)

theorem acc_iff_no_cycle [Finite κ] (hstep : ∀ i j, r j i → (∃ k, j = head k) ∨ size j < size i) (root : ι) :
    Acc r root ↔ ∀ k, ReflTransGen r (head k) root → ¬ TransGen r (head k) (head k) := by
  constructor
  · intro h k hk
    exact not_transGen_self_of_acc _ (acc_of_reflTransGen root _ h hk)
  · intro h
    let reached := { k // ReflTransGen r (head k) root }
    let below : reached → reached → Prop := fun a b => TransGen r (head a.1) (head b.1)
    have : Finite reached := Subtype.finite
    have : IsTrans reached below := ⟨fun _ _ _ hab hbc => hab.trans hbc⟩
    have : Std.Irrefl below := ⟨fun a => h a.1 a.2⟩
    have hwf : WellFounded below := Finite.wellFounded_of_trans_of_irrefl below
    have hheads : ∀ a : reached, Acc r (head a.1) := by
      intro a
      induction a using hwf.induction with
      | _ a ih =>
        refine acc_of_heads hstep _ _ le_rfl fun k hk => ?_
        exact ih ⟨k, hk.to_reflTransGen.trans a.2⟩ hk
    exact acc_of_heads hstep _ root le_rfl fun k hk => hheads ⟨k, hk.to_reflTransGen⟩

end Heads

section Iterate

variable {ι β : Type*}

def Extends (f g : ι → Option β) : Prop :=
  ∀ i b, f i = some b → g i = some b

def iterate (body : (ι → Option β) → ι → Option β) : ℕ → ι → Option β
  | 0, _ => none
  | fuel + 1, i => body (iterate body fuel) i

variable {body : (ι → Option β) → ι → Option β}

theorem iterate_succ (hb : ∀ f g, Extends f g → Extends (body f) (body g)) (fuel : ℕ) :
    Extends (iterate body fuel) (iterate body (fuel + 1)) := by
  induction fuel with
  | zero => exact nofun
  | succ fuel ih => exact hb _ _ ih

theorem iterate_le (hb : ∀ f g, Extends f g → Extends (body f) (body g)) {fuel fuel' : ℕ}
    (h : fuel ≤ fuel') : Extends (iterate body fuel) (iterate body fuel') := by
  induction h with
  | refl => exact fun _ _ hi => hi
  | step _ ih => exact fun i b hi => iterate_succ hb _ i b (ih i b hi)

theorem iterate_unique (hb : ∀ f g, Extends f g → Extends (body f) (body g)) (fuel fuel' : ℕ) (i : ι)
    (b b' : β) (h : iterate body fuel i = some b) (h' : iterate body fuel' i = some b') : b = b' := by
  have hm := iterate_le hb (Nat.le_max_left fuel fuel') i b h
  have hm' := iterate_le hb (Nat.le_max_right fuel fuel') i b' h'
  exact Option.some.inj (hm.symm.trans hm')

end Iterate

end Gqlforge.FuelRecursion
