import Mathlib.Data.List.Forall2

namespace Gqlforge.RelatedLists

section

variable {α β : Type} {rel : α → β → Prop} {xs : List α} {ys : List β}

theorem exists_related (h : List.Forall₂ rel xs ys) {y : β} (hy : y ∈ ys) : ∃ x ∈ xs, rel x y := by
  induction h with
  | nil => simp at hy
  | cons hfirst _ ih =>
    rcases List.mem_cons.mp hy with rfl | hy
    · exact ⟨_, List.mem_cons_self, hfirst⟩
    · obtain ⟨x, hx, hrel⟩ := ih hy
      exact ⟨x, List.mem_cons_of_mem _ hx, hrel⟩

theorem exists_related_of_mem (h : List.Forall₂ rel xs ys) {x : α} (hx : x ∈ xs) : ∃ y ∈ ys, rel x y :=
  exists_related h.flip hx

theorem exists_forall₂ (h : ∀ x ∈ xs, ∃ y, rel x y) : ∃ ys, List.Forall₂ rel xs ys := by
  induction xs with
  | nil => exact ⟨[], .nil⟩
  | cons x rest ih =>
    rw [List.forall_mem_cons] at h
    obtain ⟨y, hy⟩ := h.1
    obtain ⟨ys, hys⟩ := ih h.2
    exact ⟨y :: ys, .cons hy hys⟩

theorem forall₂_bound (P : Nat → α → β → Prop) (h : List.Forall₂ (fun x y => ∃ n, ∀ m, n ≤ m → P m x y) xs ys) :
    ∃ n, ∀ m, n ≤ m → List.Forall₂ (P m) xs ys := by
  induction h with
  | nil => exact ⟨0, fun _ _ => .nil⟩
  | cons hfirst _ ih =>
    obtain ⟨n, hn⟩ := hfirst
    obtain ⟨k, hk⟩ := ih
    refine ⟨max n k, fun m hm => .cons (hn m ?_) (hk m ?_)⟩
    · omega
    · omega

/-- The list is gone through also where its elements form a finite type. -/
scoped instance (priority := 2000) decidableForallMem (p : α → Prop) [DecidablePred p] (xs : List α) :
    Decidable (∀ x ∈ xs, p x) :=
  List.decidableBAll p xs

end

end Gqlforge.RelatedLists
