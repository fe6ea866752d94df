import Mathlib.Data.Finset.Card

namespace Gqlforge.WorklistSearch

open Relation

structure Graph (α : Type*) where
  next : α → Option (List α)
  nodes : Finset α
  mem_nodes : ∀ x, (next x).isSome = true → x ∈ nodes

namespace Graph

variable {α : Type*} (graph : Graph α)

def Known (x : α) : Prop :=
  (graph.next x).isSome = true

def Step (x y : α) : Prop :=
  ∃ next, graph.next x = some next ∧ y ∈ next

theorem Step.known {graph : Graph α} {x y : α} (h : graph.Step x y) : graph.Known x := by
  obtain ⟨next, hnext, -⟩ := h
  rw [Known, hnext, Option.isSome_some]

variable [DecidableEq α]

theorem card_insert_lt {x : α} {seen : Finset α} (hseen : x ∉ seen) (hx : x ∈ graph.nodes) :
    (graph.nodes \ insert x seen).card < (graph.nodes \ seen).card := by
  rw [Finset.sdiff_insert]
  exact Finset.card_erase_lt_of_mem (Finset.mem_sdiff.mpr ⟨hx, hseen⟩)

def search (seen : Finset α) : List α → Finset α
  | [] => seen
  | x :: stack =>
    if _hseen : x ∈ seen then search seen stack
    else match _hnext : graph.next x with
      | some next => search (insert x seen) (next.reverse ++ stack)
      | none => search seen stack
termination_by stack => ((graph.nodes \ seen).card, stack.length)
decreasing_by
  · exact Prod.Lex.right _ (Nat.lt_succ_self _)
  · exact Prod.Lex.left _ _ (graph.card_insert_lt _hseen (graph.mem_nodes x (by rw [_hnext, Option.isSome_some])))
  · exact Prod.Lex.right _ (Nat.lt_succ_self _)

variable {graph}

def Closed (graph : Graph α) (seen : Finset α) (stack : List α) : Prop :=
  ∀ x ∈ seen, ∀ y, graph.Step x y → graph.Known y → y ∈ seen ∨ y ∈ stack

structure Found (graph : Graph α) (seen : Finset α) (stack : List α) (result : Finset α) : Prop where
  grows : seen ⊆ result
  sound : ∀ y ∈ result, y ∈ seen ∨ graph.Known y ∧ ∃ x ∈ stack, ReflTransGen graph.Step x y
  stacked : ∀ x ∈ stack, graph.Known x → x ∈ result
  closed : Closed graph seen stack → Closed graph result []

omit [DecidableEq α] in
theorem Found.skip {seen result : Finset α} {stack : List α} {x : α} (h : Found graph seen stack result)
    (hx : graph.Known x → x ∈ seen) : Found graph seen (x :: stack) result := by
  refine ⟨h.grows, fun y hy => ?_, fun y hy hknown => ?_, fun hclosed => h.closed fun a ha b hab hb => ?_⟩
  · rcases h.sound y hy with h | ⟨hknown, a, ha, hreach⟩
    · exact .inl h
    · exact .inr ⟨hknown, a, List.mem_cons_of_mem x ha, hreach⟩
  · rcases List.mem_cons.mp hy with rfl | hy
    · exact h.grows (hx hknown)
    · exact h.stacked y hy hknown
  · rcases hclosed a ha b hab hb with h | h
    · exact .inl h
    · rcases List.mem_cons.mp h with rfl | h
      · exact .inl (hx hb)
      · exact .inr h

theorem search_found (seen : Finset α) (stack : List α) : Found graph seen stack (graph.search seen stack) := by
  fun_induction graph.search seen stack with
  | case1 seen =>
    exact ⟨subset_rfl, fun y hy => .inl hy, nofun, id⟩
  | case2 seen x stack hseen ih => exact ih.skip fun _ => hseen
  | case3 seen x stack hseen next hnext ih =>
    rw [List.unattach_reverse, List.unattach_attach] at ih
    have hx : graph.Known x := by rw [Known, hnext, Option.isSome_some]
    refine ⟨(Finset.subset_insert x seen).trans ih.grows, fun y hy => ?_, fun y hy hknown => ?_,
      fun hclosed => ih.closed fun a ha b hab hb => ?_⟩
    · rcases ih.sound y hy with h | ⟨hknown, a, ha, hreach⟩
      · rcases Finset.mem_insert.mp h with rfl | h
        · exact .inr ⟨hx, y, List.mem_cons_self, .refl⟩
        · exact .inl h
      · rcases List.mem_append.mp ha with ha | ha
        · exact .inr ⟨hknown, x, List.mem_cons_self, .head ⟨next, hnext, List.mem_reverse.mp ha⟩ hreach⟩
        · exact .inr ⟨hknown, a, List.mem_cons_of_mem x ha, hreach⟩
    · rcases List.mem_cons.mp hy with rfl | hy
      · exact ih.grows (Finset.mem_insert_self _ seen)
      · exact ih.stacked y (List.mem_append_right _ hy) hknown
    · rcases Finset.mem_insert.mp ha with rfl | ha
      · obtain ⟨next', hnext', hmem⟩ := hab
        obtain rfl := Option.some.inj (hnext.symm.trans hnext')
        exact .inr (List.mem_append_left _ (List.mem_reverse.mpr hmem))
      · rcases hclosed a ha b hab hb with h | h
        · exact .inl (Finset.mem_insert_of_mem h)
        · rcases List.mem_cons.mp h with rfl | h
          · exact .inl (Finset.mem_insert_self _ seen)
          · exact .inr (List.mem_append_right _ h)
  | case4 seen x stack hseen hnext ih => exact ih.skip fun hx => by simp [Known, hnext] at hx

theorem mem_search_iff (starts : List α) (y : α) :
    y ∈ graph.search ∅ starts ↔ graph.Known y ∧ ∃ x ∈ starts, ReflTransGen graph.Step x y := by
  have hfound : Found graph ∅ starts (graph.search ∅ starts) := search_found ∅ starts
  constructor
  · exact fun hy => (hfound.sound y hy).resolve_left (Finset.notMem_empty y)
  · rintro ⟨hknown, x, hx, hreach⟩
    have hclosed := hfound.closed fun a ha => absurd ha (Finset.notMem_empty a)
    induction hreach with
    | refl => exact hfound.stacked x hx hknown
    | @tail b c _ hstep ih =>
      exact (hclosed b (ih hstep.known) c hstep hknown).resolve_right List.not_mem_nil

end Graph

end Gqlforge.WorklistSearch
