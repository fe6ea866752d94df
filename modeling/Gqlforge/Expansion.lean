import Mathlib.Data.List.Nodup
import Mathlib.Data.List.Enum

namespace Gqlforge.Expansion

variable {S E V : Type*}

def expand (put : S → E → V → ℕ → S) : List (E × List V) → S → List S
  | [], s => [s]
  | (e, values) :: rest, s => values.zipIdx.flatMap fun (value, i) => expand put rest (put s e value i)

theorem mem_expand_cons (put : S → E → V → ℕ → S) (e : E) (values : List V) (rest : List (E × List V)) (s last : S) :
    last ∈ expand put ((e, values) :: rest) s ↔
      ∃ value i, values[i]? = some value ∧ last ∈ expand put rest (put s e value i) := by
  simp only [expand, List.mem_flatMap, Prod.exists, List.mem_zipIdx_iff_getElem?]

section Lens

variable {K X : Type*} (key : E → K) (get : S → K → X) (update : E → V → X → X)

structure Puts (put : S → E → V → ℕ → S) : Prop where
  same : ∀ s e value i, get (put s e value i) (key e) = update e value (get s (key e))
  other : ∀ s e value i k, k ≠ key e → get (put s e value i) k = get s k

def keys (items : List (E × List V)) : List K := items.map fun item => key item.1

variable {key get update} {put : S → E → V → ℕ → S}

theorem keys_cons (e : E) (values : List V) (rest : List (E × List V)) :
    keys key ((e, values) :: rest) = key e :: keys key rest := rfl

theorem ne_of_mem {e : E} {values : List V} {rest : List (E × List V)}
    (hn : (keys key ((e, values) :: rest)).Nodup) {item : E × List V} (hitem : item ∈ rest) : key item.1 ≠ key e := by
  rw [keys_cons, List.nodup_cons] at hn
  exact fun heq => hn.1 (heq ▸ List.mem_map.mpr ⟨item, hitem, rfl⟩)

theorem expand_other (hput : Puts key get update put) (items : List (E × List V)) {s last : S}
    (h : last ∈ expand put items s) {k : K} (hk : k ∉ keys key items) : get last k = get s k := by
  induction items generalizing s with
  | nil => rw [List.mem_singleton.mp h]
  | cons item rest ih =>
    obtain ⟨value, i, -, hrest⟩ := (mem_expand_cons put item.1 item.2 rest s last).mp h
    rw [keys_cons item.1 item.2, List.mem_cons, not_or] at hk
    rw [ih hrest hk.2, hput.other s item.1 value i k hk.1]

theorem expand_put (hput : Puts key get update put) (items : List (E × List V)) (hn : (keys key items).Nodup)
    {s last : S} (h : last ∈ expand put items s) {item : E × List V} (hitem : item ∈ items) :
    ∃ value ∈ item.2, get last (key item.1) = update item.1 value (get s (key item.1)) := by
  induction items generalizing s with
  | nil => cases hitem
  | cons first rest ih =>
    obtain ⟨e, values⟩ := first
    obtain ⟨value, i, hvalue, hrest⟩ := (mem_expand_cons put e values rest s last).mp h
    have hcons := List.nodup_cons.mp hn
    rcases List.mem_cons.mp hitem with rfl | hitem
    · refine ⟨value, List.mem_of_getElem? hvalue, ?_⟩
      rw [expand_other hput rest hrest hcons.1, hput.same]
    · obtain ⟨found, hfound, heq⟩ := ih hcons.2 hrest hitem
      exact ⟨found, hfound, by rw [heq, hput.other s e value i _ (ne_of_mem hn hitem)]⟩

theorem expand_exists (hput : Puts key get update put) (items : List (E × List V)) (hn : (keys key items).Nodup)
    (s : S) (pick : K → V) (hpick : ∀ item ∈ items, pick (key item.1) ∈ item.2) :
    ∃ last ∈ expand put items s, ∀ item ∈ items,
      get last (key item.1) = update item.1 (pick (key item.1)) (get s (key item.1)) := by
  induction items generalizing s with
  | nil => exact ⟨s, List.mem_singleton_self s, fun _ hitem => absurd hitem List.not_mem_nil⟩
  | cons first rest ih =>
    obtain ⟨e, values⟩ := first
    have hcons := List.nodup_cons.mp hn
    obtain ⟨i, hi, hvalue⟩ := List.getElem_of_mem (hpick (e, values) List.mem_cons_self)
    obtain ⟨last, hlast, hall⟩ := ih hcons.2 (put s e (pick (key e)) i) fun item hitem =>
      hpick item (List.mem_cons_of_mem _ hitem)
    refine ⟨last, (mem_expand_cons put e values rest s last).mpr
      ⟨pick (key e), i, List.getElem?_eq_some_iff.mpr ⟨hi, hvalue⟩, hlast⟩, List.forall_mem_cons.mpr ⟨?_, ?_⟩⟩
    · rw [expand_other hput rest hlast hcons.1, hput.same]
    · intro item hitem
      rw [hall item hitem, hput.other s e _ i _ (ne_of_mem hn hitem)]

theorem expand_unique (hput : Puts key get update put) (items : List (E × List V)) (hn : (keys key items).Nodup)
    (hvalues : ∀ item ∈ items, item.2.Nodup) {s last last' : S}
    (hupdate : ∀ item ∈ items, ∀ value value',
      update item.1 value (get s (key item.1)) = update item.1 value' (get s (key item.1)) → value = value')
    (h : last ∈ expand put items s) (h' : last' ∈ expand put items s)
    (hsame : ∀ item ∈ items, get last (key item.1) = get last' (key item.1)) : last = last' := by
  induction items generalizing s with
  | nil => rw [List.mem_singleton.mp h, List.mem_singleton.mp h']
  | cons first rest ih =>
    obtain ⟨e, values⟩ := first
    have hcons := List.nodup_cons.mp hn
    obtain ⟨value, i, hvalue, hrest⟩ := (mem_expand_cons put e values rest s last).mp h
    obtain ⟨value', i', hvalue', hrest'⟩ := (mem_expand_cons put e values rest s last').mp h'
    have heq := hsame (e, values) List.mem_cons_self
    rw [expand_other hput rest hrest hcons.1, expand_other hput rest hrest' hcons.1, hput.same, hput.same] at heq
    have hsameValue := hupdate (e, values) List.mem_cons_self value value' heq
    subst hsameValue
    have hindex : i = i' := by
      obtain ⟨hi, hv⟩ := List.getElem?_eq_some_iff.mp hvalue
      obtain ⟨hi', hv'⟩ := List.getElem?_eq_some_iff.mp hvalue'
      exact (hvalues (e, values) List.mem_cons_self).getElem_inj_iff.mp (hv.trans hv'.symm)
    subst hindex
    refine ih hcons.2 (fun item hitem => hvalues item (List.mem_cons_of_mem _ hitem)) (fun item hitem => ?_) hrest hrest'
      fun item hitem => hsame item (List.mem_cons_of_mem _ hitem)
    rw [hput.other s e value i _ (ne_of_mem hn hitem)]
    exact hupdate item (List.mem_cons_of_mem _ hitem)

end Lens

end Gqlforge.Expansion
