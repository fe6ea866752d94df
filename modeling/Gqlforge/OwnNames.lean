import Gqlforge.Dict
import Mathlib.Algebra.Order.BigOperators.Group.List
import Mathlib.Algebra.Order.Ring.Nat
import Mathlib.Data.List.Dedup

namespace Gqlforge.Dict

variable {V ι : Type}

def Holds (dict : Dict V) (wanted : List (V → Prop)) : Prop :=
  ∃ names : List String, names.Nodup ∧
    List.Forall₂ (fun name want => ∃ value, dict.get? name = some value ∧ want value) names wanted

theorem mem_keys_extend (dict : Dict V) (entries : Json.Object V) (name : String) :
    name ∈ (dict.extend entries).keys ↔ name ∈ dict.keys ∨ name ∈ entries.map Prod.fst := by
  induction entries generalizing dict with
  | nil => simp [extend]
  | cons entry rest ih =>
    have hinsert : name ∈ (dict.insert entry.1 entry.2).keys ↔ name = entry.1 ∨ name ∈ dict.keys :=
      Json.Object.mem_insertKey dict.entries entry.1 entry.2 name
    change name ∈ ((dict.insert entry.1 entry.2).extend rest).keys ↔ _
    rw [ih, hinsert, List.map_cons, List.mem_cons]
    tauto

theorem mem_keys_ofEntries (entries : Json.Object V) (name : String) :
    name ∈ (ofEntries entries).keys ↔ name ∈ entries.map Prod.fst := by
  rw [ofEntries, mem_keys_extend]
  simp [empty, keys]

theorem keys_ofEntries_perm (entries : Json.Object V) : (ofEntries entries).keys.Perm (entries.map Prod.fst).dedup := by
  refine (List.perm_ext_iff_of_nodup (ofEntries entries).nodup (List.nodup_dedup _)).mpr fun name => ?_
  rw [List.mem_dedup]
  exact mem_keys_ofEntries entries name

theorem length_ofEntries (entries : Json.Object V) :
    (ofEntries entries).entries.length = (entries.map Prod.fst).dedup.length := by
  have h := (keys_ofEntries_perm entries).length_eq
  rwa [keys, List.length_map] at h

theorem length_ofEntries_le (entries : Json.Object V) : (ofEntries entries).entries.length ≤ entries.length := by
  rw [length_ofEntries]
  exact (List.dedup_sublist _).length_le.trans_eq (List.length_map ..)

theorem length_ofEntries_iff (entries : Json.Object V) :
    (ofEntries entries).entries.length = entries.length ↔ (entries.map Prod.fst).Nodup := by
  rw [length_ofEntries, ← List.dedup_eq_self]
  constructor
  · intro h
    exact (List.dedup_sublist _).eq_of_length (h.trans (List.length_map ..).symm)
  · intro h
    rw [h, List.length_map]

theorem mem_keys_of_get? {dict : Dict V} {name : String} {value : V} (h : dict.get? name = some value) :
    name ∈ dict.keys :=
  (dict.contains_iff name).mp (by rw [contains, h]; rfl)

theorem names_subset {dict : Dict V} {names : List String} {wanted : List (V → Prop)}
    (h : List.Forall₂ (fun name want => ∃ value, dict.get? name = some value ∧ want value) names wanted) :
    names ⊆ dict.keys := by
  induction h with
  | nil => exact List.nil_subset _
  | cons hfirst _ ih =>
    obtain ⟨value, hvalue, -⟩ := hfirst
    exact List.cons_subset.mpr ⟨mem_keys_of_get? hvalue, ih⟩

theorem Holds.length_le {dict : Dict V} {wanted : List (V → Prop)} (h : dict.Holds wanted) :
    wanted.length ≤ dict.entries.length := by
  obtain ⟨names, hn, hnames⟩ := h
  have hle := (List.subperm_of_subset hn (names_subset hnames)).length_le
  rwa [hnames.length_eq, keys, List.length_map] at hle

variable (items : List ι) (name : ι → String) (value : ι → V) (want : ι → V → Prop)

theorem holds_of_nodup (hn : (items.map name).Nodup) (hwant : ∀ item ∈ items, want item (value item)) :
    (ofEntries (items.map fun item => (name item, value item))).Holds (items.map want) := by
  have hfst : (items.map fun item => (name item, value item)).map Prod.fst = items.map name := List.map_map ..
  refine ⟨items.map name, hn, ?_⟩
  rw [List.forall₂_map_left_iff, List.forall₂_map_right_iff, List.forall₂_same]
  intro item hitem
  refine ⟨value item, ?_, hwant item hitem⟩
  rw [get?_ofEntries _ (hfst ▸ hn)]
  exact (lookup_eq_some_iff _ (hfst ▸ hn) _ _).mpr (List.mem_map.mpr ⟨item, hitem, rfl⟩)

theorem nodup_of_holds (h : (ofEntries (items.map fun item => (name item, value item))).Holds (items.map want)) :
    (items.map name).Nodup := by
  have hle := h.length_le
  rw [List.length_map] at hle
  have hge := length_ofEntries_le (items.map fun item => (name item, value item))
  have hn := (length_ofEntries_iff (items.map fun item => (name item, value item))).mp (by
    rw [List.length_map] at hge ⊢
    omega)
  rwa [List.map_map] at hn

theorem holds_ofEntries_iff (hwant : ∀ item ∈ items, want item (value item)) :
    (ofEntries (items.map fun item => (name item, value item))).Holds (items.map want) ↔ (items.map name).Nodup :=
  ⟨nodup_of_holds items name value want, fun hn => holds_of_nodup items name value want hn hwant⟩

theorem eq_of_sum_le (items : List ι) {f g : ι → ℕ} (h : ∀ item ∈ items, f item ≤ g item)
    (hsum : (items.map g).sum ≤ (items.map f).sum) : ∀ item ∈ items, f item = g item := by
  induction items with
  | nil => exact fun item hitem => nomatch hitem
  | cons first rest ih =>
    have hfirst := h first List.mem_cons_self
    have hrest := List.sum_le_sum fun item hitem => h item (List.mem_cons_of_mem first hitem)
    rw [List.map_cons, List.map_cons, List.sum_cons, List.sum_cons] at hsum
    have heq : f first = g first := by omega
    intro item hitem
    rcases List.mem_cons.mp hitem with rfl | hitem
    · exact heq
    · exact ih (fun item hitem => h item (List.mem_cons_of_mem first hitem)) (by omega) item hitem

section Counted

variable (size : ι → ℕ) (weight : V → ℕ)

def weightAt (dict : Dict V) (name : String) : ℕ :=
  ((dict.get? name).map weight).getD 0

theorem weightAt_of_get? {dict : Dict V} {name : String} {value : V} (h : dict.get? name = some value) :
    weightAt weight dict name = weight value := by
  rw [weightAt, h]
  rfl

theorem sum_le_weightAt {want : ι → V → Prop} {dict : Dict V} {names : List String} {items : List ι}
    (hfound : List.Forall₂ (fun name item => ∃ value, dict.get? name = some value ∧ want item value) names items)
    (hlow : ∀ item ∈ items, ∀ found, want item found → size item ≤ weight found) :
    (items.map size).sum ≤ (names.map (weightAt weight dict)).sum := by
  induction hfound with
  | nil => exact le_rfl
  | @cons name item names items hfirst _ ih =>
    obtain ⟨value, hvalue, hwant⟩ := hfirst
    have hitem := hlow item List.mem_cons_self value hwant
    have hrest := ih fun item hitem => hlow item (List.mem_cons_of_mem _ hitem)
    rw [List.map_cons, List.map_cons, List.sum_cons, List.sum_cons, weightAt_of_get? weight hvalue]
    omega

theorem weight_of_holds (hup : ∀ item ∈ items, weight (value item) ≤ size item)
    (hlow : ∀ item ∈ items, ∀ found, want item found → size item ≤ weight found)
    (h : (ofEntries (items.map fun item => (name item, value item))).Holds (items.map want)) :
    ∀ item ∈ items, weight (value item) = size item := by
  have hn := nodup_of_holds items name value want h
  have hfst : (items.map fun item => (name item, value item)).map Prod.fst = items.map name := List.map_map ..
  have hkeys : ((items.map fun item => (name item, value item)).map Prod.fst).Nodup := hfst ▸ hn
  obtain ⟨names, hnames, hfound⟩ := h
  rw [ofEntries_eq _ hkeys] at hfound
  let weightOf := weightAt weight ⟨items.map fun item => (name item, value item), hkeys⟩
  have hweight (item : ι) (hitem : item ∈ items) : weightOf (name item) = weight (value item) := by
    refine weightAt_of_get? weight ?_
    exact (lookup_eq_some_iff _ hkeys _ _).mpr (List.mem_map.mpr ⟨item, hitem, rfl⟩)
  have hperm : names.Perm (items.map name) := by
    have hsub := names_subset hfound
    rw [keys, hfst] at hsub
    refine (List.subperm_of_subset hnames hsub).perm_of_length_le ?_
    rw [hfound.length_eq, List.length_map, List.length_map]
  refine eq_of_sum_le items hup ?_
  rw [List.forall₂_map_right_iff] at hfound
  have hle : (items.map size).sum ≤ (names.map weightOf).sum := sum_le_weightAt size weight hfound hlow
  calc (items.map size).sum ≤ (names.map weightOf).sum := hle
    _ = ((items.map name).map weightOf).sum := (hperm.map weightOf).sum_eq
    _ = (items.map fun item => weight (value item)).sum := by
      rw [List.map_map]
      exact congrArg List.sum (List.map_congr_left hweight)

end Counted

end Gqlforge.Dict
