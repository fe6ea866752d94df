import Gqlforge.Dict
import Mathlib.Data.Finset.Max

namespace Gqlforge

open Json

variable {V W : Type}

def relabel (moves : Object String) (name : String) : String :=
  (moves.lookup name).getD name

theorem relabel_of_notMem {moves : Object String} {name : String} (h : name ∉ moves.map Prod.fst) :
    relabel moves name = name := by
  rw [relabel, (Dict.lookup_eq_none_iff moves name).mpr h, Option.getD_none]

theorem relabel_of_mem {moves : Object String} {name newName : String} (hn : (moves.map Prod.fst).Nodup)
    (h : (name, newName) ∈ moves) : relabel moves name = newName := by
  rw [relabel, (Dict.lookup_eq_some_iff moves hn name newName).mpr h, Option.getD_some]

theorem relabel_cons (name newName : String) (rest : Object String) (other : String) :
    relabel ((name, newName) :: rest) other = if other = name then newName else relabel rest other := by
  rw [relabel, List.lookup_cons]
  by_cases h : other = name
  · simp [h]
  · have hb : (other == name) = false := by simpa using h
    rw [hb, if_neg h]
    rfl

theorem relabel_eq_or (moves : Object String) (hn : (moves.map Prod.fst).Nodup) (name : String) :
    (name, relabel moves name) ∈ moves ∨ name ∉ moves.map Prod.fst ∧ relabel moves name = name := by
  by_cases h : name ∈ moves.map Prod.fst
  · obtain ⟨⟨_, newName⟩, hmem, rfl⟩ := List.mem_map.mp h
    exact .inl (relabel_of_mem hn hmem ▸ hmem)
  · exact .inr ⟨h, relabel_of_notMem h⟩

namespace Dict

def moveKey (dict : Dict V) (name newName : String) : Dict V :=
  match dict.get? name with
  | some value => (dict.without [name]).insert newName value
  | none => dict

def moveKeys (dict : Dict V) (moves : Object String) : Dict V :=
  moves.foldl (fun dict entry => dict.moveKey entry.1 entry.2) dict

theorem get?_moveKey (dict : Dict V) (name newName other : String) :
    (dict.moveKey name newName).get? other =
      if dict.contains name then
        if other = newName then dict.get? name else if other = name then none else dict.get? other
      else dict.get? other := by
  rw [moveKey, contains]
  cases h : dict.get? name with
  | none => rfl
  | some value =>
    dsimp only
    rw [get?_insert, get?_without]
    simp

theorem contains_moveKey (dict : Dict V) (name newName other : String) (h : other ≠ name)
    (hc : dict.contains other = true) : (dict.moveKey name newName).contains other = true := by
  rw [contains] at hc ⊢
  rw [get?_moveKey]
  split
  next hname =>
    split
    · exact hname
    · simpa [h] using hc
  next => exact hc

variable {name newName : String}

theorem not_contains_moveKey (dict : Dict V) {other : String} (hne : other ≠ newName)
    (hgone : other = name ∨ ¬ dict.contains other = true) : ¬ (dict.moveKey name newName).contains other = true := by
  rw [contains, get?_moveKey, if_neg hne]
  rcases hgone with rfl | hgone
  · by_cases h : dict.contains other = true
    · simp [h]
    · simpa [h, contains] using h
  · rw [contains] at hgone
    split
    · split
      · simp
      · exact hgone
    · exact hgone

theorem get?_moveKey_iff (dict : Dict V) (hfree : dict.contains newName = true → newName = name)
    (other : String) (value : V) :
    (dict.moveKey name newName).get? other = some value ↔
      ∃ old, dict.get? old = some value ∧ (if old = name then newName else old) = other := by
  rw [get?_moveKey]
  constructor
  · intro h
    split at h
    next hname =>
      split at h
      next hother => exact ⟨name, h, by rw [if_pos rfl, hother]⟩
      next hother =>
        split at h
        · cases h
        next hne => exact ⟨other, h, if_neg hne⟩
    next hname =>
      have hne : other ≠ name := by
        rintro rfl
        rw [contains, h] at hname
        exact hname rfl
      exact ⟨other, h, if_neg hne⟩
  · rintro ⟨old, hold, rfl⟩
    have hc : dict.contains old = true := by rw [contains, hold]; rfl
    by_cases h : old = name
    · subst h
      simpa [hc] using hold
    · have hne : old ≠ newName := fun heq => h (heq.trans (hfree (heq ▸ hc)))
      simp [h, hne, hold]

theorem moveKeys_cons (dict : Dict V) (entry : String × String) (rest : Object String) :
    dict.moveKeys (entry :: rest) = (dict.moveKey entry.1 entry.2).moveKeys rest := rfl

theorem contains_moveKeys (dict : Dict V) (moves : Object String) (other : String) (h : other ∉ moves.map Prod.fst)
    (hc : dict.contains other = true) : (dict.moveKeys moves).contains other = true := by
  induction moves generalizing dict with
  | nil => exact hc
  | cons entry rest ih =>
    rw [List.map_cons, List.mem_cons, not_or] at h
    exact ih _ h.2 (contains_moveKey dict entry.1 entry.2 other h.1 hc)

theorem not_contains_moveKeys (dict : Dict V) (moves : Object String) (other : String) (h : other ∉ moves.map Prod.snd)
    (hc : ¬ dict.contains other = true) : ¬ (dict.moveKeys moves).contains other = true := by
  induction moves generalizing dict with
  | nil => exact hc
  | cons entry rest ih =>
    rw [List.map_cons, List.mem_cons, not_or] at h
    exact ih _ h.2 (not_contains_moveKey dict h.1 (.inr hc))

theorem not_contains_of_moved (dict : Dict V) (moves : Object String) (hmem : (name, newName) ∈ moves)
    (h : name ∉ moves.map Prod.snd) : ¬ (dict.moveKeys moves).contains name = true := by
  induction moves generalizing dict with
  | nil => cases hmem
  | cons entry rest ih =>
    rw [List.map_cons, List.mem_cons, not_or] at h
    rcases List.mem_cons.mp hmem with rfl | hmem
    · exact not_contains_moveKeys _ rest name h.2 (not_contains_moveKey dict h.1 (.inl rfl))
    · exact ih _ hmem h.2

theorem not_contains_of_sublist (dict : Dict V) (moves : Object String) (hn : (moves.map Prod.snd).Nodup)
    {last : String} (hs : [(name, newName), (newName, last)].Sublist moves) :
    ¬ (dict.moveKeys moves).contains newName = true := by
  induction moves generalizing dict with
  | nil => cases hs
  | cons entry rest ih =>
    rw [List.map_cons, List.nodup_cons] at hn
    cases hs with
    | cons _ hs => exact ih _ hn.2 hs
    | cons_cons _ hs => exact not_contains_of_moved _ rest (hs.subset List.mem_cons_self) hn.1

def InOrder (moves : Object String) : Prop :=
  moves.Pairwise fun entry later => later.1 ≠ entry.2

instance (moves : Object String) : Decidable (InOrder moves) :=
  inferInstanceAs (Decidable (moves.Pairwise _))

theorem InOrder.stays {rest : Object String} (h : InOrder ((name, newName) :: rest)) : newName ∉ rest.map Prod.fst := by
  intro hmem
  obtain ⟨later, hlater, heq⟩ := List.mem_map.mp hmem
  exact (List.pairwise_cons.mp h).1 later hlater heq

theorem InOrder.exists_rank {moves : Object String} (h : InOrder moves) :
    ∃ rank : String → ℕ, ∀ name, relabel moves name ≠ name → rank (relabel moves name) < rank name := by
  induction moves with
  | nil => exact ⟨fun _ => 0, fun name hne => absurd rfl hne⟩
  | cons entry rest ih =>
    obtain ⟨first, newName⟩ := entry
    obtain ⟨rank, hrank⟩ := ih (List.pairwise_cons.mp h).2
    let f := relabel ((first, newName) :: rest)
    refine ⟨fun name => if f name = name then 0 else if name = first then 1 else rank name + 2, ?_⟩
    intro name hne
    change f name ≠ name at hne
    change (if f (f name) = f name then 0 else if f name = first then 1 else rank (f name) + 2) <
      if f name = name then 0 else if name = first then 1 else rank name + 2
    rw [if_neg hne]
    by_cases hfirst : name = first
    · have hfix : f (f name) = f name := by
        simp only [f, relabel_cons, if_pos hfirst, relabel_of_notMem h.stays]
        split
        next heq => exact heq ▸ rfl
        next => rfl
      rw [if_pos hfix, if_pos hfirst]
      omega
    · have hmoved : f name = relabel rest name := by
        simp only [f, relabel_cons, if_neg hfirst]
      have hlt := hrank name (hmoved ▸ hne)
      rw [← hmoved] at hlt
      rw [if_neg hfirst]
      split
      · omega
      · split <;> omega

theorem InOrder.fixed {moves : Object String} (h : InOrder moves) (names : Finset String)
    (himage : ∀ name ∈ names, ∃ old ∈ names, relabel moves old = name) : ∀ name ∈ names, relabel moves name = name := by
  obtain ⟨rank, hrank⟩ := h.exists_rank
  by_contra hmoved
  push Not at hmoved
  obtain ⟨first, hfirst, hne⟩ := hmoved
  obtain ⟨top, htop, hmax⟩ := Finset.exists_max_image (names.filter fun name => relabel moves name ≠ name) rank
    ⟨first, Finset.mem_filter.mpr ⟨hfirst, hne⟩⟩
  obtain ⟨hmem, htopne⟩ := Finset.mem_filter.mp htop
  obtain ⟨old, hold, rfl⟩ := himage top hmem
  by_cases holdne : relabel moves old = old
  · exact htopne (by rw [holdne, holdne])
  · exact absurd (hmax old (Finset.mem_filter.mpr ⟨hold, holdne⟩)) (by have := hrank old holdne; omega)

structure Apart (moves : Object String) (dict : Dict V) : Prop where
  keys : (moves.map Prod.fst).Nodup
  targets : (moves.map Prod.snd).Nodup
  free : ∀ newName ∈ moves.map Prod.snd, dict.contains newName = true → newName ∈ moves.map Prod.fst

theorem Apart.step {dict : Dict V} {name newName : String} {rest : Object String}
    (h : Apart ((name, newName) :: rest) dict) : Apart rest (dict.moveKey name newName) := by
  have hkeys := List.nodup_cons.mp h.keys
  have htargets := List.nodup_cons.mp h.targets
  refine ⟨hkeys.2, htargets.2, fun other hother hc => ?_⟩
  have hne : other ≠ newName := fun heq => htargets.1 (heq ▸ hother)
  have hold : other ≠ name ∧ dict.contains other = true := by
    by_contra hgone
    refine not_contains_moveKey dict hne ?_ hc
    by_cases heq : other = name
    · exact .inl heq
    · exact .inr fun hcontains => hgone ⟨heq, hcontains⟩
  have hmem := h.free other (List.mem_cons_of_mem _ hother) hold.2
  exact (List.mem_cons.mp hmem).resolve_left hold.1

theorem get?_moveKeys_iff (dict : Dict V) (moves : Object String) (ha : Apart moves dict) (ho : InOrder moves)
    (other : String) (value : V) :
    (dict.moveKeys moves).get? other = some value ↔
      ∃ name, dict.get? name = some value ∧ relabel moves name = other := by
  induction moves generalizing dict with
  | nil => simp [moveKeys, relabel]
  | cons entry rest ih =>
    obtain ⟨name, newName⟩ := entry
    have hrest := (List.pairwise_cons.mp ho).2
    have hstays := ho.stays
    have hfree : dict.contains newName = true → newName = name := fun hc =>
      (List.mem_cons.mp (ha.free newName List.mem_cons_self hc)).resolve_right hstays
    rw [moveKeys_cons, ih _ ha.step hrest]
    constructor
    · rintro ⟨moved, hmoved, hother⟩
      obtain ⟨old, hold, rfl⟩ := (get?_moveKey_iff dict hfree moved value).mp hmoved
      refine ⟨old, hold, ?_⟩
      rw [relabel_cons]
      split
      next h => rwa [if_pos h, relabel_of_notMem hstays] at hother
      next h => rwa [if_neg h] at hother
    · rintro ⟨old, hold, hother⟩
      refine ⟨if old = name then newName else old, (get?_moveKey_iff dict hfree _ value).mpr ⟨old, hold, rfl⟩, ?_⟩
      rw [relabel_cons] at hother
      split
      next h => rwa [if_pos h, ← relabel_of_notMem hstays] at hother
      next h => rwa [if_neg h] at hother

theorem relabel_inj {moves : Object String} {taken : String → Prop} (hkeys : (moves.map Prod.fst).Nodup)
    (htargets : (moves.map Prod.snd).Nodup)
    (hfree : ∀ newName ∈ moves.map Prod.snd, taken newName → newName ∈ moves.map Prod.fst) {name other : String}
    (hname : taken name) (hother : taken other) (h : relabel moves name = relabel moves other) : name = other := by
  have hcross : ∀ {a b : String}, taken b → (a, relabel moves a) ∈ moves → b ∉ moves.map Prod.fst →
      relabel moves a ≠ b := by
    rintro a b hb ha' hb' rfl
    exact hb' (hfree _ (List.mem_map.mpr ⟨_, ha', rfl⟩) hb)
  rcases relabel_eq_or moves hkeys name with hn | ⟨hn, hn'⟩ <;>
    rcases relabel_eq_or moves hkeys other with ho | ⟨ho, ho'⟩
  · rw [h] at hn
    exact congrArg Prod.fst (List.inj_on_of_nodup_map htargets hn ho rfl)
  · exact absurd (h.trans ho') (hcross hother hn ho)
  · exact absurd (h.symm.trans hn') (hcross hname ho hn)
  · rw [← hn', h, ho']

theorem Apart.relabel_inj {dict : Dict V} {moves : Object String} (ha : Apart moves dict) {name other : String}
    (hname : dict.contains name = true) (hother : dict.contains other = true)
    (h : relabel moves name = relabel moves other) : name = other :=
  Dict.relabel_inj ha.keys ha.targets ha.free hname hother h

theorem exists_of_forall₂ {α β : Type} {R : α → β → Prop} {items : List α} {others : List β}
    (h : List.Forall₂ R items others) {a : α} (ha : a ∈ items) : ∃ b ∈ others, R a b := by
  induction h with
  | nil => cases ha
  | cons hab _ ih =>
    rcases List.mem_cons.mp ha with rfl | ha
    · exact ⟨_, List.mem_cons_self, hab⟩
    · obtain ⟨b, hb, hR⟩ := ih ha
      exact ⟨b, List.mem_cons_of_mem _ hb, hR⟩

/-- The entries of `dict'` are those of `dict`, each under its new name and with the value that `R` gives it. -/
def Renamed (f : String → String) (R : V → W → Prop) (dict : Dict V) (dict' : Dict W) : Prop :=
  ∃ entries, entries.Perm dict'.entries ∧
    List.Forall₂ (fun entry entry' => entry'.1 = f entry.1 ∧ R entry.2 entry'.2) dict.entries entries

theorem renamed_moveKeys (dict : Dict V) (moves : Object String) (ha : Apart moves dict) (ho : InOrder moves) :
    Renamed (relabel moves) (fun value value' => value' = value) dict (dict.moveKeys moves) := by
  refine ⟨dict.entries.map fun entry => (relabel moves entry.1, entry.2), ?_, ?_⟩
  · have hkeys : ((dict.entries.map fun entry => (relabel moves entry.1, entry.2)).map Prod.fst).Nodup := by
      rw [List.map_map]
      refine (List.Nodup.of_map _ dict.nodup).map_on fun entry he entry' he' heq => ?_
      have hname := ha.relabel_inj ((dict.contains_iff _).mpr (List.mem_map.mpr ⟨entry, he, rfl⟩))
        ((dict.contains_iff _).mpr (List.mem_map.mpr ⟨entry', he', rfl⟩)) heq
      exact List.inj_on_of_nodup_map dict.nodup he he' hname
    refine (List.perm_ext_iff_of_nodup (List.Nodup.of_map _ hkeys) (List.Nodup.of_map _ (dict.moveKeys moves).nodup)).mpr ?_
    rintro ⟨other, value⟩
    rw [← get?_eq_some_iff, get?_moveKeys_iff dict moves ha ho]
    simp [get?_eq_some_iff, and_comm]
  · rw [List.forall₂_map_right_iff]
    exact List.forall₂_same.mpr fun _ _ => ⟨rfl, rfl⟩

namespace Renamed

variable {f : String → String} {R : V → W → Prop} {dict : Dict V} {dict' : Dict W}

theorem length (h : Renamed f R dict dict') : dict'.entries.length = dict.entries.length := by
  obtain ⟨entries, hperm, hall⟩ := h
  rw [← hperm.length_eq, hall.length_eq]

theorem get? (h : Renamed f R dict dict') {name : String} {value : V} (hv : dict.get? name = some value) :
    ∃ value', dict'.get? (f name) = some value' ∧ R value value' := by
  obtain ⟨entries, hperm, hall⟩ := h
  obtain ⟨entry', hentry', hkey, hR⟩ := exists_of_forall₂ hall ((dict.get?_eq_some_iff name value).mp hv)
  refine ⟨entry'.2, (dict'.get?_eq_some_iff _ _).mpr ?_, hR⟩
  rw [← hkey]
  exact hperm.mem_iff.mp hentry'

theorem contains (h : Renamed f R dict dict') {name : String} (hc : dict.contains name = true) :
    dict'.contains (f name) = true := by
  obtain ⟨value, hv⟩ := Option.isSome_iff_exists.mp hc
  obtain ⟨value', hv', -⟩ := h.get? hv
  rw [Dict.contains, hv']
  rfl

theorem map {X : Type} {S : V → X → Prop} (h : Renamed f R dict dict') (g : W → X)
    (hg : ∀ value ∈ dict.values, ∀ value', R value value' → S value (g value')) :
    Renamed f S dict (dict'.map fun _ => g) := by
  obtain ⟨entries, hperm, hall⟩ := h
  refine ⟨entries.map fun entry => (entry.1, g entry.2), hperm.map _, ?_⟩
  rw [List.forall₂_map_right_iff]
  have hmem := (List.forall₂_and_left (p := (· ∈ dict.entries)) dict.entries entries).mpr ⟨fun _ he => he, hall⟩
  exact hmem.imp fun entry entry' h => ⟨h.2.1, hg entry.2 (List.mem_map.mpr ⟨entry, h.1, rfl⟩) entry'.2 h.2.2⟩

end Renamed

theorem contains_map (dict : Dict V) (g : String → V → W) (name : String) :
    (dict.map g).contains name = dict.contains name := by
  rw [Bool.eq_iff_iff, contains_iff, contains_iff, keys, keys, map, List.map_map]
  rfl

theorem renamed_map {R : V → W → Prop} (dict : Dict V) (g : V → W) (hg : ∀ value ∈ dict.values, R value (g value)) :
    Renamed id R dict (dict.map fun _ => g) := by
  refine ⟨_, .refl _, ?_⟩
  rw [map, List.forall₂_map_right_iff]
  exact List.forall₂_same.mpr fun entry he => ⟨rfl, hg entry.2 (List.mem_map.mpr ⟨entry, he, rfl⟩)⟩

theorem Renamed.iff_of_graph {f : String → String} {g : V → W} {dict : Dict V} {dict' : Dict W}
    (h : Renamed f (fun value value' => value' = g value) dict dict') (R : V → W → Prop) :
    Renamed f R dict dict' ↔ ∀ value ∈ dict.values, R value (g value) := by
  constructor
  · intro hR value hvalue
    obtain ⟨name, hname⟩ := (dict.mem_values_iff value).mp hvalue
    obtain ⟨value', hv, rfl⟩ := h.get? hname
    obtain ⟨other, ho, hother⟩ := hR.get? hname
    rw [hv] at ho
    cases ho
    exact hother
  · intro hg
    have hmap := h.map id fun value hvalue value' heq => (heq ▸ hg value hvalue : R value value')
    have hid : (dict'.map fun _ => id) = dict' := (map_eq_self_iff dict' _).mpr fun _ _ => rfl
    rwa [hid] at hmap

end Dict

end Gqlforge
