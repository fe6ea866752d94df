import Mathlib.Data.List.Induction
import Mathlib.Data.List.Perm.Subperm
import Mathlib.Order.Lattice

namespace Gqlforge

@[ext] structure SortedMap (K V : Type) [LinearOrder K] where
  entries : List (K × V)
  sorted : entries.Pairwise fun entry entry' => entry.1 < entry'.1

namespace SortedMap

variable {K V : Type} [LinearOrder K]

def valuesOf (key : K) (pairs : List (K × V)) : List V :=
  (pairs.filter fun pair => decide (pair.1 = key)).map Prod.snd

def insertEntry (key : K) (value : V) : List (K × V) → List (K × V)
  | [] => [(key, value)]
  | entry :: rest =>
    if key < entry.1 then (key, value) :: entry :: rest
    else if key = entry.1 then (key, value) :: rest
    else entry :: insertEntry key value rest

variable {entries : List (K × V)}

theorem mem_insertEntry {key : K} {value : V} {entry : K × V}
    (h : entry ∈ insertEntry key value entries) : entry = (key, value) ∨ entry ∈ entries := by
  fun_induction insertEntry key value entries <;> grind

theorem sorted_insertEntry (key : K) (value : V) (h : entries.Pairwise fun entry entry' => entry.1 < entry'.1) :
    (insertEntry key value entries).Pairwise fun entry entry' => entry.1 < entry'.1 := by
  induction entries with
  | nil => exact List.pairwise_singleton _ _
  | cons entry rest ih =>
    obtain ⟨hentry, hrest⟩ := List.pairwise_cons.mp h
    rw [insertEntry]
    split
    next hlt =>
      refine h.cons fun other hother => ?_
      rcases List.mem_cons.mp hother with rfl | hother
      · exact hlt
      · exact hlt.trans (hentry other hother)
    next hlt =>
      split
      next heq => exact hrest.cons (heq ▸ hentry)
      next hne =>
        refine (ih hrest).cons fun other hother => ?_
        rcases mem_insertEntry hother with rfl | hother
        · exact lt_of_le_of_ne (not_lt.mp hlt) (Ne.symm hne)
        · exact hentry other hother

def empty : SortedMap K V where
  entries := []
  sorted := .nil

def insert (map : SortedMap K V) (key : K) (value : V) : SortedMap K V where
  entries := insertEntry key value map.entries
  sorted := sorted_insertEntry key value map.sorted

@[simp] theorem entries_insert (map : SortedMap K V) (key : K) (value : V) :
    (map.insert key value).entries = insertEntry key value map.entries := rfl

def ofPairs (pairs : List (K × V)) : SortedMap K V :=
  pairs.foldl (fun map (key, value) => map.insert key value) empty

theorem ofPairs_concat (pairs : List (K × V)) (pair : K × V) :
    ofPairs (pairs ++ [pair]) = (ofPairs pairs).insert pair.1 pair.2 :=
  List.foldl_append

theorem insertEntry_subperm (key : K) (value : V) (entries : List (K × V)) :
    (insertEntry key value entries).Subperm ((key, value) :: entries) := by
  induction entries with
  | nil => exact .refl _
  | cons entry rest ih =>
    rw [insertEntry]
    split
    · exact .refl _
    · split
      · exact ((List.sublist_cons_self entry rest).cons_cons (key, value)).subperm
      · exact ((List.subperm_cons entry).mpr ih).trans (List.Perm.swap _ _ _).subperm

theorem ofPairs_subperm (pairs : List (K × V)) : (ofPairs pairs).entries.Subperm pairs := by
  induction pairs using List.reverseRecOn with
  | nil => exact .refl _
  | append_singleton pairs pair ih =>
    rw [ofPairs_concat]
    exact ((insertEntry_subperm _ _ _).trans ((List.subperm_cons pair).mpr ih)).trans (List.perm_append_singleton pair pairs).symm.subperm

theorem insertEntry_greatest {key : K} {value : V} (h : ∀ entry ∈ entries, entry.1 < key) :
    insertEntry key value entries = entries ++ [(key, value)] := by
  induction entries with
  | nil => rfl
  | cons entry rest ih =>
    have hlt := h entry List.mem_cons_self
    rw [insertEntry, if_neg hlt.not_gt, if_neg hlt.ne', ih fun other hother => h other (List.mem_cons_of_mem _ hother)]
    rfl

theorem entries_ofPairs {pairs : List (K × V)} (h : pairs.Pairwise fun pair pair' => pair.1 < pair'.1) :
    (ofPairs pairs).entries = pairs := by
  induction pairs using List.reverseRecOn with
  | nil => rfl
  | append_singleton pairs pair ih =>
    obtain ⟨hpairs, _, hlast⟩ := List.pairwise_append.mp h
    rw [ofPairs_concat, entries_insert, ih hpairs]
    exact insertEntry_greatest fun entry hentry => hlast entry hentry pair (List.mem_singleton_self pair)

theorem ofPairs_entries (map : SortedMap K V) : ofPairs map.entries = map :=
  SortedMap.ext (entries_ofPairs map.sorted)

theorem valuesOf_append (key : K) (pairs pairs' : List (K × V)) :
    valuesOf key (pairs ++ pairs') = valuesOf key pairs ++ valuesOf key pairs' := by
  rw [valuesOf, List.filter_append, List.map_append]
  rfl

theorem valuesOf_insertEntry (key key' : K) (value : V) (h : entries.Pairwise fun entry entry' => entry.1 < entry'.1) :
    valuesOf key' (insertEntry key value entries) = if key = key' then [value] else valuesOf key' entries := by
  have hnone {entries : List (K × V)} (h : ∀ entry ∈ entries, key < entry.1) : valuesOf key entries = [] := by
    rw [valuesOf, List.map_eq_nil_iff, List.filter_eq_nil_iff]
    exact fun entry hentry => by simpa using (h entry hentry).ne'
  induction entries with
  | nil => by_cases hkey : key = key' <;> simp [insertEntry, valuesOf, hkey]
  | cons entry rest ih =>
    obtain ⟨hentry, hrest⟩ := List.pairwise_cons.mp h
    rw [insertEntry]
    split
    next hlt =>
      have hrest' : valuesOf key (entry :: rest) = [] := by
        refine hnone fun other hother => ?_
        rcases List.mem_cons.mp hother with rfl | hother
        · exact hlt
        · exact hlt.trans (hentry other hother)
      by_cases hkey : key = key'
      · subst hkey
        rw [if_pos rfl, ← List.singleton_append, valuesOf_append, hrest']
        simp [valuesOf]
      · rw [if_neg hkey]
        simp [valuesOf, hkey]
    next hlt =>
      split
      next heq =>
        have hrest' : valuesOf key rest = [] := hnone fun other hother => heq ▸ hentry other hother
        by_cases hkey : key = key'
        · subst hkey
          rw [if_pos rfl, ← List.singleton_append, valuesOf_append, hrest']
          simp [valuesOf]
        · rw [if_neg hkey]
          simp [valuesOf, hkey, heq ▸ hkey]
      next hne =>
        rw [← List.singleton_append, valuesOf_append, ih hrest]
        by_cases hkey : key = key'
        · subst hkey
          rw [if_pos rfl, if_pos rfl]
          simp [valuesOf, Ne.symm hne]
        · rw [if_neg hkey, if_neg hkey, ← valuesOf_append]
          rfl

theorem valuesOf_ofPairs (key : K) (pairs : List (K × V)) :
    valuesOf key (ofPairs pairs).entries = (valuesOf key pairs).getLast?.toList := by
  induction pairs using List.reverseRecOn with
  | nil => rfl
  | append_singleton pairs pair ih =>
    rw [ofPairs_concat, entries_insert, valuesOf_insertEntry _ _ _ (ofPairs pairs).sorted, ih, valuesOf_append]
    by_cases hkey : pair.1 = key
    · simp [valuesOf, hkey]
    · simp [valuesOf, hkey]

end SortedMap

end Gqlforge
