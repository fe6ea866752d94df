import Gqlforge.Json

namespace Gqlforge

open Json

structure Dict (V : Type) where
  entries : Object V
  nodup : (entries.map Prod.fst).Nodup

namespace Dict

variable {V : Type}

def empty : Dict V := ⟨[], List.nodup_nil⟩

def get? (dict : Dict V) (name : String) : Option V :=
  dict.entries.getKey name

def contains (dict : Dict V) (name : String) : Bool :=
  (dict.get? name).isSome

def keys (dict : Dict V) : List String :=
  dict.entries.map Prod.fst

def values (dict : Dict V) : List V :=
  dict.entries.map Prod.snd

def insert (dict : Dict V) (name : String) (value : V) : Dict V :=
  ⟨dict.entries.insertKey name value, Object.nodup_insertKey dict.entries name value dict.nodup⟩

@[simp]
theorem get?_empty (name : String) : (empty : Dict V).get? name = none := rfl

theorem get?_insert (dict : Dict V) (name : String) (value : V) (other : String) :
    (dict.insert name value).get? other = if other = name then some value else dict.get? other := by
  split
  · next h =>
    subst h
    exact Object.getKey_insertKey dict.entries other value
  · next h => exact Object.getKey_insertKey_of_ne dict.entries name other value h

theorem lookup_eq_some_iff (entries : Object V) (hn : (entries.map Prod.fst).Nodup) (name : String) (value : V) :
    entries.lookup name = some value ↔ (name, value) ∈ entries := by
  induction entries with
  | nil => simp
  | cons entry rest ih =>
    obtain ⟨key, stored⟩ := entry
    rw [List.map_cons, List.nodup_cons] at hn
    rw [List.lookup_cons, List.mem_cons, Prod.mk.injEq]
    by_cases h : name = key
    · subst h
      have hfresh : (name, value) ∉ rest := fun hm => hn.1 (List.mem_map.mpr ⟨_, hm, rfl⟩)
      simp [hfresh, eq_comm]
    · have hb : (name == key) = false := by simpa using h
      simp [hb, h, ih hn.2]

theorem get?_eq_some_iff (dict : Dict V) (name : String) (value : V) :
    dict.get? name = some value ↔ (name, value) ∈ dict.entries :=
  lookup_eq_some_iff dict.entries dict.nodup name value

theorem contains_iff (dict : Dict V) (name : String) : dict.contains name = true ↔ name ∈ dict.keys := by
  rw [contains, Option.isSome_iff_exists, keys, List.mem_map]
  constructor
  · rintro ⟨value, h⟩
    exact ⟨(name, value), (dict.get?_eq_some_iff name value).mp h, rfl⟩
  · rintro ⟨⟨_, value⟩, h, rfl⟩
    exact ⟨value, (dict.get?_eq_some_iff _ value).mpr h⟩

theorem mem_values_iff (dict : Dict V) (value : V) : value ∈ dict.values ↔ ∃ name, dict.get? name = some value := by
  simp [values, get?_eq_some_iff]

def extend (dict : Dict V) (entries : Object V) : Dict V :=
  entries.foldl (fun dict entry => dict.insert entry.1 entry.2) dict

def ofEntries (entries : Object V) : Dict V :=
  empty.extend entries

def without (dict : Dict V) (names : List String) : Dict V :=
  ⟨dict.entries.filter fun entry => entry.1 ∉ names,
    dict.nodup.sublist (List.filter_sublist.map Prod.fst)⟩

def mergeRight (merge : V → V → V) (dict other : Dict V) : Dict V :=
  other.entries.foldl
    (fun dict entry =>
      dict.insert entry.1 (match dict.get? entry.1 with
        | some value => merge value entry.2
        | none => entry.2)) dict

theorem lookup_eq_none_iff (entries : Object V) (name : String) :
    entries.lookup name = none ↔ name ∉ entries.map Prod.fst := by
  induction entries with
  | nil => simp
  | cons entry rest ih =>
    obtain ⟨key, value⟩ := entry
    rw [List.lookup_cons, List.map_cons, List.mem_cons, not_or]
    by_cases h : name = key
    · simp [h]
    · have hb : (name == key) = false := by simpa using h
      simp [hb, h, ih]

theorem get?_eq_none_iff (dict : Dict V) (name : String) : dict.get? name = none ↔ name ∉ dict.keys :=
  lookup_eq_none_iff dict.entries name

theorem get?_extend (dict : Dict V) (entries : Object V) (hn : (entries.map Prod.fst).Nodup) (name : String) :
    (dict.extend entries).get? name = (entries.lookup name).or (dict.get? name) := by
  induction entries generalizing dict with
  | nil => rfl
  | cons entry rest ih =>
    obtain ⟨key, value⟩ := entry
    rw [List.map_cons, List.nodup_cons] at hn
    rw [extend, List.foldl_cons]
    change ((dict.insert key value).extend rest).get? name = _
    rw [ih _ hn.2, get?_insert, List.lookup_cons]
    by_cases h : name = key
    · subst h
      rw [(lookup_eq_none_iff rest name).mpr hn.1]
      simp
    · have hb : (name == key) = false := by simpa using h
      rw [if_neg h, hb]

theorem get?_ofEntries (entries : Object V) (hn : (entries.map Prod.fst).Nodup) (name : String) :
    (ofEntries entries).get? name = entries.lookup name := by
  rw [ofEntries, get?_extend _ _ hn, get?_empty, Option.or_none]

theorem get?_without (dict : Dict V) (names : List String) (name : String) :
    (dict.without names).get? name = if name ∈ names then none else dict.get? name := by
  split
  · next h =>
    rw [get?_eq_none_iff, keys, without]
    simp [h]
  · next h =>
    refine Option.ext fun value => ?_
    simp [get?_eq_some_iff, without, h]

theorem get?_mergeRight (merge : V → V → V) (dict other : Dict V) (name : String) :
    (dict.mergeRight merge other).get? name =
      match dict.get? name, other.get? name with
      | some value, some otherValue => some (merge value otherValue)
      | none, otherValue => otherValue
      | value, none => value := by
  obtain ⟨entries, hn⟩ := other
  induction entries generalizing dict with
  | nil =>
    have hnone : (⟨[], hn⟩ : Dict V).get? name = none := rfl
    rw [hnone]
    change dict.get? name = _
    cases dict.get? name <;> rfl
  | cons entry rest ih =>
    obtain ⟨key, otherValue⟩ := entry
    rw [List.map_cons, List.nodup_cons] at hn
    have hrest := ih (dict.insert key (match dict.get? key with
      | some value => merge value otherValue
      | none => otherValue)) hn.2
    change ((dict.insert key _).mergeRight merge ⟨rest, hn.2⟩).get? name = _
    rw [hrest, get?_insert]
    have hcons : (⟨(key, otherValue) :: rest, List.nodup_cons.mpr hn⟩ : Dict V).get? name =
        if name = key then some otherValue else (⟨rest, hn.2⟩ : Dict V).get? name := by
      by_cases h : name = key
      · subst h
        simp [get?, Object.getKey]
      · have hb : (name == key) = false := by simpa using h
        simp [get?, Object.getKey, List.lookup_cons, hb, h]
    have hfresh : (⟨rest, hn.2⟩ : Dict V).get? key = none := (get?_eq_none_iff _ key).mpr hn.1
    rw [hcons]
    by_cases h : name = key
    · subst h
      rw [hfresh]
      cases dict.get? name <;> simp
    · simp [h]

def map {W : Type} (dict : Dict V) (f : String → V → W) : Dict W :=
  ⟨dict.entries.map fun entry => (entry.1, f entry.1 entry.2), by simpa [Function.comp_def] using dict.nodup⟩

theorem get?_map {W : Type} (dict : Dict V) (f : String → V → W) (name : String) :
    (dict.map f).get? name = (dict.get? name).map (f name) := by
  refine Option.ext fun value => ?_
  rw [get?_eq_some_iff, map, List.mem_map, Option.map_eq_some_iff]
  constructor
  · rintro ⟨⟨_, old⟩, hmem, heq⟩
    cases heq
    exact ⟨old, (dict.get?_eq_some_iff _ _).mpr hmem, rfl⟩
  · rintro ⟨old, hold, rfl⟩
    exact ⟨(name, old), (dict.get?_eq_some_iff _ _).mp hold, rfl⟩

theorem keys_insert_of_mem (dict : Dict V) {name : String} (h : name ∈ dict.keys) (value : V) :
    (dict.insert name value).keys = dict.keys := by
  have hkeys : ∀ entries : Object V, name ∈ entries.map Prod.fst →
      (entries.insertKey name value).map Prod.fst = entries.map Prod.fst := by
    intro entries hmem
    induction entries with
    | nil => cases hmem
    | cons entry rest ih =>
      obtain ⟨key, stored⟩ := entry
      rw [Object.insertKey]
      split
      · rfl
      next hne =>
        rw [List.map_cons, List.map_cons, ih ((List.mem_cons.mp hmem).resolve_left (Ne.symm hne))]
  exact hkeys dict.entries h

theorem eq_of_get? {dict dict' : Dict V} (hkeys : dict.keys = dict'.keys)
    (hget : ∀ name, dict.get? name = dict'.get? name) : dict = dict' := by
  obtain ⟨entries, hn⟩ := dict
  obtain ⟨entries', hn'⟩ := dict'
  have hentries : entries = entries' := by
    have hmap (dict : Dict V) : dict.entries.map some =
        dict.keys.map fun name => (dict.get? name).map (name, ·) := by
      rw [keys, List.map_map]
      apply List.map_congr_left
      intro entry hentry
      simp [(dict.get?_eq_some_iff entry.1 entry.2).mpr hentry]
    have hsome : entries.map some = entries'.map some := by
      rw [hmap ⟨entries, hn⟩, hmap ⟨entries', hn'⟩, hkeys]
      simp only [hget]
    exact List.map_injective_iff.mpr (fun _ _ => Option.some.inj) hsome
  subst hentries
  rfl

theorem insert_self {dict : Dict V} {name : String} {value : V} (h : dict.get? name = some value) :
    dict.insert name value = dict := by
  have hmem : name ∈ dict.keys := List.mem_map_of_mem ((dict.get?_eq_some_iff name value).mp h)
  apply eq_of_get? (keys_insert_of_mem dict hmem value)
  intro other
  rw [get?_insert]
  split
  next he => rw [he, h]
  next => rfl

theorem insertKey_of_fresh (entries : Object V) (name : String) (value : V) (h : name ∉ entries.map Prod.fst) :
    entries.insertKey name value = entries ++ [(name, value)] := by
  induction entries with
  | nil => rfl
  | cons entry rest ih =>
    rw [List.map_cons, List.mem_cons, not_or] at h
    rw [Object.insertKey, if_neg (Ne.symm h.1), ih h.2, List.cons_append]

theorem extend_entries (dict : Dict V) (entries : Object V) (hn : ((dict.entries ++ entries).map Prod.fst).Nodup) :
    (dict.extend entries).entries = dict.entries ++ entries := by
  induction entries generalizing dict with
  | nil => exact (List.append_nil _).symm
  | cons entry rest ih =>
    have hfresh : entry.1 ∉ dict.entries.map Prod.fst := by
      rw [List.map_append, List.nodup_append] at hn
      exact fun hm => hn.2.2 entry.1 hm entry.1 (by simp) rfl
    have hinsert : (dict.insert entry.1 entry.2).entries = dict.entries ++ [entry] :=
      insertKey_of_fresh dict.entries entry.1 entry.2 hfresh
    have happend : dict.entries ++ [entry] ++ rest = dict.entries ++ entry :: rest := by simp
    change ((dict.insert entry.1 entry.2).extend rest).entries = _
    rw [ih (dict.insert entry.1 entry.2) (by rw [hinsert, happend]; exact hn), hinsert, happend]

theorem ofEntries_eq (entries : Object V) (hn : (entries.map Prod.fst).Nodup) : ofEntries entries = ⟨entries, hn⟩ := by
  have h : (ofEntries entries).entries = entries := extend_entries empty entries hn
  generalize ofEntries entries = dict at h
  obtain ⟨found, hd⟩ := dict
  subst h
  rfl

@[simp]
theorem ofEntries_entries (dict : Dict V) : ofEntries dict.entries = dict :=
  ofEntries_eq dict.entries dict.nodup

theorem mem_ofEntries (entries : Object V) (entry : String × V) (h : entry ∈ (ofEntries entries).entries) :
    entry ∈ entries := by
  have hmem : ∀ (dict : Dict V), entry ∈ (dict.extend entries).entries →
      entry ∈ dict.entries ∨ entry ∈ entries := by
    clear h
    induction entries with
    | nil => exact fun dict h => .inl h
    | cons first rest ih =>
      intro dict h
      rcases ih (dict.insert first.1 first.2) h with h | h
      · rcases Object.mem_of_mem_insertKey dict.entries first.1 first.2 entry h with rfl | h
        · exact .inr List.mem_cons_self
        · exact .inl h
      · exact .inr (List.mem_cons_of_mem first h)
  exact (hmem empty h).resolve_left (List.not_mem_nil)

theorem map_eq_self_iff (dict : Dict V) (f : String → V → V) :
    dict.map f = dict ↔ ∀ entry ∈ dict.entries, f entry.1 entry.2 = entry.2 := by
  obtain ⟨entries, hn⟩ := dict
  rw [map, Dict.mk.injEq]
  constructor
  · intro h entry he
    have hentry := List.map_inj_left.mp (h.trans (List.map_id entries).symm) entry he
    exact congrArg Prod.snd hentry
  · intro h
    have hid : entries.map (fun entry => (entry.1, f entry.1 entry.2)) = entries.map id :=
      List.map_congr_left fun entry he => Prod.ext rfl (h entry he)
    exact hid.trans (List.map_id entries)

end Dict

end Gqlforge
