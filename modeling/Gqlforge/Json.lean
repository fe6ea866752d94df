import Mathlib.Algebra.Group.Int.Defs
import Mathlib.Algebra.Group.Nat.Defs
import Mathlib.Data.List.Basic

namespace Gqlforge.Json

inductive Number where
  | int (value : Int)
  | float (repr : String)
  deriving DecidableEq, Inhabited

inductive ConstValue where
  | null
  | number (value : Number)
  | string (value : String)
  | boolean (value : Bool)
  | enum (name : String)
  | list (items : List ConstValue)
  | object (fields : List (String × ConstValue))
  deriving Inhabited, BEq

inductive Output where
  | null
  | bool (value : Bool)
  | number (value : Number)
  | str (value : String)
  | array (items : List Output)
  | object (fields : List (String × Output))
  deriving Inhabited, BEq

abbrev Object (V : Type) := List (String × V)

def Object.getKey {V : Type} (fields : Object V) (key : String) : Option V :=
  fields.lookup key

def Object.insertKey {V : Type} : Object V → String → V → Object V
  | [], key, value => [(key, value)]
  | (k, v) :: rest, key, value =>
    if k = key then (k, value) :: rest else (k, v) :: Object.insertKey rest key value

example : Object.insertKey [("a", 1), ("b", 2)] "a" 3 = [("a", 3), ("b", 2)] := by
  rw [Object.insertKey, if_pos rfl]

theorem Object.mem_insertKey {V : Type} (fields : Object V) (key : String) (value : V) (k : String) :
    k ∈ (fields.insertKey key value).map Prod.fst ↔ k = key ∨ k ∈ fields.map Prod.fst := by
  induction fields with
  | nil => simp [Object.insertKey]
  | cons entry rest ih =>
    obtain ⟨k', v⟩ := entry
    rw [Object.insertKey]
    by_cases h : k' = key
    · rw [if_pos h]
      simp [h]
    · rw [if_neg h, List.map_cons, List.mem_cons, ih, List.map_cons, List.mem_cons]
      exact or_left_comm

theorem Object.getKey_insertKey {V : Type} (fields : Object V) (key : String) (value : V) :
    (fields.insertKey key value).getKey key = some value := by
  induction fields with
  | nil => simp [Object.insertKey, Object.getKey]
  | cons entry rest ih =>
    obtain ⟨k, v⟩ := entry
    rw [Object.insertKey]
    by_cases h : k = key
    · rw [if_pos h]
      simp [Object.getKey, h]
    · rw [if_neg h]
      have hne : (key == k) = false := beq_eq_false_iff_ne.mpr fun he => h he.symm
      simp only [Object.getKey, List.lookup_cons, hne]
      exact ih

theorem Object.getKey_insertKey_of_ne {V : Type} (fields : Object V) (key other : String) (value : V)
    (hne : other ≠ key) : (fields.insertKey key value).getKey other = fields.getKey other := by
  have hother : (other == key) = false := beq_eq_false_iff_ne.mpr hne
  induction fields with
  | nil => simp [Object.insertKey, Object.getKey, hne]
  | cons entry rest ih =>
    obtain ⟨k, v⟩ := entry
    rw [Object.insertKey]
    by_cases h : k = key
    · rw [if_pos h]
      simp [Object.getKey, List.lookup_cons, h, hother]
    · rw [if_neg h]
      simp only [Object.getKey, List.lookup_cons]
      cases other == k with
      | true => rfl
      | false => exact ih

theorem Object.mem_of_mem_insertKey {V : Type} (fields : Object V) (key : String) (value : V)
    (entry : String × V) (h : entry ∈ fields.insertKey key value) : entry = (key, value) ∨ entry ∈ fields := by
  induction fields with
  | nil => exact .inl (List.mem_singleton.mp h)
  | cons first rest ih =>
    obtain ⟨k, v⟩ := first
    rw [Object.insertKey] at h
    by_cases he : k = key
    · rw [if_pos he] at h
      rcases List.mem_cons.mp h with rfl | h
      · exact .inl (by rw [he])
      · exact .inr (List.mem_cons_of_mem _ h)
    · rw [if_neg he] at h
      rcases List.mem_cons.mp h with rfl | h
      · exact .inr List.mem_cons_self
      · rcases ih h with h | h
        · exact .inl h
        · exact .inr (List.mem_cons_of_mem _ h)

theorem Object.nodup_insertKey {V : Type} (fields : Object V) (key : String) (value : V)
    (h : (fields.map Prod.fst).Nodup) : ((fields.insertKey key value).map Prod.fst).Nodup := by
  induction fields with
  | nil => simp [Object.insertKey]
  | cons entry rest ih =>
    obtain ⟨k', v⟩ := entry
    obtain ⟨hk, hr⟩ := List.nodup_cons.mp h
    rw [Object.insertKey]
    by_cases he : k' = key
    · rw [if_pos he]
      exact h
    · rw [if_neg he, List.map_cons, List.nodup_cons, Object.mem_insertKey]
      exact ⟨not_or.mpr ⟨he, hk⟩, ih hr⟩

namespace ConstValue

def asArray : ConstValue → Option (List ConstValue)
  | .list items => some items
  | _ => none

def asObject : ConstValue → Option (Object ConstValue)
  | .object fields => some fields
  | _ => none

def asStr : ConstValue → Option String
  | .string value => some value
  | _ => none

def asBool : ConstValue → Option Bool
  | .boolean value => some value
  | _ => none

def asInt : ConstValue → Option Int
  | .number (.int value) => some value
  | _ => none

def isNull : ConstValue → Bool
  | .null => true
  | _ => false

def getKey (value : ConstValue) (path : String) : Option ConstValue :=
  value.asObject.bind (·.getKey path)

def getTypeName (value : ConstValue) : Option String :=
  (value.getKey "__typename").bind asStr

mutual

def mapRef {m : Type → Type} [Monad m] (mapper : ConstValue → m ConstValue) : ConstValue → m ConstValue
  | .list items => do
    let items ← mapItems mapper items
    return .list items
  | value => mapper value

def mapItems {m : Type → Type} [Monad m] (mapper : ConstValue → m ConstValue) :
    List ConstValue → m (List ConstValue)
  | [] => return []
  | value :: rest => do
    let value ← value.mapRef mapper
    let rest ← mapItems mapper rest
    return value :: rest

end

mutual

def forEach {σ : Type} (f : σ → ConstValue → σ) (acc : σ) : ConstValue → σ
  | .list items => forItems f acc items
  | value => f acc value

def forItems {σ : Type} (f : σ → ConstValue → σ) (acc : σ) : List ConstValue → σ
  | [] => acc
  | value :: rest => forItems f (value.forEach f acc) rest

end

end ConstValue

namespace Output

mutual

def cloneFrom : ConstValue → Output
  | .null => .null
  | .number value => .number value
  | .string value => .str value
  | .boolean value => .bool value
  | .enum name => .str name
  | .list items => .array (cloneItems items)
  | .object fields => .object (cloneFields fields)

def cloneItems : List ConstValue → List Output
  | [] => []
  | value :: rest => cloneFrom value :: cloneItems rest

def cloneFields : List (String × ConstValue) → List (String × Output)
  | [] => []
  | (key, value) :: rest => (key, cloneFrom value) :: cloneFields rest

end

theorem cloneItems_eq_map (items : List ConstValue) : cloneItems items = items.map cloneFrom := by
  induction items with
  | nil => rfl
  | cons value rest ih => simp only [cloneItems, List.map_cons, ih]

end Output

end Gqlforge.Json
