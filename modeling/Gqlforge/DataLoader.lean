import Gqlforge.Runs
import Mathlib.Data.Finset.Card

namespace Gqlforge.DataLoader

structure CacheStorage (Storage Key Value : Type) where
  get : Storage → Key → Option Value × Storage
  insert : Storage → Key → Value → Storage
  clear : Storage → Storage

structure Pending (Key Value Caller : Type) where
  keys : Finset Key
  useCacheValues : Key → Option Value
  tx : Caller

structure Requests (Storage Key Value Caller : Type) where
  keys : Finset Key
  pending : List (Pending Key Value Caller)
  cacheStorage : Storage
  disableCache : Bool

structure Batch (Key Value Caller : Type) where
  disableCache : Bool
  keys : Finset Key
  senders : List (Pending Key Value Caller)

inductive Task (Key Value Error : Type) where
  | waiting
  | awaiting
  | answered (result : Except Error (Key → Option Value))
  | dropped

structure State (Storage Key Value Error Caller : Type) where
  requests : Requests Storage Key Value Caller
  disableCache : Bool
  delayed : List Bool
  batches : List (Batch Key Value Caller)
  task : Caller → Task Key Value Error

inductive Event (Key Value Error Caller : Type) where
  | ask (caller : Caller)
  | fetch (index : ℕ)
  | load (index : ℕ) (result : Except Error (List (Key × Value)))
  | drop (caller : Caller)
  | enableAllCache (enable : Bool)
  | enableCache (enable : Bool)
  | feed (values : List (Key × Value))
  | clear

section

variable {Storage Key Value Error Caller : Type} [DecidableEq Key] [DecidableEq Caller]
variable (cache : CacheStorage Storage Key Value)

def Requests.select (requests : Requests Storage Key Value Caller) (disabled : Bool) (keys : List Key) :
    Finset Key × (Key → Option Value) × Storage :=
  if disabled then (keys.toFinset, fun _ => none, requests.cacheStorage)
  else
    keys.foldl (fun (keysSet, useCacheValues, storage) key => match cache.get storage key with
      | (some value, storage) => (keysSet, Function.update useCacheValues key (some value), storage)
      | (none, storage) => (insert key keysSet, useCacheValues, storage)) (∅, fun _ => none, requests.cacheStorage)

def Requests.take (requests : Requests Storage Key Value Caller) : Requests Storage Key Value Caller :=
  { requests with keys := ∅, pending := [] }

def Pending.respond (pending : Pending Key Value Caller) :
    Except Error (List (Key × Value)) → Except Error (Key → Option Value)
  | .ok values => .ok fun key =>
    (if key ∈ pending.keys then values.lookup key else none).or (pending.useCacheValues key)
  | .error error => .error error

namespace State

def start (storage : Storage) : State Storage Key Value Error Caller where
  requests := ⟨∅, [], storage, false⟩
  disableCache := false
  delayed := []
  batches := []
  task _ := .waiting

def select (state : State Storage Key Value Error Caller) (keys : List Key) :
    Finset Key × (Key → Option Value) × Storage :=
  state.requests.select cache (state.requests.disableCache || state.disableCache) keys

def push (state : State Storage Key Value Error Caller) (caller : Caller) (keys : Finset Key)
    (useCacheValues : Key → Option Value) (storage : Storage) : State Storage Key Value Error Caller :=
  { state with
    requests :=
      { state.requests with
        keys := state.requests.keys ∪ keys
        pending := state.requests.pending ++ [⟨keys, useCacheValues, caller⟩]
        cacheStorage := storage }
    task := Function.update state.task caller .awaiting }

def take (state : State Storage Key Value Error Caller) (disableCache : Bool) :
    State Storage Key Value Error Caller :=
  { state with
    requests := state.requests.take
    batches := if state.requests.keys = ∅ then state.batches
      else state.batches ++ [⟨disableCache, state.requests.keys, state.requests.pending⟩] }

def loadMany (maxBatchSize : ℕ) (state : State Storage Key Value Error Caller) (caller : Caller) (keys : List Key) :
    State Storage Key Value Error Caller :=
  let (keysSet, useCacheValues, storage) := state.select cache keys
  if keysSet = ∅ then
    { state with
      requests := { state.requests with cacheStorage := storage }
      task := Function.update state.task caller (.answered (.ok useCacheValues)) }
  else
    let pushed := state.push caller keysSet useCacheValues storage
    if maxBatchSize ≤ pushed.requests.keys.card then pushed.take state.disableCache
    else if pushed.requests.keys ≠ ∅ ∧ state.requests.keys.card = 0 then
      { pushed with delayed := state.delayed ++ [state.disableCache] }
    else pushed

def doLoad (state : State Storage Key Value Error Caller) (index : ℕ) (batch : Batch Key Value Caller)
    (result : Except Error (List (Key × Value))) : State Storage Key Value Error Caller :=
  let storage := match result with
    | .ok values =>
      if state.requests.disableCache || batch.disableCache then state.requests.cacheStorage
      else values.foldl (fun storage (key, value) => cache.insert storage key value) state.requests.cacheStorage
    | .error _ => state.requests.cacheStorage
  { state with
    requests := { state.requests with cacheStorage := storage }
    batches := state.batches.eraseIdx index
    task := fun caller => match state.task caller, batch.senders.find? (·.tx = caller) with
      | .awaiting, some pending => .answered (pending.respond result)
      | task, _ => task }

def withStorage (state : State Storage Key Value Error Caller) (storage : Storage) :
    State Storage Key Value Error Caller :=
  { state with requests := { state.requests with cacheStorage := storage } }

end State

variable (maxBatchSize : ℕ) (asked : Caller → List Key)

/-- The steps of the callers, of the tasks they spawn and of the calls that configure the cache. -/
inductive Does : State Storage Key Value Error Caller → Event Key Value Error Caller →
    State Storage Key Value Error Caller → Prop
  | ask (state : State Storage Key Value Error Caller) (caller : Caller) (h : state.task caller = .waiting) :
    Does state (.ask caller) (state.loadMany cache maxBatchSize caller (asked caller))
  | fetch (state : State Storage Key Value Error Caller) (index : ℕ) (disableCache : Bool)
      (h : state.delayed[index]? = some disableCache) :
    Does state (.fetch index) { state.take disableCache with delayed := state.delayed.eraseIdx index }
  | load (state : State Storage Key Value Error Caller) (index : ℕ) (batch : Batch Key Value Caller)
      (result : Except Error (List (Key × Value))) (h : state.batches[index]? = some batch) :
    Does state (.load index result) (state.doLoad cache index batch result)
  | drop (state : State Storage Key Value Error Caller) (caller : Caller)
      (h : ∀ result, state.task caller ≠ .answered result) :
    Does state (.drop caller) { state with task := Function.update state.task caller .dropped }
  | enableAllCache (state : State Storage Key Value Error Caller) (enable : Bool) :
    Does state (.enableAllCache enable) { state with disableCache := !enable }
  | enableCache (state : State Storage Key Value Error Caller) (enable : Bool) :
    Does state (.enableCache enable) { state with requests := { state.requests with disableCache := !enable } }
  | feed (state : State Storage Key Value Error Caller) (values : List (Key × Value)) :
    Does state (.feed values) (state.withStorage
      (values.foldl (fun storage (key, value) => cache.insert storage key value) state.requests.cacheStorage))
  | clear (state : State Storage Key Value Error Caller) :
    Does state .clear (state.withStorage (cache.clear state.requests.cacheStorage))

def loadOne (result : Except Error (Key → Option Value)) (key : Key) : Except Error (Option Value) :=
  result.map (· key)

variable {cache} {maxBatchSize} {asked}

omit [DecidableEq Caller] in
theorem mem_select (requests : Requests Storage Key Value Caller) (disabled : Bool) (keys : List Key) (key : Key) :
    key ∈ keys ↔ key ∈ (requests.select cache disabled keys).1 ∨
      ((requests.select cache disabled keys).2.1 key).isSome := by
  unfold Requests.select
  by_cases hd : disabled = true
  · simp [hd]
  simp only [hd, Bool.false_eq_true, if_false]
  suffices h : ∀ (keysSet : Finset Key) (useCacheValues : Key → Option Value) (storage : Storage),
      let found := keys.foldl (fun (keysSet, useCacheValues, storage) key => match cache.get storage key with
        | (some value, storage) => (keysSet, Function.update useCacheValues key (some value), storage)
        | (none, storage) => (insert key keysSet, useCacheValues, storage)) (keysSet, useCacheValues, storage)
      (key ∈ keys ∨ key ∈ keysSet ∨ (useCacheValues key).isSome) ↔ key ∈ found.1 ∨ (found.2.1 key).isSome by
    simpa using h ∅ (fun _ => none) requests.cacheStorage
  induction keys with
  | nil => simp
  | cons first rest ih =>
    intro keysSet useCacheValues storage
    simp only [List.foldl_cons]
    rcases hg : cache.get storage first with ⟨_ | value, storage'⟩
    · have h := ih (insert first keysSet) useCacheValues storage'
      simp only at h ⊢
      rw [← h]
      simp only [List.mem_cons, Finset.mem_insert]
      tauto
    · have h := ih keysSet (Function.update useCacheValues first (some value)) storage'
      simp only at h ⊢
      rw [← h]
      by_cases he : key = first
      · simp [he]
      · simp [he]

end

end Gqlforge.DataLoader
