import Gqlforge.Dedupe
import Gqlforge.Errors
import Gqlforge.IoKeys

namespace Gqlforge.CachedAnswers

open Sharing

inductive Task (Value : Type) where
  | waiting
  | executing
  | returned (value : Value)

structure State (Key Caller Value : Type) where
  stored : Key → Option Value
  task : Caller → Task Value

section

variable {Key Caller Value : Type} [DecidableEq Key] [DecidableEq Caller]

def State.start : State Key Caller Value where
  stored _ := none
  task _ := .waiting

def State.finish (state : State Key Caller Value) (key : Key) (caller : Caller) (value : Value) (stores : Bool) :
    State Key Caller Value where
  stored := if stores then Function.update state.stored key (some value) else state.stored
  task := Function.update state.task caller (.returned value)

variable (key : Caller → Key) (stores : Caller → Value → Bool) (made : Caller → Value → Prop)

/-- The steps of concurrent calls. Looking a key up and storing an answer under it are two steps, and what
is stored may expire at any time. -/
inductive Moves : State Key Caller Value → State Key Caller Value → Prop
  | hit (state : State Key Caller Value) (caller : Caller) (value : Value) (h : state.task caller = .waiting)
      (hs : state.stored (key caller) = some value) :
    Moves state ⟨state.stored, Function.update state.task caller (.returned value)⟩
  | miss (state : State Key Caller Value) (caller : Caller) (h : state.task caller = .waiting)
      (hs : state.stored (key caller) = none) :
    Moves state ⟨state.stored, Function.update state.task caller .executing⟩
  | finish (state : State Key Caller Value) (caller : Caller) (value : Value)
      (h : state.task caller = .executing) (hm : made caller value) :
    Moves state (state.finish (key caller) caller value (stores caller value))
  | expire (state : State Key Caller Value) (k : Key) :
    Moves state ⟨Function.update state.stored k none, state.task⟩

def Returns (caller : Caller) (value : Value) : Prop :=
  ∃ state, Relation.ReflTransGen (Moves key stores made) State.start state ∧ state.task caller = .returned value

def Kept (caller : Caller) (value : Value) : Prop :=
  stores caller value = true ∧ made caller value

structure Keyed (state : State Key Caller Value) : Prop where
  stored : ∀ k value, state.stored k = some value → ∃ maker, key maker = k ∧ Kept stores made maker value
  returned : ∀ caller value, state.task caller = .returned value →
    made caller value ∨ Shared key (Kept stores made) caller value

variable {key stores made}

omit [DecidableEq Key] in
theorem keyed_returned {state : State Key Caller Value} (h : Keyed key stores made state) (caller : Caller)
    (task : Task Value) (stored : Key → Option Value)
    (hstored : ∀ k value, stored k = some value → ∃ maker, key maker = k ∧ Kept stores made maker value)
    (hreturned : ∀ value, task = .returned value → made caller value ∨ Shared key (Kept stores made) caller value) :
    Keyed key stores made ⟨stored, Function.update state.task caller task⟩ := by
  refine ⟨hstored, ?_⟩
  intro other value ht
  by_cases he : other = caller
  · subst he
    exact hreturned value (by simpa using ht)
  · exact h.returned other value (by simpa [he] using ht)

theorem keyed_moves (state state' : State Key Caller Value) (h : Keyed key stores made state)
    (hm : Moves key stores made state state') : Keyed key stores made state' := by
  cases hm with
  | hit caller value _ hs =>
    apply keyed_returned h caller _ _ h.stored
    intro value' hv
    obtain rfl := Task.returned.inj hv
    exact .inr (h.stored (key caller) value hs)
  | miss caller _ _ => exact keyed_returned h caller _ _ h.stored (by simp)
  | finish caller value _ hv =>
    apply keyed_returned h caller
    · intro k value' hk
      by_cases hs : stores caller value = true
      · rw [if_pos hs] at hk
        by_cases he : k = key caller
        · subst he
          rw [Function.update_self] at hk
          obtain rfl := Option.some.inj hk
          exact ⟨caller, rfl, hs, hv⟩
        · rw [Function.update_of_ne he] at hk
          exact h.stored k value' hk
      · rw [if_neg hs] at hk
        exact h.stored k value' hk
    · intro value' ht
      obtain rfl := Task.returned.inj ht
      exact .inl hv
  | expire k =>
    refine ⟨?_, h.returned⟩
    intro k' value hk
    simp only at hk
    by_cases he : k' = k
    · subst he
      rw [Function.update_self] at hk
      exact absurd hk (by simp)
    · rw [Function.update_of_ne he] at hk
      exact h.stored k' value hk

theorem returns_kept {caller : Caller} {value : Value} (h : Returns key stores made caller value) :
    made caller value ∨ Shared key (Kept stores made) caller value := by
  obtain ⟨state, hr, ht⟩ := h
  have hstart : Keyed key stores made (State.start : State Key Caller Value) := by
    constructor <;> simp [State.start]
  exact (holds_of_reached keyed_moves hstart hr).returned caller value ht

end

end Gqlforge.CachedAnswers

namespace Gqlforge.IoSharing

open Json Errors Resolvers RequestTemplates IoKeys Sharing

structure IoCall (wire : Wire) where
  io : Io
  ctx : RenderContext
  isQuery : Bool
  requestId : Nat
  key : List HashItem
  keyed : cacheKey wire ctx io = some key

section

variable {wire : Wire} {Caller : Type} [DecidableEq Caller]
variable (call : Caller → IoCall wire) (evalIoInner : Caller → Except EvalError ConstValue → Prop)

/-- The cache of a server request keeps what it shares, the handler of the server does not. -/
def evalIo (caller : Caller) (value : Except EvalError ConstValue) : Prop :=
  if (call caller).io.dedupe && (call caller).isQuery then
    Dedupe.Returns true (fun caller => ((call caller).requestId, (call caller).key))
      (Dedupe.Returns false (fun caller => (call caller).key) evalIoInner) caller value
  else evalIoInner caller value

def evalCache (caller : Caller) (value : Except EvalError ConstValue) : Prop :=
  CachedAnswers.Returns (fun caller => (call caller).key) (fun _ value => value.isOk)
    (evalIo call evalIoInner) caller value

theorem evalIo_shared {caller : Caller} {value : Except EvalError ConstValue} (h : evalIo call evalIoInner caller value) :
    Shared (fun caller => (call caller).key) evalIoInner caller value := by
  unfold evalIo at h
  split at h
  · have houter := Dedupe.returns_shared h
    apply shared_shared _ (shared_mono (fun _ _ hinner => Dedupe.returns_shared hinner) houter)
    intro caller caller' hk
    exact (Prod.mk.inj hk).2
  · exact shared_self h

theorem evalCache_shared {caller : Caller} {value : Except EvalError ConstValue} (h : evalCache call evalIoInner caller value) :
    Shared (fun caller => (call caller).key) evalIoInner caller value := by
  rcases CachedAnswers.returns_kept h with h | h
  · exact evalIo_shared call evalIoInner h
  · apply shared_shared fun _ _ hk => hk
    exact shared_mono (fun _ _ hkept => evalIo_shared call evalIoInner hkept.2) h

end

def plainWire : Wire where
  parseUrl := some
  queryPairs _ := []
  setQuery url _ := url
  parseJson _ := none
  urlencode _ := none
  convertInput _ body := some (body.toList.map fun c => c.toNat.toUInt8)

def callerContext (token : String) : RenderContext where
  pathString _ := none
  pathGraphql _ := none
  rawValue _ := none
  headers := [("authorization", token)]
  selectionSet _ := none
  directives := none

def meIo : Io :=
  .graphQL ⟨"http://users/graphql", .query, "me", none, [], .mk [], some (.resolved "\x7b id \x7d")⟩ "me" true

def meCall (token : String) (requestId : Nat) : IoCall plainWire :=
  ⟨meIo, callerContext token, true, requestId, _, rfl⟩

def tokenOf (bob : Bool) : String :=
  if bob then "bob" else "alice"

end Gqlforge.IoSharing
