import Gqlforge.Sharing
import Mathlib.Logic.Function.Basic

namespace Gqlforge.Dedupe

open Sharing

inductive Entry (Caller Value : Type) where
  | ready (value : Value)
  | pending (tx : Caller)

inductive Next (Caller Value : Type) where
  | ret (value : Value)
  | await (tx : Caller)
  | init

inductive Task (Caller Value : Type) where
  | waiting
  | awaiting (tx : Caller)
  | executing
  | returned (value : Value)
  | dropped

structure State (Key Caller Value : Type) where
  cache : Key → Option (Entry Caller Value)
  task : Caller → Task Caller Value

section

variable {Key Caller Value : Type} [DecidableEq Key] [DecidableEq Caller]

namespace State

def alive (state : State Key Caller Value) (tx : Caller) : Bool :=
  match state.task tx with
  | .executing => true
  | _ => false

def step (state : State Key Caller Value) (key : Key) (caller : Caller) :
    Next Caller Value × (Key → Option (Entry Caller Value)) :=
  let init := (.init, Function.update state.cache key (some (.pending caller)))
  match state.cache key with
  | some (.ready value) => (.ret value, state.cache)
  | some (.pending tx) => if state.alive tx then (.await tx, state.cache) else init
  | none => init

def ask (state : State Key Caller Value) (key : Key) (caller : Caller) : State Key Caller Value :=
  match state.step key caller with
  | (.ret value, cache) => ⟨cache, Function.update state.task caller (.returned value)⟩
  | (.await tx, cache) => ⟨cache, Function.update state.task caller (.awaiting tx)⟩
  | (.init, cache) => ⟨cache, Function.update state.task caller .executing⟩

def finish (persist : Bool) (state : State Key Caller Value) (key : Key) (caller : Caller) (value : Value) :
    State Key Caller Value where
  cache := Function.update state.cache key (if persist then some (.ready value) else none)
  task := Function.update state.task caller (.returned value)

def withTask (state : State Key Caller Value) (caller : Caller) (task : Task Caller Value) : State Key Caller Value where
  cache := state.cache
  task := Function.update state.task caller task

def start : State Key Caller Value where
  cache _ := none
  task _ := .waiting

end State

variable (persist : Bool) (key : Caller → Key) (orElse : Caller → Value → Prop)

inductive Moves : State Key Caller Value → State Key Caller Value → Prop
  | ask (state : State Key Caller Value) (caller : Caller) (h : state.task caller = .waiting) :
    Moves state (state.ask (key caller) caller)
  | finish (state : State Key Caller Value) (caller : Caller) (value : Value)
      (h : state.task caller = .executing) (hv : orElse caller value) :
    Moves state (state.finish persist (key caller) caller value)
  | receive (state : State Key Caller Value) (caller tx : Caller) (value : Value)
      (h : state.task caller = .awaiting tx) (hv : state.task tx = .returned value) :
    Moves state (state.withTask caller (.returned value))
  | retry (state : State Key Caller Value) (caller tx : Caller) (h : state.task caller = .awaiting tx)
      (hd : state.task tx = .dropped) :
    Moves state (state.withTask caller .waiting)
  | drop (state : State Key Caller Value) (caller : Caller) (h : ∀ value, state.task caller ≠ .returned value) :
    Moves state (state.withTask caller .dropped)

def Returns (caller : Caller) (value : Value) : Prop :=
  ∃ state, Relation.ReflTransGen (Moves persist key orElse) State.start state ∧
    state.task caller = .returned value

structure Keyed (state : State Key Caller Value) : Prop where
  ready : ∀ k value, state.cache k = some (.ready value) → ∃ maker, key maker = k ∧ orElse maker value
  pending : ∀ k tx, state.cache k = some (.pending tx) → key tx = k
  awaiting : ∀ caller tx, state.task caller = .awaiting tx → key tx = key caller
  returned : ∀ caller value, state.task caller = .returned value → Shared key orElse caller value

variable {persist key orElse}

variable {state : State Key Caller Value}

omit [DecidableEq Caller] in
theorem keyed_cache_init (h : Keyed key orElse state) (caller : Caller) :
    (∀ k value, Function.update state.cache (key caller) (some (.pending caller)) k = some (.ready value) →
      ∃ maker, key maker = k ∧ orElse maker value) ∧
    ∀ k tx, Function.update state.cache (key caller) (some (.pending caller)) k = some (.pending tx) → key tx = k := by
  constructor
  · intro k value hk
    by_cases he : k = key caller
    · rw [he, Function.update_self] at hk
      exact absurd (Option.some.inj hk) (by simp)
    · rw [Function.update_of_ne he] at hk
      exact h.ready k value hk
  · intro k tx hk
    by_cases he : k = key caller
    · rw [he, Function.update_self] at hk
      rw [← Entry.pending.inj (Option.some.inj hk), he]
    · rw [Function.update_of_ne he] at hk
      exact h.pending k tx hk

omit [DecidableEq Key] in
theorem keyed_withTask (h : Keyed key orElse state) (caller : Caller)
    (task : Task Caller Value) (cache : Key → Option (Entry Caller Value))
    (hready : ∀ k value, cache k = some (.ready value) → ∃ maker, key maker = k ∧ orElse maker value)
    (hpending : ∀ k tx, cache k = some (.pending tx) → key tx = k)
    (hawaiting : ∀ tx, task = .awaiting tx → key tx = key caller)
    (hreturned : ∀ value, task = .returned value → Shared key orElse caller value) :
    Keyed key orElse ⟨cache, Function.update state.task caller task⟩ := by
  refine ⟨hready, hpending, ?_, ?_⟩
  · intro other tx ht
    by_cases he : other = caller
    · subst he
      exact hawaiting tx (by simpa using ht)
    · exact h.awaiting other tx (by simpa [he] using ht)
  · intro other value ht
    by_cases he : other = caller
    · subst he
      exact hreturned value (by simpa using ht)
    · exact h.returned other value (by simpa [he] using ht)

theorem keyed_ask (h : Keyed key orElse state) (caller : Caller) :
    Keyed key orElse (state.ask (key caller) caller) := by
  have hinit := keyed_cache_init h caller
  unfold State.ask State.step
  cases hc : state.cache (key caller) with
  | none => exact keyed_withTask h caller _ _ hinit.1 hinit.2 (by simp) (by simp)
  | some entry =>
    cases entry with
    | ready value =>
      apply keyed_withTask h caller _ _ h.ready h.pending (by simp)
      intro value' hv
      obtain rfl := Task.returned.inj hv
      exact h.ready (key caller) value hc
    | pending tx =>
      by_cases ha : state.alive tx = true
      · simp only [ha, if_true]
        apply keyed_withTask h caller _ _ h.ready h.pending _ (by simp)
        intro tx' ht
        obtain rfl := Task.awaiting.inj ht
        exact h.pending (key caller) tx hc
      · simp only [ha]
        exact keyed_withTask h caller _ _ hinit.1 hinit.2 (by simp) (by simp)

theorem keyed_finish (h : Keyed key orElse state) (caller : Caller) (value : Value)
    (hv : orElse caller value) : Keyed key orElse (state.finish persist (key caller) caller value) := by
  apply keyed_withTask h caller
  · intro k value' hk
    by_cases he : k = key caller
    · subst he
      rw [Function.update_self] at hk
      cases persist with
      | true =>
        obtain rfl : value = value' := by simpa using hk
        exact ⟨caller, rfl, hv⟩
      | false => simp at hk
    · rw [Function.update_of_ne he] at hk
      exact h.ready k value' hk
  · intro k tx hk
    by_cases he : k = key caller
    · subst he
      rw [Function.update_self] at hk
      cases persist <;> simp at hk
    · rw [Function.update_of_ne he] at hk
      exact h.pending k tx hk
  · simp
  · intro value' ht
    obtain rfl := Task.returned.inj ht
    exact shared_self hv

theorem keyed_moves (state state' : State Key Caller Value) (h : Keyed key orElse state)
    (hm : Moves persist key orElse state state') : Keyed key orElse state' := by
  cases hm with
  | ask caller _ => exact keyed_ask h caller
  | finish caller value _ hv => exact keyed_finish h caller value hv
  | receive caller tx value ht hv =>
    apply keyed_withTask h caller _ _ h.ready h.pending (by simp)
    intro value' hv'
    obtain rfl := Task.returned.inj hv'
    exact shared_of_key_eq (h.awaiting caller tx ht) (h.returned tx value hv)
  | retry caller tx _ _ => exact keyed_withTask h caller _ _ h.ready h.pending (by simp) (by simp)
  | drop caller _ => exact keyed_withTask h caller _ _ h.ready h.pending (by simp) (by simp)

theorem returns_shared {caller : Caller} {value : Value} (h : Returns persist key orElse caller value) :
    Shared key orElse caller value := by
  obtain ⟨state, hr, ht⟩ := h
  have hstart : Keyed key orElse (State.start : State Key Caller Value) := by
    refine ⟨?_, ?_, ?_, ?_⟩ <;> simp [State.start]
  exact (holds_of_reached keyed_moves hstart hr).returned caller value ht

section

variable {caller other : Caller} {value : Value}

theorem ask_free (state : State Key Caller Value) (k : Key) (h : state.cache k = none) :
    state.ask k caller = ⟨Function.update state.cache k (some (.pending caller)),
      Function.update state.task caller .executing⟩ := by
  simp only [State.ask, State.step, h]

theorem ask_pending (state : State Key Caller Value) (k : Key) (tx : Caller)
    (h : state.cache k = some (.pending tx)) (ht : state.task tx = .executing) :
    state.ask k caller = ⟨state.cache, Function.update state.task caller (.awaiting tx)⟩ := by
  simp only [State.ask, State.step, h, State.alive, ht, if_true]

theorem returns_own (h : orElse caller value) : Returns persist key orElse caller value := by
  let asked : State Key Caller Value := State.start.ask (key caller) caller
  have hfree := @ask_free _ _ Value _ _ caller State.start (key caller) rfl
  have hasked : asked.task caller = .executing := by
    simp [asked, hfree]
  have hfirst : Moves persist key orElse State.start asked := .ask State.start caller rfl
  have hlast : Moves persist key orElse asked (asked.finish persist (key caller) caller value) :=
    .finish asked caller value hasked h
  exact ⟨_, (Relation.ReflTransGen.single hfirst).tail hlast, by simp [State.finish]⟩

theorem returns_other (hk : key caller = key other) (hne : caller ≠ other) (h : orElse other value) :
    Returns persist key orElse caller value := by
  let asked : State Key Caller Value := State.start.ask (key other) other
  have hasked : asked = ⟨Function.update (fun _ => none) (key other) (some (.pending other)),
      Function.update (fun _ => .waiting) other .executing⟩ := ask_free State.start (key other) rfl
  let joined : State Key Caller Value := asked.ask (key caller) caller
  have hjoined : joined = ⟨asked.cache, Function.update asked.task caller (.awaiting other)⟩ := by
    apply ask_pending
    · rw [hk, hasked]
      simp
    · rw [hasked]
      simp
  let finished := joined.finish persist (key other) other value
  have hfirst : Moves persist key orElse State.start asked := .ask State.start other rfl
  have hsecond : Moves persist key orElse asked joined := by
    apply Moves.ask asked caller
    rw [hasked]
    simp [hne]
  have hthird : Moves persist key orElse joined finished := by
    apply Moves.finish joined other value _ h
    rw [hjoined, hasked]
    simp [hne.symm]
  have hlast : Moves persist key orElse finished (finished.withTask caller (.returned value)) := by
    apply Moves.receive finished caller other value
    · simp [finished, State.finish, hjoined, hne]
    · simp [finished, State.finish]
  have hrun := (((Relation.ReflTransGen.single hfirst).tail hsecond).tail hthird).tail hlast
  exact ⟨_, hrun, by simp [State.withTask]⟩

end

end

end Gqlforge.Dedupe
