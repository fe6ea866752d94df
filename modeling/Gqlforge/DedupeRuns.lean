import Gqlforge.Dedupe
import Gqlforge.Runs

namespace Gqlforge.Dedupe

open Runs

inductive Event (Caller Value : Type) where
  | ask (caller : Caller)
  | finish (caller : Caller) (value : Value)
  | receive (caller : Caller) (value : Value)
  | retry (caller : Caller)
  | drop (caller : Caller)

def Event.caller {Caller Value : Type} : Event Caller Value → Caller
  | .ask caller => caller
  | .finish caller _ => caller
  | .receive caller _ => caller
  | .retry caller => caller
  | .drop caller => caller

section

variable {Key Caller Value : Type} [DecidableEq Key] [DecidableEq Caller]
variable (persist : Bool) (key : Caller → Key) (orElse : Caller → Value → Prop)

inductive Does : State Key Caller Value → Event Caller Value → State Key Caller Value → Prop
  | ask (state : State Key Caller Value) (caller : Caller) (h : state.task caller = .waiting) :
    Does state (.ask caller) (state.ask (key caller) caller)
  | finish (state : State Key Caller Value) (caller : Caller) (value : Value)
      (h : state.task caller = .executing) (hv : orElse caller value) :
    Does state (.finish caller value) (state.finish persist (key caller) caller value)
  | receive (state : State Key Caller Value) (caller tx : Caller) (value : Value)
      (h : state.task caller = .awaiting tx) (hv : state.task tx = .returned value) :
    Does state (.receive caller value) (state.withTask caller (.returned value))
  | retry (state : State Key Caller Value) (caller tx : Caller) (h : state.task caller = .awaiting tx)
      (hd : state.task tx = .dropped) :
    Does state (.retry caller) (state.withTask caller .waiting)
  | drop (state : State Key Caller Value) (caller : Caller) (h : ∀ value, state.task caller ≠ .returned value) :
    Does state (.drop caller) (state.withTask caller .dropped)

/-- What every run keeps: an executing call is the pending one of its key, a waiter is subscribed to a call of its
key that has started, and all values stem from executions that have come to their end. -/
structure Sound (events : List (Event Caller Value)) (state : State Key Caller Value) : Prop where
  executing : ∀ caller, state.task caller = .executing → state.cache (key caller) = some (.pending caller)
  pending : ∀ k tx, state.cache k = some (.pending tx) →
    key tx = k ∧ (state.task tx = .executing ∨ state.task tx = .dropped)
  awaiting : ∀ caller tx, state.task caller = .awaiting tx → key tx = key caller ∧
    (state.task tx = .executing ∨ state.task tx = .dropped ∨ ∃ value, state.task tx = .returned value)
  ready : ∀ k value, state.cache k = some (.ready value) →
    persist = true ∧ ∃ maker, key maker = k ∧ orElse maker value ∧ .finish maker value ∈ events
  returned : ∀ caller value, state.task caller = .returned value →
    ∃ maker, key maker = key caller ∧ orElse maker value ∧ .finish maker value ∈ events
  kept : persist = true → ∀ maker value, .finish maker value ∈ events →
    ∃ value', state.cache (key maker) = some (.ready value')

variable {persist key orElse}

section

variable {state : State Key Caller Value} {k : Key} {caller : Caller}

theorem ask_of_idle (hready : ∀ value, state.cache k ≠ some (.ready value))
    (hpending : ∀ tx, state.cache k = some (.pending tx) → state.task tx ≠ .executing) :
    state.ask k caller = ⟨Function.update state.cache k (some (.pending caller)),
      Function.update state.task caller .executing⟩ := by
  cases hc : state.cache k with
  | none => exact ask_free state k hc
  | some entry =>
    cases entry with
    | ready value => exact absurd hc (hready value)
    | pending tx =>
      have hdead : state.alive tx = false := by
        have h := hpending tx hc
        cases ht : state.task tx <;> simp_all [State.alive]
      simp only [State.ask, State.step, hc, hdead, Bool.false_eq_true, if_false]

theorem ask_ready {value : Value} (h : state.cache k = some (.ready value)) :
    state.ask k caller = state.withTask caller (.returned value) := by
  simp only [State.ask, State.step, h, State.withTask]

theorem ask_alive {tx : Caller} (h : state.cache k = some (.pending tx)) (ht : state.task tx = .executing) :
    state.ask k caller = state.withTask caller (.awaiting tx) :=
  ask_pending state k tx h ht

theorem ask_cases (state : State Key Caller Value) (k : Key) (caller : Caller) :
    (∃ value, state.cache k = some (.ready value) ∧ state.ask k caller = state.withTask caller (.returned value)) ∨
    (∃ tx, state.cache k = some (.pending tx) ∧ state.task tx = .executing ∧
      state.ask k caller = state.withTask caller (.awaiting tx)) ∨
    ((∀ value, state.cache k ≠ some (.ready value)) ∧
      (∀ tx, state.cache k = some (.pending tx) → state.task tx ≠ .executing) ∧
      state.ask k caller = ⟨Function.update state.cache k (some (.pending caller)),
        Function.update state.task caller .executing⟩) := by
  by_cases hr : ∃ value, state.cache k = some (.ready value)
  · obtain ⟨value, hr⟩ := hr
    exact .inl ⟨value, hr, ask_ready hr⟩
  by_cases hp : ∃ tx, state.cache k = some (.pending tx) ∧ state.task tx = .executing
  · obtain ⟨tx, hp, ht⟩ := hp
    exact .inr (.inl ⟨tx, hp, ht, ask_alive hp ht⟩)
  have hready : ∀ value, state.cache k ≠ some (.ready value) := fun value h => hr ⟨value, h⟩
  have hpending : ∀ tx, state.cache k = some (.pending tx) → state.task tx ≠ .executing :=
    fun tx h ht => hp ⟨tx, h, ht⟩
  exact .inr (.inr ⟨hready, hpending, ask_of_idle hready hpending⟩)

omit [DecidableEq Key] in
theorem withTask_self (task : Task Caller Value) : (state.withTask caller task).task caller = task := by
  simp [State.withTask]

omit [DecidableEq Key] in
theorem withTask_of_ne {other : Caller} (h : other ≠ caller) (task : Task Caller Value) :
    (state.withTask caller task).task other = state.task other := by
  simp [State.withTask, h]

end

section

variable {events : List (Event Caller Value)} {state : State Key Caller Value} {caller : Caller}

omit [DecidableEq Key] [DecidableEq Caller] in
theorem not_pending (h : Sound persist key orElse events state) (he : state.task caller ≠ .executing)
    (hd : state.task caller ≠ .dropped) (k : Key) : state.cache k ≠ some (.pending caller) := by
  intro hk
  obtain ⟨-, ht | ht⟩ := h.pending k caller hk
  · exact he ht
  · exact hd ht

omit [DecidableEq Key] in
theorem sound_withTask {event : Event Caller Value} (h : Sound persist key orElse events state)
    (hevent : ∀ maker value, event ≠ .finish maker value) (task : Task Caller Value) (hexec : task ≠ .executing)
    (hleft : task = .dropped ∨ state.task caller ≠ .executing ∧ state.task caller ≠ .dropped)
    (hawaiting : ∀ tx, task = .awaiting tx → key tx = key caller ∧ state.task tx = .executing)
    (hreturned : ∀ value, task = .returned value →
      ∃ maker, key maker = key caller ∧ orElse maker value ∧ .finish maker value ∈ events)
    (hstay : ∀ value, state.task caller ≠ .returned value) :
    Sound persist key orElse (events ++ [event]) (state.withTask caller task) := by
  have hmem : ∀ maker value, .finish maker value ∈ events ++ [event] → .finish maker value ∈ events := by
    intro maker value hm
    rcases List.mem_append.mp hm with hm | hm
    · exact hm
    · exact absurd (List.mem_singleton.mp hm).symm (hevent maker value)
  refine ⟨?_, ?_, ?_, ?_, ?_, ?_⟩
  · intro other ht
    by_cases he : other = caller
    · rw [he, withTask_self] at ht
      exact absurd ht hexec
    · rw [withTask_of_ne he] at ht
      exact h.executing other ht
  · intro k tx hk
    obtain ⟨hkey, ht⟩ := h.pending k tx hk
    refine ⟨hkey, ?_⟩
    by_cases he : tx = caller
    · subst he
      rw [withTask_self]
      rcases hleft with hd | ⟨hne, hnd⟩
      · exact .inr hd
      · exact absurd hk (not_pending h hne hnd k)
    · rw [withTask_of_ne he]
      exact ht
  · intro other tx ht
    by_cases he : other = caller
    · subst he
      rw [withTask_self] at ht
      obtain ⟨hkey, hx⟩ := hawaiting tx ht
      refine ⟨hkey, ?_⟩
      by_cases hself : tx = other
      · subst hself
        rcases hleft with hd | ⟨hne, -⟩
        · rw [hd] at ht
          exact absurd ht (by simp)
        · exact absurd hx hne
      · rw [withTask_of_ne hself]
        exact .inl hx
    · rw [withTask_of_ne he] at ht
      obtain ⟨hkey, hx⟩ := h.awaiting other tx ht
      refine ⟨hkey, ?_⟩
      by_cases hself : tx = caller
      · subst hself
        rw [withTask_self]
        rcases hleft with hd | ⟨hne, hnd⟩
        · exact .inr (.inl hd)
        · rcases hx with hx | hx | ⟨value, hx⟩
          · exact absurd hx hne
          · exact absurd hx hnd
          · exact absurd hx (hstay value)
      · rw [withTask_of_ne hself]
        exact hx
  · intro k value hk
    obtain ⟨hp, maker, hkey, hmade, hm⟩ := h.ready k value hk
    exact ⟨hp, maker, hkey, hmade, List.mem_append_left _ hm⟩
  · intro other value ht
    by_cases he : other = caller
    · subst he
      rw [withTask_self] at ht
      obtain ⟨maker, hkey, hmade, hm⟩ := hreturned value ht
      exact ⟨maker, hkey, hmade, List.mem_append_left _ hm⟩
    · rw [withTask_of_ne he] at ht
      obtain ⟨maker, hkey, hmade, hm⟩ := h.returned other value ht
      exact ⟨maker, hkey, hmade, List.mem_append_left _ hm⟩
  · intro hp maker value hm
    exact h.kept hp maker value (hmem maker value hm)

theorem sound_init (h : Sound persist key orElse events state) (hw : state.task caller = .waiting)
    (hready : ∀ value, state.cache (key caller) ≠ some (.ready value))
    (hpending : ∀ tx, state.cache (key caller) = some (.pending tx) → state.task tx ≠ .executing) :
    Sound persist key orElse (events ++ [.ask caller])
      ⟨Function.update state.cache (key caller) (some (.pending caller)),
        Function.update state.task caller .executing⟩ := by
  have hmem : ∀ maker value, .finish maker value ∈ events ++ [.ask caller] → .finish maker value ∈ events := by
    intro maker value hm
    simpa using hm
  refine ⟨?_, ?_, ?_, ?_, ?_, ?_⟩
  · intro other ht
    by_cases he : other = caller
    · simp [he]
    · have hx : state.task other = .executing := by simpa [he] using ht
      have hc := h.executing other hx
      have hk : key other ≠ key caller := by
        intro hk
        exact hpending other (hk ▸ hc) hx
      simpa [hk] using hc
  · intro k tx hk
    by_cases he : k = key caller
    · subst he
      have htx : caller = tx := by simpa using hk
      subst htx
      exact ⟨rfl, .inl (by simp)⟩
    · have hc : state.cache k = some (.pending tx) := by simpa [he] using hk
      obtain ⟨hkey, ht⟩ := h.pending k tx hc
      have hne : tx ≠ caller := by
        intro htx
        exact he (htx ▸ hkey.symm)
      exact ⟨hkey, by simpa [hne] using ht⟩
  · intro other tx ht
    by_cases he : other = caller
    · subst he
      exact absurd ht (by simp)
    · have ho : state.task other = .awaiting tx := by simpa [he] using ht
      obtain ⟨hkey, hx⟩ := h.awaiting other tx ho
      have hne : tx ≠ caller := by
        intro htx
        subst htx
        simp [hw] at hx
      exact ⟨hkey, by simpa [hne] using hx⟩
  · intro k value hk
    by_cases he : k = key caller
    · subst he
      exact absurd hk (by simp)
    · have hc : state.cache k = some (.ready value) := by simpa [he] using hk
      obtain ⟨hp, maker, hkey, hmade, hm⟩ := h.ready k value hc
      exact ⟨hp, maker, hkey, hmade, List.mem_append_left _ hm⟩
  · intro other value ht
    by_cases he : other = caller
    · subst he
      exact absurd ht (by simp)
    · have ho : state.task other = .returned value := by simpa [he] using ht
      obtain ⟨maker, hkey, hmade, hm⟩ := h.returned other value ho
      exact ⟨maker, hkey, hmade, List.mem_append_left _ hm⟩
  · intro hp maker value hm
    obtain ⟨value', hc⟩ := h.kept hp maker value (hmem maker value hm)
    have hk : key maker ≠ key caller := by
      intro hk
      exact hready value' (hk ▸ hc)
    exact ⟨value', by simpa [hk] using hc⟩

theorem sound_finish (h : Sound persist key orElse events state) (hx : state.task caller = .executing) {value : Value}
    (hv : orElse caller value) :
    Sound persist key orElse (events ++ [.finish caller value]) (state.finish persist (key caller) caller value) := by
  have hc := h.executing caller hx
  have hlast : Event.finish caller value ∈ events ++ [.finish caller value] := by simp
  refine ⟨?_, ?_, ?_, ?_, ?_, ?_⟩
  · intro other ht
    by_cases he : other = caller
    · subst he
      exact absurd ht (by simp [State.finish])
    · have ho : state.task other = .executing := by simpa [State.finish, he] using ht
      have hco := h.executing other ho
      have hk : key other ≠ key caller := by
        intro hk
        rw [hk, hc] at hco
        exact he (Entry.pending.inj (Option.some.inj hco)).symm
      simpa [State.finish, hk] using hco
  · intro k tx hk
    by_cases he : k = key caller
    · subst he
      cases persist <;> simp [State.finish] at hk
    · have hk' : state.cache k = some (.pending tx) := by simpa [State.finish, he] using hk
      obtain ⟨hkey, ht⟩ := h.pending k tx hk'
      have hne : tx ≠ caller := by
        intro htx
        exact he (htx ▸ hkey.symm)
      exact ⟨hkey, by simpa [State.finish, hne] using ht⟩
  · intro other tx ht
    by_cases he : other = caller
    · subst he
      exact absurd ht (by simp [State.finish])
    · have ho : state.task other = .awaiting tx := by simpa [State.finish, he] using ht
      obtain ⟨hkey, ht'⟩ := h.awaiting other tx ho
      refine ⟨hkey, ?_⟩
      by_cases hne : tx = caller
      · subst hne
        exact .inr (.inr ⟨value, by simp [State.finish]⟩)
      · simpa [State.finish, hne] using ht'
  · intro k value' hk
    by_cases he : k = key caller
    · subst he
      cases hp : persist with
      | true =>
        obtain rfl : value = value' := by simpa [State.finish, hp] using hk
        exact ⟨rfl, caller, rfl, hv, hlast⟩
      | false => simp [State.finish, hp] at hk
    · have hk' : state.cache k = some (.ready value') := by simpa [State.finish, he] using hk
      obtain ⟨hp, maker, hkey, hmade, hm⟩ := h.ready k value' hk'
      exact ⟨hp, maker, hkey, hmade, List.mem_append_left _ hm⟩
  · intro other value' ht
    by_cases he : other = caller
    · subst he
      obtain rfl : value = value' := by simpa [State.finish] using ht
      exact ⟨other, rfl, hv, hlast⟩
    · have ho : state.task other = .returned value' := by simpa [State.finish, he] using ht
      obtain ⟨maker, hkey, hmade, hm⟩ := h.returned other value' ho
      exact ⟨maker, hkey, hmade, List.mem_append_left _ hm⟩
  · intro hp maker value' hm
    by_cases hk : key maker = key caller
    · exact ⟨value, by simp [State.finish, hk, hp]⟩
    · have hm' : Event.finish maker value' ∈ events := by
        rcases List.mem_append.mp hm with hm | hm
        · exact hm
        · have heq := List.mem_singleton.mp hm
          injection heq with heq
          exact absurd (congrArg key heq) hk
      obtain ⟨value'', hc'⟩ := h.kept hp maker value' hm'
      exact ⟨value'', by simpa [State.finish, hk] using hc'⟩

theorem sound_does {event : Event Caller Value} {state' : State Key Caller Value}
    (h : Sound persist key orElse events state) (hd : Does persist key orElse state event state') :
    Sound persist key orElse (events ++ [event]) state' := by
  cases hd with
  | ask caller hw =>
    rcases ask_cases state (key caller) caller with ⟨value, hc, he⟩ | ⟨tx, hc, ht, he⟩ | ⟨hready, hpending, he⟩
    · rw [he]
      apply sound_withTask h (by simp) _ (by simp) (.inr (by simp [hw])) (by simp) _ (by simp [hw])
      intro value' hv
      obtain rfl := Task.returned.inj hv
      exact (h.ready _ _ hc).2
    · rw [he]
      apply sound_withTask h (by simp) _ (by simp) (.inr (by simp [hw])) _ (by simp) (by simp [hw])
      intro tx' ht'
      obtain rfl := Task.awaiting.inj ht'
      exact ⟨(h.pending _ _ hc).1, ht⟩
    · rw [he]
      exact sound_init h hw hready hpending
  | finish caller value hx hv => exact sound_finish h hx hv
  | receive caller tx value ha hv =>
    apply sound_withTask h (by simp) _ (by simp) (.inr (by simp [ha])) (by simp) _ (by simp [ha])
    intro value' hv'
    obtain rfl := Task.returned.inj hv'
    have hkey := (h.awaiting caller tx ha).1
    rw [← hkey]
    exact h.returned tx value hv
  | retry caller tx ha _ =>
    exact sound_withTask h (by simp) _ (by simp) (.inr (by simp [ha])) (by simp) (by simp) (by simp [ha])
  | drop caller hr => exact sound_withTask h (by simp) _ (by simp) (.inl rfl) (by simp) (by simp) hr

theorem sound_run (h : Run (Does persist key orElse) State.start events state) :
    Sound persist key orElse events state := by
  apply Run.holds (Sound persist key orElse) _ (fun _ _ _ _ => sound_does) h
  refine ⟨?_, ?_, ?_, ?_, ?_, ?_⟩ <;> simp [State.start]

end

end

end Gqlforge.Dedupe
