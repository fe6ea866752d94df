import Mathlib.Order.Nat

namespace Gqlforge.Runs

section

variable {State Event : Type} {does does' : State → Event → State → Prop}

inductive Run (does : State → Event → State → Prop) (start : State) : List Event → State → Prop
  | nil : Run does start [] start
  | snoc {events : List Event} {state state' : State} {event : Event} (h : Run does start events state)
      (hlast : does state event state') : Run does start (events ++ [event]) state'

namespace Run

variable {start state : State} {events : List Event}

theorem holds (inv : List Event → State → Prop) (hstart : inv [] start)
    (hstep : ∀ events state event state', inv events state → does state event state' → inv (events ++ [event]) state')
    (h : Run does start events state) : inv events state := by
  induction h with
  | nil => exact hstart
  | snoc _ hlast ih => exact hstep _ _ _ _ ih hlast

theorem single {event : Event} (h : does start event state) : Run does start [event] state :=
  snoc nil h

theorem mono (hd : ∀ state event state', does state event state' → does' state event state')
    (h : Run does start events state) : Run does' start events state := by
  induction h with
  | nil => exact nil
  | snoc _ hlast ih => exact ih.snoc (hd _ _ _ hlast)

end Run

structure Forever (does : State → Event → State → Prop) (start : State) where
  state : ℕ → State
  event : ℕ → Option Event
  first : state 0 = start
  step : ∀ n, match event n with
    | some event => does (state n) event (state (n + 1))
    | none => state (n + 1) = state n

namespace Forever

variable {start : State} (run : Forever does start)

theorem reached (n : ℕ) : ∃ events, Run does start events (run.state n) := by
  induction n with
  | zero =>
    rw [run.first]
    exact ⟨[], .nil⟩
  | succ n ih =>
    obtain ⟨events, h⟩ := ih
    have hs := run.step n
    cases he : run.event n with
    | none =>
      rw [he] at hs
      exact ⟨events, hs ▸ h⟩
    | some event =>
      rw [he] at hs
      exact ⟨events ++ [event], h.snoc hs⟩

theorem holds_from (inv : State → Prop) {n : ℕ} (hn : inv (run.state n))
    (hstep : ∀ m event, n ≤ m → inv (run.state m) → does (run.state m) event (run.state (m + 1)) →
      inv (run.state (m + 1))) {m : ℕ} (hm : n ≤ m) : inv (run.state m) := by
  induction m, hm using Nat.le_induction with
  | base => exact hn
  | succ m hm ih =>
    have hs := run.step m
    cases he : run.event m with
    | none =>
      rw [he] at hs
      exact hs ▸ ih
    | some event =>
      rw [he] at hs
      exact hstep m event hm ih hs

theorem does_of_event {n : ℕ} {event : Event} (h : run.event n = some event) :
    does (run.state n) event (run.state (n + 1)) := by
  have hs := run.step n
  rw [h] at hs
  exact hs

end Forever

end

end Gqlforge.Runs
