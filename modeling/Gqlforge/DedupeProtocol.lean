import Gqlforge.DedupeRuns

namespace Gqlforge.Dedupe

open Runs

section

variable {Key Caller Value : Type} [DecidableEq Key] [DecidableEq Caller]

/-- A call can be polled on: it is about to look at the cache, or what it waits for has come or is gone. -/
def State.Ready (state : State Key Caller Value) (caller : Caller) : Prop :=
  state.task caller = .waiting ∨ ∃ tx, state.task caller = .awaiting tx ∧
    (state.task tx = .dropped ∨ ∃ value, state.task tx = .returned value)

def Event.Polls (event : Event Caller Value) (caller : Caller) : Prop :=
  event = .ask caller ∨ event = .retry caller ∨ ∃ value, event = .receive caller value

def State.Orphaned (key : Caller → Key) (state : State Key Caller Value) (caller : Caller) : Prop :=
  state.cache (key caller) = some (.pending caller) ∧ state.task caller = .dropped

variable (persist : Bool) (key : Caller → Key) (orElse : Caller → Value → Prop)

def Fair (run : Forever (Does persist key orElse) State.start) : Prop :=
  ∀ caller n, ∃ m, n ≤ m ∧
    (¬ (run.state m).Ready caller ∨ ∃ event, run.event m = some event ∧ event.Polls caller)

structure Promised (events : List (Event Caller Value)) (state : State Key Caller Value) : Prop where
  exclusive : ∀ caller other, key caller = key other → state.task caller = .executing →
    state.task other = .executing → caller = other
  produced : ∀ caller value, state.task caller = .returned value →
    ∃ maker, key maker = key caller ∧ orElse maker value ∧ .finish maker value ∈ events
  once : persist = true → ∀ maker value, .finish maker value ∈ events → ∀ caller, key caller = key maker →
    state.task caller ≠ .executing
  subscribed : ∀ caller tx, state.task caller = .awaiting tx → state.task tx = .executing ∨
    ∃ event state', event.Polls caller ∧ Does persist key orElse state event state'
  cancelled : ∀ caller events' state', state.task caller = .executing →
    Run (Does persist key orElse) (state.withTask caller .dropped) events' state' →
    (∀ other, key other = key caller → .ask other ∉ events') → ∀ other, key other = key caller →
    (state'.task other = .awaiting caller →
      Does persist key orElse state' (.retry other) (state'.withTask other .waiting)) ∧
    (state'.task other = .waiting → (state'.ask (key other) other).task other = .executing)

variable {persist key orElse}
variable {events : List (Event Caller Value)} {state state' : State Key Caller Value} {caller other : Caller}

omit [DecidableEq Key] [DecidableEq Caller] in
theorem executing_unique (h : Sound persist key orElse events state) (hk : key caller = key other)
    (hc : state.task caller = .executing) (ho : state.task other = .executing) : caller = other := by
  have hcc := h.executing caller hc
  have hco := h.executing other ho
  rw [hk, hco] at hcc
  exact (Entry.pending.inj (Option.some.inj hcc)).symm

omit [DecidableEq Key] in
theorem orphaned_drop (h : Sound persist key orElse events state) (hx : state.task caller = .executing) :
    (state.withTask caller .dropped).Orphaned key caller :=
  ⟨h.executing caller hx, withTask_self _⟩

theorem orphaned_does {event : Event Caller Value} (h : Sound persist key orElse events state)
    (ho : state.Orphaned key caller) (hd : Does persist key orElse state event state')
    (hevent : ∀ other, key other = key caller → event ≠ .ask other) : state'.Orphaned key caller := by
  obtain ⟨hc, ht⟩ := ho
  cases hd with
  | ask other hw =>
    have hk : key other ≠ key caller := fun hk => hevent other hk rfl
    have hne : caller ≠ other := by
      intro he
      simp [he, hw] at ht
    rcases ask_cases state (key other) other with ⟨value, -, he⟩ | ⟨tx, -, -, he⟩ | ⟨-, -, he⟩
    · rw [he]
      exact ⟨hc, by rw [withTask_of_ne hne, ht]⟩
    · rw [he]
      exact ⟨hc, by rw [withTask_of_ne hne, ht]⟩
    · rw [he]
      exact ⟨by simpa [hk.symm] using hc, by simpa [hne] using ht⟩
  | finish other value hx hv =>
    have hne : caller ≠ other := by
      intro he
      simp [he, hx] at ht
    have hk : key caller ≠ key other := by
      intro hk
      have hco := h.executing other hx
      rw [← hk, hc] at hco
      exact hne (Entry.pending.inj (Option.some.inj hco))
    exact ⟨by simpa [State.finish, hk] using hc, by simpa [State.finish, hne] using ht⟩
  | receive other tx value ha _ =>
    have hne : caller ≠ other := by
      intro he
      simp [he, ha] at ht
    exact ⟨hc, by rw [withTask_of_ne hne, ht]⟩
  | retry other tx ha _ =>
    have hne : caller ≠ other := by
      intro he
      simp [he, ha] at ht
    exact ⟨hc, by rw [withTask_of_ne hne, ht]⟩
  | drop other _ =>
    refine ⟨hc, ?_⟩
    by_cases he : caller = other
    · rw [he, withTask_self]
    · rw [withTask_of_ne he, ht]

theorem orphaned_run {events' : List (Event Caller Value)} (h : Sound persist key orElse events state)
    (ho : state.Orphaned key caller) (hr : Run (Does persist key orElse) state events' state')
    (hevents : ∀ other, key other = key caller → .ask other ∉ events') : state'.Orphaned key caller := by
  have hkept : Sound persist key orElse (events ++ events') state' ∧
      ((∀ other, key other = key caller → .ask other ∉ events') → state'.Orphaned key caller) := by
    apply Run.holds (fun events' state' => Sound persist key orElse (events ++ events') state' ∧
      ((∀ other, key other = key caller → .ask other ∉ events') → state'.Orphaned key caller)) _ _ hr
    · exact ⟨by simpa using h, fun _ => ho⟩
    · rintro events' state' event state'' ⟨hs, hi⟩ hd
      refine ⟨by simpa using sound_does hs hd, ?_⟩
      intro hn
      apply orphaned_does hs (hi _) hd
      · intro other hk he
        exact hn other hk (by simp [he])
      · intro other hk hm
        exact hn other hk (List.mem_append_left _ hm)
  exact hkept.2 hevents

theorem orphaned_ask (ho : state.Orphaned key caller) (hk : key other = key caller) :
    (state.ask (key other) other).task other = .executing := by
  have hi : state.ask (key other) other = ⟨Function.update state.cache (key other) (some (.pending other)),
      Function.update state.task other .executing⟩ := by
    apply ask_of_idle
    · intro value hr
      rw [hk, ho.1] at hr
      simp at hr
    · intro tx hp hx
      rw [hk, ho.1] at hp
      have he : caller = tx := Entry.pending.inj (Option.some.inj hp)
      rw [← he, ho.2] at hx
      simp at hx
  simp [hi]

theorem promised (h : Run (Does persist key orElse) State.start events state) :
    Promised persist key orElse events state := by
  have hs := sound_run h
  refine ⟨fun _ _ => executing_unique hs, hs.returned, ?_, ?_, ?_⟩
  · intro hp maker value hm caller hk hx
    obtain ⟨value', hr⟩ := hs.kept hp maker value hm
    have hc := hs.executing caller hx
    rw [hk, hr] at hc
    simp at hc
  · intro caller tx ha
    rcases (hs.awaiting caller tx ha).2 with hx | hd | ⟨value, hv⟩
    · exact .inl hx
    · exact .inr ⟨.retry caller, _, .inr (.inl rfl), .retry state caller tx ha hd⟩
    · exact .inr ⟨.receive caller value, _, .inr (.inr ⟨value, rfl⟩), .receive state caller tx value ha hv⟩
  · intro caller events' state' hx hr hn other hk
    have hdrop : Does persist key orElse state (.drop caller) (state.withTask caller .dropped) :=
      .drop state caller (by simp [hx])
    have ho := orphaned_run (sound_does hs hdrop) (orphaned_drop hs hx) hr hn
    constructor
    · intro ha
      exact .retry state' other caller ha ho.2
    · intro _
      exact orphaned_ask ho hk

section

variable (run : Forever (Does persist key orElse) State.start) {waiter : Caller} {n m : ℕ}

def Bereft (key : Caller → Key) (state : State Key Caller Value) (caller waiter : Caller) : Prop :=
  state.Orphaned key caller ∧ (state.task waiter = .awaiting caller ∨ state.task waiter = .waiting)

omit [DecidableEq Key] [DecidableEq Caller] in
theorem ready_of_bereft (h : Bereft key state caller waiter) : state.Ready waiter := by
  obtain ⟨ho, ha | hw⟩ := h
  · exact .inr ⟨caller, ha, .inl ho.2⟩
  · exact .inl hw

theorem not_ask_of_idle (ho : state.Orphaned key caller) {event : Event Caller Value}
    (hd : Does persist key orElse state event state')
    (hidle : ∀ other, key other = key caller → state'.task other ≠ .executing) (hk : key other = key caller) :
    event ≠ .ask other := by
  intro he
  subst he
  cases hd
  exact hidle other hk (orphaned_ask ho hk)

theorem bereft_does {event : Event Caller Value} (h : Sound persist key orElse events state)
    (hb : Bereft key state caller waiter) (hk : key waiter = key caller)
    (hd : Does persist key orElse state event state')
    (hidle : ∀ other, key other = key caller → state'.task other ≠ .executing) (hlive : state'.task waiter ≠ .dropped) :
    Bereft key state' caller waiter ∧ (state.task waiter = .waiting ∨ event.Polls waiter →
      state'.task waiter = .waiting) := by
  have hask : ∀ other, key other = key caller → event ≠ .ask other := by
    intro other hk'
    exact not_ask_of_idle hb.1 hd hidle hk'
  have ho := orphaned_does h hb.1 hd hask
  have hcaller := hb.1.2
  have hstay : state'.task waiter = state.task waiter → ¬ event.Polls waiter →
      Bereft key state' caller waiter ∧ (state.task waiter = .waiting ∨ event.Polls waiter →
        state'.task waiter = .waiting) := by
    intro he hp
    refine ⟨⟨ho, he ▸ hb.2⟩, ?_⟩
    rintro (hw | hp')
    · rw [he, hw]
    · exact absurd hp' hp
  cases hd with
  | ask other hw =>
    have hne : waiter ≠ other := by
      intro he
      exact hask other (he ▸ hk) rfl
    apply hstay
    · rcases ask_cases state (key other) other with ⟨value, -, he⟩ | ⟨tx, -, -, he⟩ | ⟨-, -, he⟩ <;>
        rw [he] <;> simp [State.withTask, hne]
    · simpa [Event.Polls] using hne.symm
  | finish other value hx _ =>
    have hne : waiter ≠ other := by
      intro he
      rcases hb.2 with ha | hw
      · simp [he, hx] at ha
      · simp [he, hx] at hw
    apply hstay
    · simp [State.finish, hne]
    · simp [Event.Polls]
  | receive other tx value ha hv =>
    have hne : waiter ≠ other := by
      intro he
      rcases hb.2 with hb' | hw
      · rw [he, ha] at hb'
        rw [Task.awaiting.inj hb', hcaller] at hv
        simp at hv
      · simp [he, ha] at hw
    apply hstay (withTask_of_ne hne _)
    simpa [Event.Polls] using hne.symm
  | retry other tx ha _ =>
    by_cases he : waiter = other
    · subst he
      exact ⟨⟨ho, .inr (withTask_self _)⟩, fun _ => withTask_self _⟩
    · apply hstay (withTask_of_ne he _)
      simpa [Event.Polls] using Ne.symm he
  | drop other _ =>
    have hne : waiter ≠ other := by
      intro he
      exact hlive (by rw [he, withTask_self])
    apply hstay (withTask_of_ne hne _)
    simp [Event.Polls]

theorem sound_forever (n : ℕ) : ∃ events, Sound persist key orElse events (run.state n) := by
  obtain ⟨events, h⟩ := run.reached n
  exact ⟨events, sound_run h⟩

theorem bereft_executes (hfair : Fair persist key orElse run) (hb : Bereft key (run.state n) caller waiter)
    (hk : key waiter = key caller) :
    ∃ m, n < m ∧ ((run.state m).task waiter = .dropped ∨
      ∃ other, key other = key caller ∧ (run.state m).task other = .executing) := by
  by_contra hnone
  have hlive : ∀ m, n < m → (run.state m).task waiter ≠ .dropped :=
    fun m hm hd => hnone ⟨m, hm, .inl hd⟩
  have hidle : ∀ m, n < m → ∀ other, key other = key caller → (run.state m).task other ≠ .executing :=
    fun m hm other hk' hx => hnone ⟨m, hm, .inr ⟨other, hk', hx⟩⟩
  have hstep : ∀ m event, n ≤ m → Bereft key (run.state m) caller waiter →
      Does persist key orElse (run.state m) event (run.state (m + 1)) →
      Bereft key (run.state (m + 1)) caller waiter ∧
        ((run.state m).task waiter = .waiting ∨ event.Polls waiter → (run.state (m + 1)).task waiter = .waiting) := by
    intro m event hm hbm hd
    obtain ⟨events, hs⟩ := sound_forever run m
    exact bereft_does hs hbm hk hd (hidle (m + 1) (by omega)) (hlive (m + 1) (by omega))
  have hall : ∀ m, n ≤ m → Bereft key (run.state m) caller waiter := by
    intro m hm
    exact run.holds_from (Bereft key · caller waiter) hb (fun m event hm hbm hd => (hstep m event hm hbm hd).1) hm
  have hpoll : ∀ m, n ≤ m → ∃ m' event, m ≤ m' ∧ run.event m' = some event ∧ event.Polls waiter := by
    intro m hm
    obtain ⟨m', hm', hr | ⟨event, he, hp⟩⟩ := hfair waiter m
    · exact absurd (ready_of_bereft (hall m' (by omega))) hr
    · exact ⟨m', event, hm', he, hp⟩
  -- the first poll finds the sender gone, the second one asks
  obtain ⟨first, event, hfirst, he, hp⟩ := hpoll n (le_refl n)
  have hw : (run.state (first + 1)).task waiter = .waiting :=
    (hstep first event hfirst (hall first hfirst) (run.does_of_event he)).2 (.inr hp)
  have hwait : ∀ m, first + 1 ≤ m → (run.state m).task waiter = .waiting := by
    intro m hm
    apply run.holds_from (·.task waiter = .waiting) hw _ hm
    intro m event hm hwm hd
    exact (hstep m event (by omega) (hall m (by omega)) hd).2 (.inl hwm)
  obtain ⟨second, event', hsecond, he', hp'⟩ := hpoll (first + 1) (by omega)
  have hd' := run.does_of_event he'
  have hws := hwait second hsecond
  have hidle' := hidle (second + 1) (by omega)
  generalize run.state (second + 1) = state' at hd' hidle'
  rcases hp' with rfl | rfl | ⟨value, rfl⟩
  · exact not_ask_of_idle (hall second (by omega)).1 hd' hidle' hk rfl
  · cases hd' with
    | retry _ tx ha _ => simp [hws] at ha
  · cases hd' with
    | receive _ tx _ ha _ => simp [hws] at ha

end

end

end Gqlforge.Dedupe
