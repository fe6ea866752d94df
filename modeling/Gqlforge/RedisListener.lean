import Gqlforge.Runs

namespace Gqlforge.RedisListener

open Runs

inductive Driver (Channel : Type) where
  | connecting
  | resubscribing (due : Channel → Option ℕ) (done : Channel → Bool)
  | publishing
  | streaming
  | closing
  | sleeping

inductive Task where
  | waiting
  | ready
  | registered (tx : ℕ)
  | subscribed (tx : ℕ)
  | live (tx : ℕ)
  | dropping
  | ended
  deriving DecidableEq

structure State (Channel Caller : Type) where
  driver : Driver Channel
  up : Bool
  sink : Bool
  senders : Channel → Option ℕ
  created : ℕ
  task : Caller → Task
  server : Channel → Bool
  unsubscribing : Channel → ℕ

inductive Event (Channel Caller : Type) where
  | connect
  | refuse
  | resubscribe (channel : Channel) (result : Bool)
  | finish
  | publish
  | message (channel : Channel)
  | lost
  | close
  | clear
  | wake
  | unsubscribe (channel : Channel)
  | see (caller : Caller)
  | register (caller : Caller)
  | subscribe (caller : Caller)
  | fail (caller : Caller)
  | attach (caller : Caller)
  | drop (caller : Caller)
  | guard (caller : Caller)

section

variable {Channel Caller : Type} [DecidableEq Channel] [DecidableEq Caller]

namespace State

def start : State Channel Caller where
  driver := .connecting
  up := false
  sink := false
  senders _ := none
  created := 0
  task _ := .waiting
  server _ := false
  unsubscribing _ := 0

def withTask (state : State Channel Caller) (caller : Caller) (task : Task) : State Channel Caller :=
  { state with task := Function.update state.task caller task }

def register (state : State Channel Caller) (channel : Channel) (caller : Caller) : State Channel Caller :=
  match state.senders channel with
  | some tx => state.withTask caller (.registered tx)
  | none =>
    { state.withTask caller (.registered state.created) with
      senders := Function.update state.senders channel (some state.created)
      created := state.created + 1 }

def remove (state : State Channel Caller) (channel : Channel) : State Channel Caller :=
  { state with
    senders := Function.update state.senders channel none
    unsubscribing := Function.update state.unsubscribing channel (state.unsubscribing channel + 1) }

def unsubscribe (state : State Channel Caller) (channel : Channel) : State Channel Caller :=
  { state with
    unsubscribing := Function.update state.unsubscribing channel (state.unsubscribing channel - 1)
    server := if state.sink && state.up then Function.update state.server channel false else state.server }

end State

variable (channel : Caller → Channel)

inductive Does : State Channel Caller → Event Channel Caller → State Channel Caller → Prop
  | connect (state : State Channel Caller) (h : state.driver = .connecting) :
    Does state .connect
      { state with driver := .resubscribing state.senders (fun _ => false), up := true, server := fun _ => false }
  | refuse (state : State Channel Caller) (h : state.driver = .connecting) :
    Does state .refuse { state with driver := .sleeping }
  | resubscribe (state : State Channel Caller) (due : Channel → Option ℕ) (done : Channel → Bool) (ch : Channel)
      (result : Bool) (h : state.driver = .resubscribing due done) (hs : state.senders ch ≠ none)
      (hr : result = true → state.up = true) :
    Does state (.resubscribe ch result)
      { state with
        driver := .resubscribing due (Function.update done ch true)
        server := if result then Function.update state.server ch true else state.server }
  -- what is registered during the iteration may be missed
  | finish (state : State Channel Caller) (due : Channel → Option ℕ) (done : Channel → Bool)
      (h : state.driver = .resubscribing due done)
      (hd : ∀ ch tx, due ch = some tx → state.senders ch = some tx → done ch = true) :
    Does state .finish { state with driver := .publishing }
  | publish (state : State Channel Caller) (h : state.driver = .publishing) :
    Does state .publish { state with driver := .streaming, sink := true }
  | message (state : State Channel Caller) (ch : Channel) (h : state.driver = .streaming) (hs : state.server ch = true) :
    Does state (.message ch) state
  | lost (state : State Channel Caller) : Does state .lost { state with up := false, server := fun _ => false }
  | close (state : State Channel Caller) (h : state.driver = .streaming) (hu : state.up = false) :
    Does state .close { state with driver := .closing }
  | clear (state : State Channel Caller) (h : state.driver = .closing) :
    Does state .clear { state with driver := .sleeping, sink := false }
  | wake (state : State Channel Caller) (h : state.driver = .sleeping) :
    Does state .wake { state with driver := .connecting }
  | unsubscribe (state : State Channel Caller) (ch : Channel) (h : 0 < state.unsubscribing ch) :
    Does state (.unsubscribe ch) (state.unsubscribe ch)
  | see (state : State Channel Caller) (caller : Caller) (h : state.task caller = .waiting) (hs : state.sink = true) :
    Does state (.see caller) (state.withTask caller .ready)
  | register (state : State Channel Caller) (caller : Caller) (h : state.task caller = .ready) :
    Does state (.register caller) (state.register (channel caller) caller)
  | subscribe (state : State Channel Caller) (caller : Caller) (tx : ℕ) (h : state.task caller = .registered tx)
      (hs : state.sink = true) (hu : state.up = true) :
    Does state (.subscribe caller)
      { state.withTask caller (.subscribed tx) with server := Function.update state.server (channel caller) true }
  -- without a sink, or by an error of the server; the guard goes with the call
  | fail (state : State Channel Caller) (caller : Caller) (tx : ℕ) (h : state.task caller = .registered tx) :
    Does state (.fail caller) (state.withTask caller .dropping)
  | attach (state : State Channel Caller) (caller : Caller) (tx : ℕ) (h : state.task caller = .subscribed tx) :
    Does state (.attach caller) (state.withTask caller (.live tx))
  | drop (state : State Channel Caller) (caller : Caller) (h : state.task caller = .waiting ∨ state.task caller = .ready) :
    Does state (.drop caller) (state.withTask caller .ended)
  -- the receiver is dropped first
  | dropRegistered (state : State Channel Caller) (caller : Caller) (tx : ℕ)
      (h : state.task caller = .registered tx ∨ state.task caller = .subscribed tx ∨ state.task caller = .live tx) :
    Does state (.drop caller) (state.withTask caller .dropping)
  | guardRemove (state : State Channel Caller) (caller : Caller) (tx : ℕ) (h : state.task caller = .dropping)
      (hs : state.senders (channel caller) = some tx) (hr : ∀ other, state.task other ≠ .live tx) :
    Does state (.guard caller) ((state.withTask caller .ended).remove (channel caller))
  | guardKeep (state : State Channel Caller) (caller : Caller) (h : state.task caller = .dropping)
      (hs : ∀ tx, state.senders (channel caller) = some tx → ∃ other, state.task other = .live tx) :
    Does state (.guard caller) (state.withTask caller .ended)

/-- The receiver of a live subscription hangs on the sender that is stored for its channel, and the server knows of
the channel once no command is outstanding. -/
def Attached (state : State Channel Caller) : Prop :=
  ∀ caller tx, state.task caller = .live tx → state.senders (channel caller) = some tx ∧
    (state.driver = .streaming → state.up = true → state.unsubscribing (channel caller) = 0 →
      state.server (channel caller) = true)

/-- No entry is removed that a call is about to attach to, no channel is unsubscribed from behind a call that has
subscribed, and no subscription is refused when it is made anew. -/
def Undisturbed (state : State Channel Caller) : Event Channel Caller → Prop
  | .guard caller => ∀ tx, state.senders (channel caller) = some tx → (∃ other, state.task other = .live tx) ∨
      ∀ other, state.task other ≠ .registered tx ∧ state.task other ≠ .subscribed tx
  | .unsubscribe ch => state.sink = true → state.up = true → ∀ caller, channel caller = ch →
      ∀ tx, state.task caller ≠ .subscribed tx ∧ state.task caller ≠ .live tx
  | .resubscribe _ result => state.up = true → result = true
  | _ => True

def Task.Holds (task : Task) (tx : ℕ) : Prop :=
  task = .registered tx ∨ task = .subscribed tx ∨ task = .live tx

def Task.Asked (task : Task) (tx : ℕ) : Prop :=
  task = .subscribed tx ∨ task = .live tx

structure Kept (state : State Channel Caller) : Prop where
  stored : ∀ caller tx, (state.task caller).Holds tx → state.senders (channel caller) = some tx
  sink : state.sink = true → state.driver = .streaming ∨ state.driver = .closing
  known : state.driver = .publishing ∨ state.driver = .streaming → state.up = true → ∀ caller tx,
    (state.task caller).Asked tx → state.server (channel caller) = true
  resubscribed : ∀ due done, state.driver = .resubscribing due done →
    (∀ ch, done ch = true → state.up = true → state.server ch = true) ∧
    ∀ caller tx, (state.task caller).Asked tx → due (channel caller) = some tx

variable {channel} {state state' : State Channel Caller} {caller : Caller}

omit [DecidableEq Channel] [DecidableEq Caller] in
theorem holds_of_asked {task : Task} {tx : ℕ} (h : task.Asked tx) : task.Holds tx :=
  .inr h

omit [DecidableEq Channel] [DecidableEq Caller] in
theorem attached_of_kept (h : Kept channel state) : Attached channel state := by
  intro caller tx ht
  refine ⟨h.stored caller tx (.inr (.inr ht)), ?_⟩
  intro hd hu _
  exact h.known (.inr hd) hu caller tx (.inr ht)

omit [DecidableEq Channel] in
theorem withTask_of_ne {other : Caller} (h : other ≠ caller) (task : Task) :
    (state.withTask caller task).task other = state.task other := by
  simp [State.withTask, h]

omit [DecidableEq Channel] in
theorem kept_withTask (h : Kept channel state) (caller : Caller) {task : Task}
    (hholds : ∀ tx, task.Holds tx → (state.task caller).Holds tx ∨ state.senders (channel caller) = some tx)
    (hasked : ∀ tx, task.Asked tx → (state.task caller).Asked tx) : Kept channel (state.withTask caller task) := by
  have hself : (state.withTask caller task).task caller = task := by simp [State.withTask]
  have hask : ∀ other tx, ((state.withTask caller task).task other).Asked tx → (state.task other).Asked tx := by
    intro other tx ho
    by_cases he : other = caller
    · subst he
      rw [hself] at ho
      exact hasked tx ho
    · rwa [withTask_of_ne he] at ho
  refine ⟨?_, h.sink, ?_, ?_⟩
  · intro other tx ho
    by_cases he : other = caller
    · subst he
      rw [hself] at ho
      rcases hholds tx ho with hold | hs
      · exact h.stored other tx hold
      · exact hs
    · rw [withTask_of_ne he] at ho
      exact h.stored other tx ho
  · intro hd hu other tx ho
    exact h.known hd hu other tx (hask other tx ho)
  · intro due done hd
    obtain ⟨hdone, hdue⟩ := h.resubscribed due done hd
    exact ⟨hdone, fun other tx ho => hdue other tx (hask other tx ho)⟩

omit [DecidableEq Channel] in
theorem kept_letGo (h : Kept channel state) (caller : Caller) {task : Task} (hnone : ∀ tx, ¬ task.Holds tx) :
    Kept channel (state.withTask caller task) := by
  apply kept_withTask h caller
  · intro tx ht
    exact absurd ht (hnone tx)
  · intro tx ht
    exact absurd (holds_of_asked ht) (hnone tx)

omit [DecidableEq Channel] [DecidableEq Caller] in
theorem kept_driver (h : Kept channel state) {driver : Driver Channel} {sink : Bool}
    (hsink : sink = true → driver = .streaming ∨ driver = .closing)
    (hknown : driver = .publishing ∨ driver = .streaming → state.driver = .publishing ∨ state.driver = .streaming)
    (hre : ∀ due done, driver ≠ .resubscribing due done) :
    Kept channel { state with driver := driver, sink := sink } := by
  refine ⟨h.stored, hsink, ?_, ?_⟩
  · intro hd hu
    exact h.known (hknown hd) hu
  · intro due done hd
    exact absurd hd (hre due done)

omit [DecidableEq Channel] [DecidableEq Caller] in
theorem kept_finish (h : Kept channel state) {due : Channel → Option ℕ} {done : Channel → Bool}
    (hx : state.driver = .resubscribing due done)
    (hd : ∀ ch tx, due ch = some tx → state.senders ch = some tx → done ch = true) :
    Kept channel { state with driver := .publishing } := by
  obtain ⟨hdone, hdue⟩ := h.resubscribed due done hx
  refine ⟨h.stored, ?_, ?_, by simp⟩
  · intro hs
    have hold := h.sink hs
    simp [hx] at hold
  · intro _ hu caller tx ht
    have hs := h.stored caller tx (holds_of_asked ht)
    exact hdone _ (hd _ tx (hdue caller tx ht) hs) hu

omit [DecidableEq Caller] in
theorem kept_resubscribe (h : Kept channel state) {due : Channel → Option ℕ} {done : Channel → Bool} {ch : Channel}
    {result : Bool} (hx : state.driver = .resubscribing due done) (hr : state.up = true → result = true) :
    Kept channel
      { state with
        driver := .resubscribing due (Function.update done ch true)
        server := if result then Function.update state.server ch true else state.server } := by
  obtain ⟨hdone, hdue⟩ := h.resubscribed due done hx
  refine ⟨h.stored, ?_, by simp, ?_⟩
  · intro hs
    have hold := h.sink hs
    simp [hx] at hold
  · intro due' done' he
    obtain ⟨rfl, rfl⟩ := Driver.resubscribing.inj he
    refine ⟨?_, hdue⟩
    intro ch' hch hu
    have hres : result = true := hr hu
    by_cases heq : ch' = ch
    · simp [hres, heq]
    · have hold := hdone ch' (by simpa [heq] using hch) hu
      simpa [hres, heq] using hold

theorem kept_register (h : Kept channel state) (caller : Caller) :
    Kept channel (state.register (channel caller) caller) := by
  unfold State.register
  cases hs : state.senders (channel caller) with
  | some tx =>
    apply kept_withTask h caller
    · intro tx' ht
      simp only [Task.Holds, reduceCtorEq, or_false, Task.registered.injEq] at ht
      exact .inr (by rw [hs, ht])
    · intro tx' ht
      simp [Task.Asked] at ht
  | none =>
    have hask : ∀ other tx, ((state.withTask caller (.registered state.created)).task other).Asked tx →
        (state.task other).Asked tx := by
      intro other tx ho
      by_cases he : other = caller
      · subst he
        simp [State.withTask, Task.Asked] at ho
      · rwa [withTask_of_ne he] at ho
    refine ⟨?_, h.sink, ?_, ?_⟩
    · intro other tx ho
      by_cases he : other = caller
      · subst he
        simp only [State.withTask, Function.update_self, Task.Holds, reduceCtorEq, or_false,
          Task.registered.injEq] at ho
        simp [ho]
      · have ho' : (state.task other).Holds tx := by
          rwa [← withTask_of_ne he (.registered state.created)]
        have hst := h.stored other tx ho'
        have hne : channel other ≠ channel caller := by
          intro hc
          rw [hc, hs] at hst
          simp at hst
        simpa [hne] using hst
    · intro hd hu other tx ho
      exact h.known hd hu other tx (hask other tx ho)
    · intro due done hd
      obtain ⟨hdone, hdue⟩ := h.resubscribed due done hd
      exact ⟨hdone, fun other tx ho => hdue other tx (hask other tx ho)⟩

theorem kept_subscribe (h : Kept channel state) {tx : ℕ} (ht : state.task caller = .registered tx)
    (hs : state.sink = true) :
    Kept channel
      { state.withTask caller (.subscribed tx) with server := Function.update state.server (channel caller) true } := by
  have hstored := h.stored caller tx (.inl ht)
  refine ⟨?_, h.sink, ?_, ?_⟩
  · intro other tx' ho
    by_cases he : other = caller
    · subst he
      simp only [State.withTask, Function.update_self, Task.Holds, reduceCtorEq, or_false, false_or,
        Task.subscribed.injEq] at ho
      exact ho ▸ hstored
    · apply h.stored other tx'
      rwa [← withTask_of_ne he (.subscribed tx)]
  · intro hd hu other tx' ho
    by_cases hc : channel other = channel caller
    · simp [hc]
    · have he : other ≠ caller := by
        intro he
        exact hc (by rw [he])
      have hold := h.known hd hu other tx' (by rwa [← withTask_of_ne he (.subscribed tx)])
      simpa [hc] using hold
  · intro due done hd
    have hold := h.sink hs
    have hd' : state.driver = .resubscribing due done := hd
    simp [hd'] at hold

omit [DecidableEq Caller] in
theorem kept_remove (h : Kept channel state) {tx : ℕ} (hs : state.senders (channel caller) = some tx)
    (hnone : ∀ other, ¬ (state.task other).Holds tx) : Kept channel (state.remove (channel caller)) := by
  refine ⟨?_, h.sink, h.known, h.resubscribed⟩
  intro other tx' ho
  have hst := h.stored other tx' ho
  have hne : channel other ≠ channel caller := by
    intro hc
    rw [hc, hs] at hst
    exact hnone other (Option.some.inj hst ▸ ho)
  simpa [State.remove, hne] using hst

omit [DecidableEq Caller] in
theorem kept_unsubscribe (h : Kept channel state) {ch : Channel}
    (hu : state.sink = true → state.up = true → ∀ caller, channel caller = ch → ∀ tx, ¬ (state.task caller).Asked tx) :
    Kept channel (state.unsubscribe ch) := by
  have hserver : ∀ caller tx, state.up = true → (state.task caller).Asked tx →
      state.server (channel caller) = true → (state.unsubscribe ch).server (channel caller) = true := by
    intro caller tx hup ht hold
    by_cases hsink : state.sink = true
    · have hne : channel caller ≠ ch := fun hc => hu hsink hup caller hc tx ht
      simpa [State.unsubscribe, hsink, hup, hne] using hold
    · simpa [State.unsubscribe, hsink] using hold
  refine ⟨h.stored, h.sink, ?_, ?_⟩
  · intro hd hup caller tx ht
    exact hserver caller tx hup ht (h.known hd hup caller tx ht)
  · intro due done hd
    obtain ⟨hdone, hdue⟩ := h.resubscribed due done hd
    refine ⟨?_, hdue⟩
    intro ch' hch hup
    have hd' : state.driver = .resubscribing due done := hd
    have hsink : state.sink ≠ true := by
      intro hs
      have hold := h.sink hs
      simp [hd'] at hold
    simpa [State.unsubscribe, hsink] using hdone ch' hch hup

theorem kept_does {event : Event Channel Caller} (h : Kept channel state) (hu : Undisturbed channel state event)
    (hd : Does channel state event state') : Kept channel state' := by
  cases hd with
  | connect hx =>
    refine ⟨h.stored, ?_, by simp, ?_⟩
    · intro hs
      have hold := h.sink hs
      simp [hx] at hold
    · intro due done he
      obtain ⟨rfl, rfl⟩ := Driver.resubscribing.inj he
      exact ⟨by simp, fun caller tx ht => h.stored caller tx (holds_of_asked ht)⟩
  | refuse hx =>
    apply kept_driver h _ (by simp) (by simp)
    intro hs
    have hold := h.sink hs
    simp [hx] at hold
  | resubscribe due done ch result hx _ _ => exact kept_resubscribe h hx hu
  | finish due done hx hd => exact kept_finish h hx hd
  | publish hx => exact kept_driver h (by simp) (by simp [hx]) (by simp)
  | message => exact h
  | lost => exact ⟨h.stored, h.sink, by simp, fun due done hd => ⟨by simp, (h.resubscribed due done hd).2⟩⟩
  | close hx _ => exact kept_driver h (by simp) (by simp) (by simp)
  | clear hx => exact kept_driver h (by simp) (by simp) (by simp)
  | wake hx =>
    apply kept_driver h _ (by simp) (by simp)
    intro hs
    have hold := h.sink hs
    simp [hx] at hold
  | unsubscribe ch _ =>
    apply kept_unsubscribe h
    intro hs hup caller hc tx ht
    obtain ⟨hn, hl⟩ := hu hs hup caller hc tx
    exact ht.elim hn hl
  | see caller _ _ => exact kept_letGo h caller (by simp [Task.Holds])
  | register caller _ => exact kept_register h caller
  | subscribe caller tx ht hs _ => exact kept_subscribe h ht hs
  | fail caller tx _ => exact kept_letGo h caller (by simp [Task.Holds])
  | attach caller tx ht =>
    apply kept_withTask h caller
    · intro tx' hl
      simp only [Task.Holds, reduceCtorEq, false_or, Task.live.injEq] at hl
      exact .inl (.inr (.inl (by rw [ht, hl])))
    · intro tx' hl
      simp only [Task.Asked, reduceCtorEq, false_or, Task.live.injEq] at hl
      exact .inl (by rw [ht, hl])
  | drop caller _ => exact kept_letGo h caller (by simp [Task.Holds])
  | dropRegistered caller tx _ => exact kept_letGo h caller (by simp [Task.Holds])
  | guardRemove caller tx _ hs hr =>
    have hgone : Kept channel (state.withTask caller .ended) := kept_letGo h caller (by simp [Task.Holds])
    apply kept_remove hgone hs
    intro other ho
    by_cases he : other = caller
    · subst he
      simp [State.withTask, Task.Holds] at ho
    · rw [withTask_of_ne he] at ho
      rcases hu tx hs with ⟨live, hl⟩ | hn
      · exact hr live hl
      · rcases ho with ho | ho | ho
        · exact (hn other).1 ho
        · exact (hn other).2 ho
        · exact hr other ho
  | guardKeep caller _ _ => exact kept_letGo h caller (by simp [Task.Holds])

/-- Subscriptions are kept in every run in which no entry is removed under a call that is about to attach to it, no
UNSUBSCRIBE overtakes a later SUBSCRIBE, and no re-subscription is refused. -/
theorem subscriptions_attached (channel : Caller → Channel) (events : List (Event Channel Caller))
    (state : State Channel Caller)
    (h : Run (fun s e s' => Undisturbed channel s e ∧ Does channel s e s') State.start events state) :
    Attached channel state := by
  apply attached_of_kept
  apply Run.holds (fun _ => Kept channel) _ (fun _ _ _ _ hk hd => kept_does hk hd.1 hd.2) h
  refine ⟨by simp [State.start, Task.Holds], by simp [State.start], by simp [State.start], by simp [State.start]⟩

end

theorem undisturbed_snoc {events : List (Event Unit Bool)} {state state' : State Unit Bool} {event : Event Unit Bool}
    (h : Run (fun s e s' => Undisturbed (fun _ => ()) s e ∧ Does (fun _ => ()) s e s') State.start events state)
    (hd : Does (fun _ => ()) state event state') (hu : Undisturbed (fun _ => ()) state event) :
    Run (fun s e s' => Undisturbed (fun _ => ()) s e ∧ Does (fun _ => ()) s e s') State.start (events ++ [event]) state' :=
  h.snoc ⟨hu, hd⟩

theorem subscriptions_attached_one : ∃ events state,
    Run (Does fun _ => ()) (State.start : State Unit Bool) events state ∧ state.task true = .live 0 ∧
    Attached (fun _ => ()) state := by
  have h1 := undisturbed_snoc .nil (.connect _ rfl) trivial
  have h2 := undisturbed_snoc h1 (.finish _ _ _ rfl nofun) trivial
  have h3 := undisturbed_snoc h2 (.publish _ rfl) trivial
  have h4 := undisturbed_snoc h3 (.see _ true rfl rfl) trivial
  have h5 := undisturbed_snoc h4 (.register _ true rfl) trivial
  have h6 := undisturbed_snoc h5 (.subscribe _ true 0 rfl rfl rfl) trivial
  have h7 := undisturbed_snoc h6 (.attach _ true 0 rfl) trivial
  exact ⟨_, _, h7.mono fun _ _ _ hd => hd.2, rfl, subscriptions_attached _ _ _ h7⟩

theorem subscription_lost : ¬ ∀ events (state : State Unit Bool), Run (Does fun _ => ()) State.start events state →
    Attached (fun _ => ()) state := by
  intro hall
  have h1 : Run (Does fun _ => ()) (State.start : State Unit Bool) _ _ := .single (.connect _ rfl)
  have h2 := h1.snoc (.finish _ _ _ rfl nofun)
  have h3 := h2.snoc (.publish _ rfl)
  have h4 := h3.snoc (.see _ true rfl rfl)
  have h5 := h4.snoc (.register _ true rfl)
  have h6 := h5.snoc (.subscribe _ true 0 rfl rfl rfl)
  have h7 := h6.snoc (.attach _ true 0 rfl)
  have h8 := h7.snoc (.see _ false rfl rfl)
  have h9 := h8.snoc (.register _ false rfl)
  have h10 := h9.snoc (.subscribe _ false 0 rfl rfl rfl)
  have h11 := h10.snoc (.dropRegistered _ true 0 (.inr (.inr rfl)))
  have h12 := h11.snoc (.guardRemove _ true 0 rfl rfl (by decide))
  have h13 := h12.snoc (.attach _ false 0 rfl)
  have hs : none = some 0 := (hall _ _ h13 false 0 rfl).1
  exact absurd hs (by simp)

end Gqlforge.RedisListener
