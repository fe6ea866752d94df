import Gqlforge.PostgresListener

namespace Gqlforge.PostgresListener

open Runs

section

variable {Channel Caller : Type} [DecidableEq Channel] [DecidableEq Caller]

/-- The driver reissues nothing, and the client that it has stored is not taken from it before it polls. -/
def Unbroken (state : State Channel Caller) : Event Channel Caller → Prop
  | .next _ => False
  | .listen _ => ∀ conn, state.driver ≠ .stored conn
  | _ => True

variable (channel : Caller → Channel)

/-- The driver can take a step, or a call that holds the client is about to give it back. -/
def Moves (state : State Channel Caller) : Prop :=
  (∃ event state', event.ByDriver ∧ Does channel state event state') ∨
    ∃ caller conn result, state.lock = .caller caller ∧ state.task caller = .listening conn (some result)

def Listens (state : State Channel Caller) : Prop :=
  ∀ conn, state.driver = .polling conn → ∀ caller, state.task caller = .subscribed →
    state.listened (channel caller) = true

def Wedged (state : State Channel Caller) : Prop :=
  (∃ conn due reissued ch, state.driver = .listening conn due reissued ch none) ∨
    ∃ conn caller, state.driver = .stored conn ∧ state.lock = .caller caller ∧
      state.task caller = .listening conn none

structure Smooth (state : State Channel Caller) : Prop where
  reissue : ∀ conn due reissued ch answer, state.driver ≠ .listening conn due reissued ch answer
  reissuing : ∀ conn due reissued, state.driver = .reissuing conn due reissued → state.lock = .driver ∧
    (∀ ch, reissued ch = false) ∧ (∀ ch, due ch = true → state.senders ch = true) ∧
    ∀ caller, state.task caller = .subscribed → due (channel caller) = true
  held : state.lock = .driver → ∃ conn due reissued, state.driver = .reissuing conn due reissued
  holder : ∀ caller, state.lock = .caller caller ↔ ∃ conn answer, state.task caller = .listening conn answer
  inFlight : ∀ caller conn, state.task caller = .listening conn none → state.driver = .polling conn
  registered : ∀ caller, state.task caller = .subscribed ∨ state.task caller = .registered ∨
    (∃ conn answer, state.task caller = .listening conn answer) → state.senders (channel caller) = true
  client : ∀ conn, state.client = some conn → conn < state.connections ∧ state.driver ≠ .connected conn
  connected : ∀ conn, state.driver = .connected conn → conn < state.connections
  listened : ∀ conn, state.driver = .polling conn → ∀ caller, (state.task caller = .subscribed ∨
    ∃ conn', state.task caller = .listening conn' (some true)) → state.listened (channel caller) = true

variable {channel} {state state' : State Channel Caller} {caller : Caller}

theorem moves_of_smooth (h : Smooth channel state) : Moves channel state := by
  have hlock : state.lock ≠ .driver → (∀ conn, state.driver ≠ .polling conn) → state.lock ≠ .free →
      ∃ caller conn result, state.lock = .caller caller ∧ state.task caller = .listening conn (some result) := by
    intro hd hp hf
    cases hl : state.lock with
    | free => exact absurd hl hf
    | driver => exact absurd hl hd
    | caller caller =>
      obtain ⟨conn, answer, ht⟩ := (h.holder caller).mp hl
      cases answer with
      | none => exact absurd (h.inFlight caller conn ht) (hp conn)
      | some result => exact ⟨caller, conn, result, rfl, ht⟩
  cases hd : state.driver with
  | connecting => exact .inl ⟨.connect, _, trivial, .connect state hd⟩
  | connected conn =>
    by_cases hl : state.lock = .free
    · exact .inl ⟨.store, _, trivial, .store state conn hd hl⟩
    · apply Or.inr
      apply hlock _ (by simp [hd]) hl
      intro hld
      obtain ⟨_, _, _, hx⟩ := h.held hld
      simp [hd] at hx
  | stored conn =>
    by_cases hl : state.lock = .free
    · exact .inl ⟨.reissue, _, trivial, .reissue state conn hd hl⟩
    · apply Or.inr
      apply hlock _ (by simp [hd]) hl
      intro hld
      obtain ⟨_, _, _, hx⟩ := h.held hld
      simp [hd] at hx
  | reissuing conn due reissued =>
    obtain ⟨-, hr, hs, -⟩ := h.reissuing conn due reissued hd
    by_cases hdue : ∃ ch, due ch = true
    · obtain ⟨ch, hch⟩ := hdue
      exact .inl ⟨.next ch, _, trivial, .next state conn due reissued ch hd (hs ch hch) (hr ch)⟩
    · exact .inl ⟨.finish, _, trivial, .finish state conn due reissued hd fun ch hch => absurd ⟨ch, hch⟩ hdue⟩
  | listening conn due reissued ch answer => exact absurd hd (h.reissue conn due reissued ch answer)
  | polling conn => exact .inl ⟨.message, _, trivial, .message state conn hd⟩
  | sleeping => exact .inl ⟨.wake, _, trivial, .wake state hd⟩

omit [DecidableEq Channel] [DecidableEq Caller] in
theorem not_inFlight (h : Smooth channel state) (hd : ∀ conn, state.driver ≠ .polling conn) (caller : Caller)
    (conn : ℕ) : state.task caller ≠ .listening conn none :=
  fun ht => hd conn (h.inFlight caller conn ht)

omit [DecidableEq Channel] [DecidableEq Caller] in
theorem smooth_driver (h : Smooth channel state) {driver : Driver Channel} {client : Option ℕ} {connections : ℕ}
    (hold : (∀ conn, state.driver ≠ .polling conn) ∧ ∀ conn due reissued, state.driver ≠ .reissuing conn due reissued)
    (hnew : driver = .connecting ∨ driver = .sleeping ∨ (∃ conn, driver = .connected conn) ∨
      ∃ conn, driver = .stored conn)
    (hconnected : ∀ conn, driver = .connected conn → conn < connections)
    (hclient : ∀ conn, client = some conn → conn < connections ∧ driver ≠ .connected conn) :
    Smooth channel { state with driver := driver, client := client, connections := connections } := by
  refine ⟨?_, ?_, ?_, h.holder, ?_, h.registered, hclient, hconnected, ?_⟩
  · rintro conn due reissued ch answer he
    obtain hn | hn | ⟨_, hn⟩ | ⟨_, hn⟩ := hnew <;> simp [hn] at he
  · intro conn due reissued he
    obtain hn | hn | ⟨_, hn⟩ | ⟨_, hn⟩ := hnew <;> simp [hn] at he
  · intro hl
    obtain ⟨conn, due, reissued, he⟩ := h.held hl
    exact absurd he (hold.2 conn due reissued)
  · intro caller conn ht
    exact absurd ht (not_inFlight h hold.1 caller conn)
  · intro conn he
    obtain hn | hn | ⟨_, hn⟩ | ⟨_, hn⟩ := hnew <;> simp [hn] at he

variable {conn : ℕ}

omit [DecidableEq Channel] [DecidableEq Caller] in
theorem smooth_reissue (h : Smooth channel state) (hd : state.driver = .stored conn) (hl : state.lock = .free) :
    Smooth channel { state with driver := .reissuing conn state.senders (fun _ => false), lock := .driver } := by
  refine ⟨by simp, ?_, ?_, ?_, ?_, h.registered, ?_, by simp, by simp⟩
  · intro conn' due reissued he
    obtain ⟨-, rfl, rfl⟩ := Driver.reissuing.inj he
    exact ⟨rfl, fun _ => rfl, fun _ hs => hs, fun caller ht => h.registered caller (.inl ht)⟩
  · intro _
    exact ⟨_, _, _, rfl⟩
  · intro caller
    have hc := h.holder caller
    rw [hl] at hc
    simpa using hc
  · intro caller conn' ht
    exact absurd ht (not_inFlight h (by simp [hd]) caller conn')
  · intro conn' he
    exact ⟨(h.client conn' he).1, by simp⟩

omit [DecidableEq Channel] [DecidableEq Caller] in
theorem smooth_finish (h : Smooth channel state) {due reissued : Channel → Bool}
    (hd : state.driver = .reissuing conn due reissued) (hdue : ∀ ch, due ch = true → reissued ch = true) :
    Smooth channel { state with driver := .polling conn, lock := .free } := by
  obtain ⟨hl, hr, -, hsub⟩ := h.reissuing conn due reissued hd
  have hnone : ∀ caller conn answer, state.task caller ≠ .listening conn answer := by
    intro caller conn answer ht
    have hc := (h.holder caller).mpr ⟨conn, answer, ht⟩
    simp [hl] at hc
  refine ⟨by simp, by simp, by simp, ?_, ?_, h.registered, ?_, by simp, ?_⟩
  · intro caller
    simp [hnone]
  · intro caller conn' ht
    exact absurd ht (hnone caller conn' none)
  · intro conn' he
    exact ⟨(h.client conn' he).1, by simp⟩
  · rintro conn' - caller (ht | ⟨c, ht⟩)
    · have hs := hdue _ (hsub caller ht)
      simp [hr] at hs
    · exact absurd ht (hnone caller c (some true))

omit [DecidableEq Channel] [DecidableEq Caller] in
theorem smooth_lost (h : Smooth channel state) (hd : state.driver = .polling conn) :
    Smooth channel (state.dropConnection conn) := by
  have hin : ∀ caller conn', state.task caller = .listening conn' none → conn' = conn := by
    intro caller conn' ht
    have hp := h.inFlight caller conn' ht
    rw [hd] at hp
    exact (Driver.polling.inj hp).symm
  have htask : ∀ caller task, (∀ conn answer, task ≠ .listening conn answer) →
      ((state.dropConnection conn).task caller = task ↔ state.task caller = task) := by
    intro caller task hne
    simp only [State.dropConnection]
    split
    · rename_i ht
      simp [ht, (hne conn none).symm, (hne conn (some false)).symm]
    · rfl
  have hlisten : ∀ caller, (∃ conn' answer, (state.dropConnection conn).task caller = .listening conn' answer) ↔
      ∃ conn' answer, state.task caller = .listening conn' answer := by
    intro caller
    simp only [State.dropConnection]
    split
    · rename_i ht
      exact ⟨fun _ => ⟨conn, none, ht⟩, fun _ => ⟨conn, some false, rfl⟩⟩
    · rfl
  refine ⟨by simp [State.dropConnection], by simp [State.dropConnection], ?_, ?_, ?_, ?_, ?_,
    by simp [State.dropConnection], by simp [State.dropConnection]⟩
  · intro hl
    obtain ⟨_, _, _, he⟩ := h.held hl
    simp [hd] at he
  · intro caller
    rw [hlisten]
    exact h.holder caller
  · intro caller conn' ht
    simp only [State.dropConnection] at ht
    split at ht
    · simp at ht
    · rename_i hne
      exact absurd (hin caller conn' ht ▸ ht) hne
  · intro caller ht
    rw [htask _ _ (by simp), htask _ _ (by simp), hlisten] at ht
    exact h.registered caller ht
  · intro conn' he
    exact ⟨(h.client conn' he).1, by simp [State.dropConnection]⟩

variable {senders : Channel → Bool}

omit [DecidableEq Channel] in
theorem smooth_withTask (h : Smooth channel state) (caller : Caller) (task : Task) {lock : Lock Caller}
    {listened : Channel → Bool}
    (hlock : (lock = .caller caller ↔ ∃ conn answer, task = .listening conn answer) ∧
      (∀ other, other ≠ caller → (lock = .caller other ↔ state.lock = .caller other)) ∧
      (lock = .driver ↔ state.lock = .driver))
    (hflight : ∀ conn, task = .listening conn none → state.driver = .polling conn)
    (hsenders : ∀ ch, state.senders ch = true → senders ch = true)
    (hregistered : task = .subscribed ∨ task = .registered ∨ (∃ conn answer, task = .listening conn answer) →
      senders (channel caller) = true)
    (hsubscribed : task = .subscribed → state.lock ≠ .driver)
    (hlistened : ∀ ch, state.listened ch = true → listened ch = true)
    (hanswered : task = .subscribed ∨ (∃ conn, task = .listening conn (some true)) →
      ∀ conn, state.driver = .polling conn → listened (channel caller) = true) :
    Smooth channel { state.withTask caller task with lock := lock, senders := senders, listened := listened } := by
  have hself : (state.withTask caller task).task caller = task := by simp [State.withTask]
  have hother : ∀ other, other ≠ caller → (state.withTask caller task).task other = state.task other := by
    intro other hne
    simp [State.withTask, hne]
  refine ⟨h.reissue, ?_, ?_, ?_, ?_, ?_, h.client, h.connected, ?_⟩
  · intro conn due reissued hd
    obtain ⟨hl, hr, hs, hsub⟩ := h.reissuing conn due reissued hd
    refine ⟨hlock.2.2.mpr hl, hr, fun ch hch => hsenders ch (hs ch hch), ?_⟩
    intro other ht
    by_cases he : other = caller
    · subst he
      exact absurd hl (hsubscribed (hself.symm.trans ht))
    · exact hsub other ((hother other he).symm.trans ht)
  · intro hl
    exact h.held (hlock.2.2.mp hl)
  · intro other
    by_cases he : other = caller
    · subst he
      show lock = .caller other ↔ ∃ conn answer, (state.withTask other task).task other = .listening conn answer
      rw [hself]
      exact hlock.1
    · show lock = .caller other ↔ ∃ conn answer, (state.withTask caller task).task other = .listening conn answer
      rw [hother other he, hlock.2.1 other he]
      exact h.holder other
  · intro other conn ht
    by_cases he : other = caller
    · subst he
      exact hflight conn (hself.symm.trans ht)
    · exact h.inFlight other conn ((hother other he).symm.trans ht)
  · intro other ht
    by_cases he : other = caller
    · subst he
      apply hregistered
      simpa [hself] using ht
    · apply hsenders
      apply h.registered
      simpa [hother other he] using ht
  · intro conn hd other ht
    by_cases he : other = caller
    · subst he
      apply hanswered _ conn hd
      simpa [hself] using ht
    · apply hlistened
      apply h.listened conn hd
      simpa [hother other he] using ht

variable {task : Task}

omit [DecidableEq Channel] in
theorem smooth_outside (h : Smooth channel state) (caller : Caller)
    (hold : ∀ conn answer, state.task caller ≠ .listening conn answer)
    (hnew : task ≠ .subscribed ∧ ∀ conn answer, task ≠ .listening conn answer)
    (hsenders : ∀ ch, state.senders ch = true → senders ch = true)
    (hregistered : task = .registered → senders (channel caller) = true) :
    Smooth channel { state.withTask caller task with senders := senders } := by
  have hnot : state.lock ≠ .caller caller := by
    intro hl
    obtain ⟨conn, answer, ht⟩ := (h.holder caller).mp hl
    exact hold conn answer ht
  apply smooth_withTask h caller task
  · simp [State.withTask, hnot, hnew.2]
  · intro conn ht
    exact absurd ht (hnew.2 conn none)
  · exact hsenders
  · rintro (ht | ht | ⟨conn, answer, ht⟩)
    · exact absurd ht hnew.1
    · exact hregistered ht
    · exact absurd ht (hnew.2 conn answer)
  · intro ht
    exact absurd ht hnew.1
  · intro ch hch
    exact hch
  · rintro (ht | ⟨conn, ht⟩)
    · exact absurd ht hnew.1
    · exact absurd ht (hnew.2 conn _)

omit [DecidableEq Channel] in
theorem smooth_release (h : Smooth channel state) {caller : Caller} {answer : Option Bool}
    (ht : state.task caller = .listening conn answer) (hnew : ∀ conn answer, task ≠ .listening conn answer)
    (hanswer : task = .subscribed → answer = some true) :
    Smooth channel { state.withTask caller task with lock := .free } := by
  have hl := (h.holder caller).mpr ⟨conn, answer, ht⟩
  apply smooth_withTask h caller task
  · refine ⟨by simp [hnew], ?_, by simp [hl]⟩
    intro other hne
    simp [hl, hne.symm]
  · intro conn' he
    exact absurd he (hnew conn' none)
  · intro ch hch
    exact hch
  · intro _
    exact h.registered caller (.inr (.inr ⟨conn, answer, ht⟩))
  · intro _
    simp [hl]
  · intro ch hch
    exact hch
  · rintro (he | ⟨conn', he⟩) conn'' hd
    · exact h.listened conn'' hd caller (.inr ⟨conn, by rw [ht, hanswer he]⟩)
    · exact absurd he (hnew conn' _)

omit [DecidableEq Channel] in
theorem smooth_listen (h : Smooth channel state) (ht : state.task caller = .registered) (hl : state.lock = .free)
    (hd : ∀ conn, state.driver ≠ .stored conn) : Smooth channel (state.listen caller) := by
  cases hc : state.client with
  | none =>
    have hs : state.listen caller = state.withTask caller .failed := by
      simp only [State.listen, hc]
    rw [hs]
    exact smooth_outside h caller (by simp [ht]) (by simp) (fun _ hch => hch) (by simp)
  | some conn =>
    have hs : state.listen caller = { state.withTask caller (.listening conn
        (if state.isOpen conn then none else some false)) with lock := .caller caller } := by
      simp only [State.listen, hc, State.withTask]
    rw [hs]
    apply smooth_withTask h caller
    · refine ⟨by simp, ?_, by simp [hl]⟩
      intro other hne
      simp [hl, hne.symm]
    · intro conn' he
      obtain ⟨rfl, ho⟩ := Task.listening.inj he
      have hopen : state.isOpen conn = true := by
        by_contra hn
        simp [hn] at ho
      -- the client is that of an earlier connection as long as the new one is not stored
      cases hdr : state.driver with
      | connected c => simp [State.isOpen, hdr] at hopen; exact absurd (hopen ▸ hdr) (h.client conn hc).2
      | stored c => exact absurd hdr (hd c)
      | reissuing c due reissued => exact absurd (h.reissuing c due reissued hdr).1 (by simp [hl])
      | listening c due reissued ch answer => exact absurd hdr (h.reissue c due reissued ch answer)
      | polling c => simp [State.isOpen, hdr] at hopen; rw [hopen]
      | connecting => simp [State.isOpen, hdr] at hopen
      | sleeping => simp [State.isOpen, hdr] at hopen
    · intro ch hch
      exact hch
    · intro _
      exact h.registered caller (.inr (.inl ht))
    · simp
    · intro ch hch
      exact hch
    · rintro (he | ⟨conn', he⟩)
      · simp at he
      · have ha := (Task.listening.inj he).2
        split at ha <;> simp at ha

variable {event : Event Channel Caller}

theorem smooth_does (h : Smooth channel state) (hu : Unbroken state event)
    (hd : Does channel state event state') : Smooth channel state' := by
  cases hd with
  | connect hx =>
    apply smooth_driver h (by simp [hx]) (by simp)
    · simp
    · intro conn hc
      have hlt := (h.client conn hc).1
      refine ⟨by omega, ?_⟩
      intro he
      have := Driver.connected.inj he
      omega
  | refuse hx => exact smooth_driver h (by simp [hx]) (by simp) (by simp) fun conn hc => ⟨(h.client conn hc).1, by simp⟩
  | store conn hx hl =>
    apply smooth_driver h (by simp [hx]) (by simp) (by simp)
    intro conn' hc
    rw [← Option.some.inj hc]
    exact ⟨h.connected conn hx, by simp⟩
  | reissue conn hx hl => exact smooth_reissue h hx hl
  | next => exact hu.elim
  | answer conn due reissued ch result hx _ => exact absurd hx (h.reissue conn due reissued ch none)
  | answered conn due reissued ch result hx => exact absurd hx (h.reissue conn due reissued ch (some result))
  | finish conn due reissued hx hdue => exact smooth_finish h hx hdue
  | message => exact h
  | lost conn hx => exact smooth_lost h hx
  | wake hx => exact smooth_driver h (by simp [hx]) (by simp) (by simp) fun conn hc => ⟨(h.client conn hc).1, by simp⟩
  | see caller ht _ _ => exact smooth_outside h caller (by simp [ht]) (by simp) (fun _ hch => hch) (by simp)
  | register caller ht =>
    apply smooth_outside h caller (by simp [ht]) (by simp)
    · intro ch hch
      by_cases he : ch = channel caller <;> simp [he, hch]
    · simp
  | listen caller ht hl => exact smooth_listen h ht hl hu
  | reply caller conn result ht hp =>
    have hl := (h.holder caller).mpr ⟨conn, none, ht⟩
    apply smooth_withTask h caller
    · simp [hl]
    · simp
    · exact fun _ hch => hch
    · intro _
      exact h.registered caller (.inr (.inr ⟨conn, none, ht⟩))
    · simp
    · intro ch hch
      cases result with
      | true => by_cases he : ch = channel caller <;> simp [he, hch]
      | false => exact hch
    · rintro (he | ⟨conn', he⟩)
      · simp at he
      · obtain ⟨-, hr⟩ := Task.listening.inj he
        simp [Option.some.inj hr]
  | «return» caller conn result ht =>
    apply smooth_release h ht
    · cases result <;> simp
    · cases result <;> simp
  | timeout caller ht _ _ => exact smooth_outside h caller (by simp [ht]) (by simp) (fun _ hch => hch) (by simp)
  | drop caller ht => exact smooth_outside h caller ht.2 (by simp) (fun _ hch => hch) (by simp)
  | dropListening caller conn answer ht => exact smooth_release h ht (by simp) (by simp)

structure Guarded (state : State Channel Caller) : Prop where
  stored : ∀ conn, state.driver = .stored conn → state.client = some conn
  held : (∃ conn due reissued, state.driver = .reissuing conn due reissued) ∨
    (∃ conn due reissued ch answer, state.driver = .listening conn due reissued ch answer) → state.lock = .driver
  holder : ∀ caller conn answer, state.task caller = .listening conn answer → state.lock = .caller caller

omit [DecidableEq Channel] in
theorem guarded_outside (h : Guarded state) (hnew : ∀ conn answer, task ≠ .listening conn answer) :
    Guarded { state.withTask caller task with senders := senders } := by
  refine ⟨h.stored, h.held, ?_⟩
  intro other conn answer ht
  by_cases he : other = caller
  · subst he
    exact absurd (by simpa [State.withTask] using ht) (hnew conn answer)
  · exact h.holder other conn answer (by simpa [State.withTask, he] using ht)

omit [DecidableEq Channel] in
theorem guarded_release (h : Guarded state) {answer : Option Bool} (ht : state.task caller = .listening conn answer)
    (hnew : ∀ conn answer, task ≠ .listening conn answer) :
    Guarded { state.withTask caller task with lock := .free } := by
  have hl := h.holder caller conn answer ht
  refine ⟨h.stored, ?_, ?_⟩
  · intro hx
    have hd := h.held hx
    simp [hl] at hd
  · intro other conn' answer' ht'
    by_cases he : other = caller
    · subst he
      exact absurd (by simpa [State.withTask] using ht') (hnew conn' answer')
    · have hlo := h.holder other conn' answer' (by simpa [State.withTask, he] using ht')
      rw [hl] at hlo
      exact absurd (Lock.caller.inj hlo).symm he

omit [DecidableEq Channel] in
theorem guarded_listen (h : Guarded state) (hl : state.lock = .free) : Guarded (state.listen caller) := by
  cases hc : state.client with
  | none =>
    have hs : state.listen caller = state.withTask caller .failed := by
      simp only [State.listen, hc]
    rw [hs]
    exact guarded_outside h (by simp)
  | some conn =>
    simp only [State.listen, hc]
    refine ⟨fun conn' hx => (h.stored conn' hx).symm ▸ hc.symm, ?_, ?_⟩
    · intro hx
      have hd := h.held hx
      simp [hl] at hd
    · intro other conn' answer ht
      by_cases he : other = caller
      · rw [he]
      · have hlo := h.holder other conn' answer (by simpa [he] using ht)
        simp [hl] at hlo

theorem guarded_does (h : Guarded state) (hd : Does channel state event state') : Guarded state' := by
  have hfree : state.lock = .free → ∀ caller conn answer, state.task caller ≠ .listening conn answer := by
    intro hl caller conn answer ht
    have hlo := h.holder caller conn answer ht
    simp [hl] at hlo
  cases hd with
  | connect hx => exact ⟨by simp, by simp, h.holder⟩
  | refuse hx => exact ⟨by simp, by simp, h.holder⟩
  | store conn hx hl => exact ⟨by simp, by simp, h.holder⟩
  | reissue conn hx hl =>
    exact ⟨by simp, by simp, fun caller conn answer ht => absurd ht (hfree hl caller conn answer)⟩
  | next conn due reissued ch hx _ _ =>
    exact ⟨by simp, fun _ => h.held (.inl ⟨conn, due, reissued, hx⟩), h.holder⟩
  | answer conn due reissued ch result hx _ =>
    exact ⟨by simp, fun _ => h.held (.inr ⟨conn, due, reissued, ch, none, hx⟩), h.holder⟩
  | answered conn due reissued ch result hx =>
    exact ⟨by simp, fun _ => h.held (.inr ⟨conn, due, reissued, ch, some result, hx⟩), h.holder⟩
  | finish conn due reissued hx _ =>
    refine ⟨by simp, by simp, ?_⟩
    intro caller conn' answer ht
    have hlo := h.holder caller conn' answer ht
    simp [h.held (.inl ⟨conn, due, reissued, hx⟩)] at hlo
  | message => exact h
  | lost conn hx =>
    refine ⟨by simp [State.dropConnection], by simp [State.dropConnection], ?_⟩
    intro caller conn' answer ht
    simp only [State.dropConnection] at ht ⊢
    split at ht
    · rename_i hc
      exact h.holder caller conn none hc
    · exact h.holder caller conn' answer ht
  | wake hx => exact ⟨by simp, by simp, h.holder⟩
  | see caller _ _ _ => exact guarded_outside h (by simp)
  | register caller _ => exact guarded_outside h (by simp)
  | listen caller _ hl => exact guarded_listen h hl
  | reply caller conn result ht _ =>
    refine ⟨h.stored, h.held, ?_⟩
    intro other conn' answer ht'
    by_cases he : other = caller
    · rw [he]
      exact h.holder caller conn none ht
    · exact h.holder other conn' answer (by simpa [State.reply, he] using ht')
  | «return» caller conn result ht => exact guarded_release h ht (by cases result <;> simp)
  | timeout caller _ _ _ => exact guarded_outside h (by simp)
  | drop caller _ => exact guarded_outside h (by simp)
  | dropListening caller conn answer ht => exact guarded_release h ht (by simp)

variable {events events' : List (Event Channel Caller)} {middle : State Channel Caller}

theorem guarded_run (h : Run (Does channel) State.start events state) : Guarded state := by
  apply Run.holds (fun _ => Guarded) _ (fun _ _ _ _ => guarded_does) h
  exact ⟨by simp [State.start], by simp [State.start], by simp [State.start]⟩

theorem smooth_run
    (h : Run (fun s e s' => Unbroken s e ∧ Does channel s e s') State.start events state) : Smooth channel state := by
  apply Run.holds (fun _ => Smooth channel) _ (fun _ _ _ _ hs hd => smooth_does hs hd.1 hd.2) h
  constructor <;> simp [State.start]

theorem not_byDriver (hw : Wedged state) (hd : Does channel state event state') : ¬ event.ByDriver := by
  intro hb
  obtain ⟨conn, due, reissued, ch, hx⟩ | ⟨conn, caller, hx, hl, ht⟩ := hw
  · cases hd <;> first | exact hb | simp_all
  · cases hd <;> first | exact hb | simp_all

theorem wedged_of_not_unbroken (h : Guarded state) (hu : ¬ Unbroken state event)
    (hd : Does channel state event state') : Wedged state' := by
  cases hd with
  | next conn due reissued ch _ _ _ => exact .inl ⟨conn, due, reissued, ch, rfl⟩
  | listen caller _ _ =>
    have hst : ∃ conn, state.driver = .stored conn := by
      by_contra hn
      exact hu fun conn hx => hn ⟨conn, hx⟩
    obtain ⟨conn, hx⟩ := hst
    have hs : state.listen caller = { state.withTask caller (.listening conn none) with lock := .caller caller } := by
      simp [State.listen, h.stored conn hx, State.isOpen, hx, State.withTask]
    rw [hs]
    exact .inr ⟨conn, caller, hx, rfl, by simp [State.withTask]⟩
  | _ => exact absurd trivial hu

theorem not_moves_of_wedged (h : Guarded state) (hw : Wedged state) : ¬ Moves channel state := by
  rintro (⟨event, state', hb, hd⟩ | ⟨caller, conn, result, hl, ht⟩)
  · exact not_byDriver hw hd hb
  · obtain ⟨conn', due, reissued, ch, hx⟩ | ⟨conn', other, -, hl', ht'⟩ := hw
    · have hd := h.held (.inr ⟨conn', due, reissued, ch, none, hx⟩)
      simp [hl] at hd
    · rw [hl'] at hl
      rw [Lock.caller.inj hl, ht] at ht'
      simp at ht'

theorem wedged_forever {due reissued : Channel → Bool} {ch : Channel}
    (h : Run (Does channel) state events state') (hx : state.driver = .listening conn due reissued ch none) :
    state'.driver = .listening conn due reissued ch none := by
  apply Run.holds (fun _ state' => state'.driver = .listening conn due reissued ch none) hx _ h
  intro events state event state' hx hd
  have hb := not_byDriver (.inl ⟨conn, due, reissued, ch, hx⟩) hd
  cases hd with
  | answer conn' due' reissued' ch' result _ hp => simp [State.Polled, hx] at hp
  | listen caller _ _ =>
    show (state.listen caller).driver = _
    unfold State.listen
    split <;> simpa [State.withTask] using hx
  | see | register | reply | «return» | timeout | drop | dropListening => exact hx
  | _ => exact absurd trivial hb

/-- At any time one party at most holds the client. -/
theorem client_exclusive (h : Run (Does channel) State.start events state) {answer : Option Bool}
    (ht : state.task caller = .listening conn answer) :
    (∀ other conn' answer', state.task other = .listening conn' answer' → other = caller) ∧
      (∀ conn due reissued, state.driver ≠ .reissuing conn due reissued) ∧
      ∀ conn due reissued ch answer, state.driver ≠ .listening conn due reissued ch answer := by
  have hg := guarded_run h
  have hl := hg.holder caller conn answer ht
  refine ⟨fun other conn' answer' ht' => ?_, fun conn due reissued hd => ?_, fun conn due reissued ch answer hd => ?_⟩
  · exact Lock.caller.inj ((hg.holder other conn' answer' ht').symm.trans hl)
  · cases hl.symm.trans (hg.held (.inl ⟨conn, due, reissued, hd⟩))
  · cases hl.symm.trans (hg.held (.inr ⟨conn, due, reissued, ch, answer, hd⟩))

theorem client_exclusive_first : ∃ events state, Run (Does id) (State.start : State Unit Unit) events state ∧
    state.task () = .listening 0 none ∧ ∀ conn due reissued, state.driver ≠ .reissuing conn due reissued := by
  have h1 : Run (Does id) (State.start : State Unit Unit) _ _ := .single (.connect _ rfl)
  have h2 := h1.snoc (.store _ 0 rfl rfl)
  have h3 := h2.snoc (.see _ () rfl rfl (by simp))
  have h4 := h3.snoc (.register _ () rfl)
  have h5 := h4.snoc (.listen _ () rfl rfl)
  exact ⟨_, _, h5, rfl, (@client_exclusive _ _ _ _ id _ () 0 _ h5 none rfl).2.1⟩

/-- Once the driver issues a LISTEN of its own it keeps the client, and no further call subscribes. -/
theorem reissue_blocks {ch : Channel} (h : Run (Does channel) State.start events state)
    (hn : Does channel state (.next ch) middle) (h' : Run (Does channel) middle events' state') :
    state'.lock = .driver ∧ ∀ caller, state'.task caller = .subscribed → state.task caller = .subscribed := by
  obtain ⟨conn, due, reissued, hx, htask⟩ : ∃ conn due reissued,
      middle.driver = .listening conn due reissued ch none ∧ middle.task = state.task := by
    cases hn with
    | next conn due reissued => exact ⟨conn, due, reissued, rfl, rfl⟩
  suffices hkept : Run (Does channel) middle events' state' ∧ Guarded state' ∧
      ∀ caller, state'.task caller = .subscribed → state.task caller = .subscribed from
    ⟨hkept.2.1.held (.inr ⟨conn, due, reissued, ch, none, wedged_forever h' hx⟩), hkept.2.2⟩
  apply Run.holds (fun events state' => Run (Does channel) middle events state' ∧ Guarded state' ∧
    ∀ caller, state'.task caller = .subscribed → state.task caller = .subscribed) _ _ h'
  · exact ⟨.nil, guarded_does (guarded_run h) hn, fun caller => by rw [htask]; exact id⟩
  · rintro events state' event last ⟨hrun, hg, hs⟩ hd
    refine ⟨hrun.snoc hd, guarded_does hg hd, fun caller => ?_⟩
    have hl := hg.held (.inr ⟨conn, due, reissued, ch, none, wedged_forever hrun hx⟩)
    have hno : ∀ caller conn answer, state'.task caller ≠ .listening conn answer := fun caller conn answer ht => by
      cases hl.symm.trans (hg.holder caller conn answer ht)
    have hother : ∀ other task, task ≠ .subscribed → (state'.withTask other task).task caller = .subscribed →
        state'.task caller = .subscribed := fun other task hne ht => by
      by_cases he : caller = other <;> simp_all [State.withTask]
    intro ht
    apply hs caller
    cases hd with
    | listen other _ hfree => cases hl.symm.trans hfree
    | reply other conn result hlistening => exact absurd hlistening (hno other conn none)
    | «return» other conn result hlistening => exact absurd hlistening (hno other conn (some result))
    | dropListening other conn answer hlistening => exact absurd hlistening (hno other conn answer)
    | lost => simpa [State.dropConnection, hno] using ht
    | see other | register other | timeout other | drop other => exact hother other _ (by simp) ht
    | _ => exact ht

theorem reissue_blocks_first : ∃ events state middle, Run (Does id) (State.start : State Unit Unit) events state ∧
    Does id state (.next ()) middle ∧ middle.lock = .driver := by
  have h1 : Run (Does id) (State.start : State Unit Unit) _ _ := .single (.connect _ rfl)
  have h2 := h1.snoc (.store _ 0 rfl rfl)
  have h3 := h2.snoc (.see _ () rfl rfl (by simp))
  have h4 := h3.snoc (.register _ () rfl)
  have h5 := h4.snoc (.reissue _ 0 rfl rfl)
  refine ⟨_, _, _, h5, .next _ 0 _ _ () rfl rfl rfl, ?_⟩
  exact (reissue_blocks h5 (.next _ 0 _ _ () rfl rfl rfl) .nil).1

/-- Unless it reissues a LISTEN, or a call takes the client before the driver polls, the driver always goes on and
the channels of the live subscribers are listened to; either of these steps leaves it waiting for itself. -/
theorem driver_moves (channel : Caller → Channel) :
    (∀ events state, Run (fun s e s' => Unbroken s e ∧ Does channel s e s') State.start events state →
      Moves channel state ∧ Listens channel state) ∧
    ∀ events state event state', Run (Does channel) State.start events state → Does channel state event state' →
      ¬ Unbroken state event → Wedged state' ∧ ¬ Moves channel state' := by
  constructor
  · intro events state h
    have hs := smooth_run h
    exact ⟨moves_of_smooth hs, fun conn hd caller ht => hs.listened conn hd caller (.inl ht)⟩
  · intro events state event state' h hd hu
    have hg := guarded_run h
    have hw := wedged_of_not_unbroken hg hu hd
    exact ⟨hw, not_moves_of_wedged (guarded_does hg hd) hw⟩

theorem driver_stuck : ¬ ∀ events (state : State Unit Unit), Run (Does id) State.start events state →
    Moves id state ∧ Listens id state := by
  intro hall
  have h1 : Run (Does id) (State.start : State Unit Unit) _ _ := .single (.connect _ rfl)
  have h2 := h1.snoc (.store _ 0 rfl rfl)
  have h3 := h2.snoc (.reissue _ 0 rfl rfl)
  have h4 := h3.snoc (.finish _ 0 _ _ rfl (fun _ hd => hd))
  have h5 := h4.snoc (.see _ () rfl rfl (by simp))
  have h6 := h5.snoc (.register _ () rfl)
  have h7 := h6.snoc (.listen _ () rfl rfl)
  have h8 := h7.snoc (.reply _ () 0 true rfl rfl)
  have h9 := h8.snoc (.return _ () 0 true rfl)
  have h10 := h9.snoc (.lost _ 0 rfl)
  have h11 := h10.snoc (.wake _ rfl)
  have h12 := h11.snoc (.connect _ rfl)
  have h13 := h12.snoc (.store _ 1 rfl rfl)
  have h14 := h13.snoc (.reissue _ 1 rfl rfl)
  have h15 := h14.snoc (.next _ 1 _ _ () rfl rfl rfl)
  exact not_moves_of_wedged (guarded_run h15) (.inl ⟨_, _, _, _, rfl⟩) (hall _ _ h15).1

end

end Gqlforge.PostgresListener
