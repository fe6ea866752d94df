import Gqlforge.Runs
import Mathlib.Data.List.Induction
import Mathlib.Order.WithBot

namespace Gqlforge.OrderedLogs

section

variable {Entry Id : Type} [LinearOrder Id] (id : Entry → Id)

def Ordered (log : List Entry) : Prop :=
  log.Pairwise fun entry entry' => id entry < id entry'

def after (bound : WithBot Id) (log : List Entry) : List Entry :=
  log.filter fun entry => bound < (id entry : WithBot Id)

def last (log : List Entry) : WithBot Id :=
  match log.getLast? with
  | some entry => id entry
  | none => ⊥

variable {id} {log : List Entry} {bound : WithBot Id} {entry : Entry}

theorem mem_after : entry ∈ after id bound log ↔ entry ∈ log ∧ bound < (id entry : WithBot Id) := by
  simp [after]

theorem after_append (log' : List Entry) : after id bound (log ++ log') = after id bound log ++ after id bound log' := by
  simp [after]

theorem after_singleton (h : bound < (id entry : WithBot Id)) : after id bound [entry] = [entry] := by
  simp [after, h]

theorem after_prefix_append (log' : List Entry) : after id bound log <+: after id bound (log ++ log') := by
  rw [after_append]
  exact List.prefix_append _ _

theorem ordered_append (h : Ordered id log) (hnew : ∀ old ∈ log, id old < id entry) : Ordered id (log ++ [entry]) := by
  unfold Ordered at *
  rw [List.pairwise_append]
  refine ⟨h, by simp, ?_⟩
  intro old hold new hn
  rw [List.mem_singleton.mp hn]
  exact hnew old hold

theorem after_of_cons (h : Ordered id log) {rest : List Entry} (he : after id bound log = entry :: rest) :
    after id (id entry) log = rest := by
  have hmem : entry ∈ after id bound log := by
    rw [he]
    exact List.mem_cons_self
  have hlt := (mem_after.mp hmem).2
  have hsub : after id (id entry) log = after id (id entry) (after id bound log) := by
    unfold after
    rw [List.filter_filter]
    apply List.filter_congr
    intro other _
    by_cases ho : (id entry : WithBot Id) < (id other : WithBot Id)
    · simp [ho, hlt.trans ho]
    · simp [ho]
  have hord : Ordered id (entry :: rest) := by
    rw [← he]
    exact h.filter _
  have hrest : ∀ other ∈ rest, id entry < id other := (List.pairwise_cons.mp hord).1
  rw [hsub, he]
  unfold after
  rw [List.filter_cons_of_neg (by simp)]
  apply List.filter_eq_self.mpr
  intro other ho
  simpa using hrest other ho

end

end Gqlforge.OrderedLogs

namespace Gqlforge.RedisStream

open Runs OrderedLogs

def xreadCount : ℕ := 100

inductive Cursor (Id : Type) where
  | newest
  | last
  | id (id : Id)
  | invalid

def Cursor.Symbolic {Id : Type} : Cursor Id → Prop
  | .newest | .last => True
  | .id _ | .invalid => False

inductive Reader (Entry Id : Type) where
  | connecting
  | ready
  | sent
  | blocked (bound : WithBot Id)
  | replied (entries : List Entry)
  | yielding (entries : List Entry)
  | sleeping
  | ended

structure State (Entry Id : Type) where
  reader : Reader Entry Id
  lastId : Cursor Id
  stream : List Entry
  start : Option (WithBot Id)
  yielded : List Entry

inductive Event (Entry : Type) where
  | connect
  | refuse
  | wake
  | send
  | read
  | serve
  | timeout
  | lose
  | fail
  | receive
  | yield
  | next
  | add (entry : Entry)
  | drop

section

variable {Entry Id : Type} [LinearOrder Id] (id : Entry → Id)

def Cursor.resolve (stream : List Entry) : Cursor Id → Option (WithBot Id)
  | .newest => some (OrderedLogs.last id stream)
  | .last => some (OrderedLogs.last id stream.dropLast)
  | .id bound => some bound
  | .invalid => none

namespace State

def opened (startId : Cursor Id) : State Entry Id where
  reader := .connecting
  lastId := startId
  stream := []
  start := none
  yielded := []

def withReader (state : State Entry Id) (reader : Reader Entry Id) : State Entry Id :=
  { state with reader := reader }

def read (state : State Entry Id) (bound : WithBot Id) : State Entry Id :=
  let entries := (after id bound state.stream).take xreadCount
  { state with
    start := some (state.start.getD bound)
    reader := if entries.isEmpty then .blocked bound else .replied entries }

def yield (state : State Entry Id) (entry : Entry) (rest : List Entry) : State Entry Id :=
  { state with
    reader := .yielding rest
    lastId := .id (id entry)
    yielded := state.yielded ++ [entry] }

def add (state : State Entry Id) (entry : Entry) : State Entry Id :=
  { state with stream := state.stream ++ [entry] }

end State

inductive Does : State Entry Id → Event Entry → State Entry Id → Prop
  | connect (state : State Entry Id) (h : state.reader = .connecting) : Does state .connect (state.withReader .ready)
  | refuse (state : State Entry Id) (h : state.reader = .connecting) : Does state .refuse (state.withReader .sleeping)
  | wake (state : State Entry Id) (h : state.reader = .sleeping) : Does state .wake (state.withReader .connecting)
  | send (state : State Entry Id) (h : state.reader = .ready) : Does state .send (state.withReader .sent)
  | read (state : State Entry Id) (bound : WithBot Id) (h : state.reader = .sent)
      (hb : state.lastId.resolve id state.stream = some bound) : Does state .read (state.read id bound)
  | serve (state : State Entry Id) (bound : WithBot Id) (h : state.reader = .blocked bound)
      (he : after id bound state.stream ≠ []) :
    Does state .serve (state.withReader (.replied ((after id bound state.stream).take xreadCount)))
  | timeout (state : State Entry Id) (bound : WithBot Id) (h : state.reader = .blocked bound)
      (he : after id bound state.stream = []) : Does state .timeout (state.withReader (.replied []))
  -- the connection breaks, or its response time is over
  | lose (state : State Entry Id)
      (h : state.reader = .sent ∨ (∃ bound, state.reader = .blocked bound) ∨ ∃ entries, state.reader = .replied entries) :
    Does state .lose (state.withReader .sleeping)
  -- an error of the server ends the subscription
  | fail (state : State Entry Id) (h : state.reader = .sent ∨ ∃ bound, state.reader = .blocked bound) :
    Does state .fail (state.withReader .ended)
  | receive (state : State Entry Id) (entries : List Entry) (h : state.reader = .replied entries) :
    Does state .receive (state.withReader (.yielding entries))
  | yield (state : State Entry Id) (entry : Entry) (rest : List Entry)
      (h : state.reader = .yielding (entry :: rest)) : Does state .yield (state.yield id entry rest)
  | next (state : State Entry Id) (h : state.reader = .yielding []) : Does state .next (state.withReader .ready)
  | add (state : State Entry Id) (entry : Entry) (h : ∀ old ∈ state.stream, id old < id entry) :
    Does state (.add entry) (state.add entry)
  | drop (state : State Entry Id) : Does state .drop (state.withReader .ended)

def Steady (state : State Entry Id) (event : Event Entry) : Prop :=
  event = .read → state.lastId.Symbolic → ∀ bound, state.start = some bound →
    state.lastId.resolve id state.stream = some bound

/-- What has been yielded is an initial part of what the stream has got since the subscription started. -/
def Gapless (state : State Entry Id) : Prop :=
  match state.start with
  | some bound => state.yielded <+: after id bound state.stream
  | none => state.yielded = []

def Cursor.bound (lastId : Cursor Id) (start : WithBot Id) : WithBot Id :=
  match lastId with
  | .id bound => bound
  | .newest | .last | .invalid => start

def InFlight (state : State Entry Id) (start : WithBot Id) : Prop :=
  match state.reader with
  | .blocked b => b = state.lastId.bound start
  | .replied entries | .yielding entries => entries <+: after id (state.lastId.bound start) state.stream
  | _ => True

structure Following (state : State Entry Id) : Prop where
  ordered : Ordered id state.stream
  idle : state.start = none → state.yielded = [] ∧ (∀ b, state.reader ≠ .blocked b) ∧
    (∀ entries, state.reader ≠ .replied entries) ∧ (∀ entries, state.reader ≠ .yielding entries)
  following : ∀ start, state.start = some start →
    state.yielded ++ after id (state.lastId.bound start) state.stream = after id start state.stream ∧
    (state.lastId.bound start = start ∨ ∃ entry ∈ state.stream, state.lastId.bound start = id entry ∧ start < (id entry : WithBot Id)) ∧
    InFlight id state start

variable {id} {state state' : State Entry Id}

theorem gapless_of_following (h : Following id state) : Gapless id state := by
  unfold Gapless
  cases hs : state.start with
  | none => exact (h.idle hs).1
  | some start => exact ⟨_, (h.following start hs).1⟩

theorem following_withReader (h : Following id state) (reader : Reader Entry Id)
    (hidle : state.start = none → (∀ b, reader ≠ .blocked b) ∧ (∀ entries, reader ≠ .replied entries) ∧
      ∀ entries, reader ≠ .yielding entries)
    (hin : ∀ start, state.start = some start → InFlight id (state.withReader reader) start) :
    Following id (state.withReader reader) := by
  refine ⟨h.ordered, ?_, ?_⟩
  · intro hs
    exact ⟨(h.idle hs).1, hidle hs⟩
  · intro start hs
    obtain ⟨hsplit, hbound, -⟩ := h.following start hs
    exact ⟨hsplit, hbound, hin start hs⟩

theorem following_rest (h : Following id state) {reader : Reader Entry Id} (hb : ∀ b, reader ≠ .blocked b)
    (hr : ∀ entries, reader ≠ .replied entries) (hy : ∀ entries, reader ≠ .yielding entries) :
    Following id (state.withReader reader) := by
  apply following_withReader h reader (fun _ => ⟨hb, hr, hy⟩)
  intro start _
  cases reader with
  | blocked b => exact absurd rfl (hb b)
  | replied entries => exact absurd rfl (hr entries)
  | yielding entries => exact absurd rfl (hy entries)
  | _ => trivial

omit [LinearOrder Id] in
theorem resolve_eq_bound (hs : Steady id state .read) {b start : WithBot Id} (hstart : state.start = some start)
    (hb : state.lastId.resolve id state.stream = some b) : b = state.lastId.bound start := by
  unfold Cursor.bound
  have hsteady := hs rfl
  cases hl : state.lastId with
  | newest =>
    rw [hl] at hsteady hb
    have he := hsteady trivial start hstart
    rw [hb] at he
    exact Option.some.inj he
  | last =>
    rw [hl] at hsteady hb
    have he := hsteady trivial start hstart
    rw [hb] at he
    exact Option.some.inj he
  | id b' =>
    rw [hl] at hb
    exact (Option.some.inj hb).symm
  | invalid =>
    rw [hl] at hb
    simp [Cursor.resolve] at hb

omit [LinearOrder Id] in
theorem bound_first {b : WithBot Id} (hb : state.lastId.resolve id state.stream = some b) : state.lastId.bound b = b := by
  unfold Cursor.bound
  cases hl : state.lastId with
  | id b' =>
    rw [hl] at hb
    exact Option.some.inj hb
  | _ => rfl

theorem inFlight_read {b start : WithBot Id} (hb : b = state.lastId.bound start) : InFlight id (state.read id b) start := by
  unfold InFlight State.read
  by_cases he : ((after id b state.stream).take xreadCount).isEmpty = true
  · simpa [he] using hb
  · simp only [he]
    rw [hb]
    exact List.take_prefix _ _

theorem following_read (h : Following id state) (hs : Steady id state .read) {b : WithBot Id}
    (hb : state.lastId.resolve id state.stream = some b) : Following id (state.read id b) := by
  refine ⟨h.ordered, by simp [State.read], ?_⟩
  intro start hstart
  cases hold : state.start with
  | none =>
    have he : b = start := by simpa [State.read, hold] using hstart
    subst he
    have hfirst : state.lastId.bound b = b := bound_first hb
    have hbound : (state.read id b).lastId.bound b = b := hfirst
    refine ⟨?_, .inl hbound, inFlight_read hfirst.symm⟩
    rw [hbound]
    show state.yielded ++ after id b state.stream = after id b state.stream
    rw [(h.idle hold).1, List.nil_append]
  | some start' =>
    have he : start' = start := by simpa [State.read, hold] using hstart
    subst he
    obtain ⟨hsplit, hbound, -⟩ := h.following start' hold
    exact ⟨hsplit, hbound, inFlight_read (resolve_eq_bound hs hold hb)⟩

theorem following_yield (h : Following id state) {entry : Entry} {rest : List Entry}
    (hr : state.reader = .yielding (entry :: rest)) : Following id (state.yield id entry rest) := by
  refine ⟨h.ordered, ?_, ?_⟩
  · intro hs
    exact absurd hr ((h.idle hs).2.2.2 _)
  intro start hs
  obtain ⟨hsplit, hbound, hin⟩ := h.following start hs
  have hpre : entry :: rest <+: after id (state.lastId.bound start) state.stream := by
    simpa [InFlight, hr] using hin
  obtain ⟨later, hlater⟩ := hpre
  have hmem : entry ∈ after id (state.lastId.bound start) state.stream := by
    rw [← hlater]
    simp
  have htail : after id (id entry) state.stream = rest ++ later := after_of_cons h.ordered hlater.symm
  have hlt : start < (id entry : WithBot Id) := by
    have hle : state.lastId.bound start < (id entry : WithBot Id) := (mem_after.mp hmem).2
    rcases hbound with hb | ⟨old, -, hb, hold⟩
    · rwa [hb] at hle
    · rw [hb] at hle
      exact hold.trans hle
  refine ⟨?_, .inr ⟨entry, (mem_after.mp hmem).1, rfl, hlt⟩, ?_⟩
  · show (state.yielded ++ [entry]) ++ after id (id entry) state.stream = after id start state.stream
    rw [← hsplit, htail, ← hlater]
    simp
  · show rest <+: after id (id entry) state.stream
    rw [htail]
    exact List.prefix_append _ _

theorem following_add (h : Following id state) {entry : Entry} (hnew : ∀ old ∈ state.stream, id old < id entry) :
    Following id (state.add entry) := by
  refine ⟨ordered_append h.ordered hnew, h.idle, ?_⟩
  intro start hs
  obtain ⟨hsplit, hbound, hin⟩ := h.following start hs
  have hsame : after id (state.lastId.bound start) [entry] = after id start [entry] := by
    rcases hbound with hb | ⟨old, hold, hb, hlt⟩
    · rw [hb]
    · have hlt' : (id old : WithBot Id) < id entry := WithBot.coe_lt_coe.mpr (hnew old hold)
      rw [hb, after_singleton hlt', after_singleton (hlt.trans hlt')]
  refine ⟨?_, ?_, ?_⟩
  · show state.yielded ++ after id (state.lastId.bound start) (state.stream ++ [entry]) =
      after id start (state.stream ++ [entry])
    rw [after_append, after_append, ← List.append_assoc, hsplit, hsame]
  · rcases hbound with hb | ⟨old, hold, hb⟩
    · exact .inl hb
    · exact .inr ⟨old, List.mem_append_left _ hold, hb⟩
  · unfold InFlight at *
    cases hr : state.reader with
    | blocked b =>
      rw [hr] at hin
      simpa [State.add, hr] using hin
    | replied entries =>
      rw [hr] at hin
      simpa [State.add, hr] using hin.trans (after_prefix_append [entry])
    | yielding entries =>
      rw [hr] at hin
      simpa [State.add, hr] using hin.trans (after_prefix_append [entry])
    | _ => simp [State.add, hr]

theorem following_does {event : Event Entry} (h : Following id state) (hs : Steady id state event)
    (hd : Does id state event state') : Following id state' := by
  cases hd with
  | connect _ => exact following_rest h (by simp) (by simp) (by simp)
  | refuse _ => exact following_rest h (by simp) (by simp) (by simp)
  | wake _ => exact following_rest h (by simp) (by simp) (by simp)
  | send _ => exact following_rest h (by simp) (by simp) (by simp)
  | read b _ hb => exact following_read h hs hb
  | serve b hr _ =>
    apply following_withReader h
    · intro hn
      exact absurd hr ((h.idle hn).2.1 b)
    · intro start hstart
      have hin := (h.following start hstart).2.2
      rw [InFlight, hr] at hin
      show (after id b state.stream).take xreadCount <+: after id (state.lastId.bound start) state.stream
      rw [hin]
      exact List.take_prefix _ _
  | timeout b hr _ =>
    apply following_withReader h
    · intro hn
      exact absurd hr ((h.idle hn).2.1 b)
    · intro start _
      exact List.nil_prefix
  | lose _ => exact following_rest h (by simp) (by simp) (by simp)
  | fail _ => exact following_rest h (by simp) (by simp) (by simp)
  | receive entries hr =>
    apply following_withReader h
    · intro hn
      exact absurd hr ((h.idle hn).2.2.1 entries)
    · intro start hstart
      have hin := (h.following start hstart).2.2
      rwa [InFlight, hr] at hin
  | yield entry rest hr => exact following_yield h hr
  | next _ => exact following_rest h (by simp) (by simp) (by simp)
  | add entry hnew => exact following_add h hnew
  | drop => exact following_rest h (by simp) (by simp) (by simp)

/-- A subscription whose symbolic id is only read while nothing new has been appended yields what is appended
after its start, in order and once. -/
theorem stream_gapless (startId : Cursor Id) (events : List (Event Entry)) (state : State Entry Id)
    (h : Run (fun s e s' => Steady id s e ∧ Does id s e s') (State.opened startId) events state) :
    Gapless id state := by
  apply gapless_of_following
  apply Run.holds (fun _ => Following id) _ (fun _ _ _ _ hf hd => following_does hf hd.1 hd.2) h
  refine ⟨by simp [State.opened, Ordered], by simp [State.opened], by simp [State.opened]⟩

variable (id) in
def Ahead (state : State Entry Id) : Prop :=
  match state.reader with
  | .blocked b => state.lastId.bound ⊥ ≤ b
  | .replied entries | .yielding entries =>
    Ordered id entries ∧ ∀ entry ∈ entries, entry ∈ state.stream ∧ state.lastId.bound ⊥ < (id entry : WithBot Id)
  | _ => True

variable (id) in
structure Increasing (state : State Entry Id) : Prop where
  stream : Ordered id state.stream
  yielded : Ordered id state.yielded ∧ state.yielded ⊆ state.stream
  behind : ∀ entry ∈ state.yielded, (id entry : WithBot Id) ≤ state.lastId.bound ⊥
  ahead : Ahead id state

theorem ahead_take (h : Ordered id state.stream) {b : WithBot Id} (hb : state.lastId.bound ⊥ ≤ b) :
    Ahead id (state.withReader (.replied ((after id b state.stream).take xreadCount))) := by
  refine ⟨List.Pairwise.sublist ((List.take_sublist _ _).trans List.filter_sublist) h, fun entry hentry => ?_⟩
  obtain ⟨hmem, hlt⟩ := mem_after.mp (List.mem_of_mem_take hentry)
  exact ⟨hmem, hb.trans_lt hlt⟩

theorem increasing_does {event : Event Entry} (h : Increasing id state) (hd : Does id state event state') :
    Increasing id state' := by
  have hahead := h.ahead
  unfold Ahead at hahead
  cases hd with
  | read b hr hb =>
    have hle : state.lastId.bound ⊥ ≤ b := by
      cases hl : state.lastId <;> simp_all [Cursor.bound, Cursor.resolve]
    refine ⟨h.stream, h.yielded, h.behind, ?_⟩
    dsimp only [Ahead, State.read]
    by_cases he : ((after id b state.stream).take xreadCount).isEmpty = true
    · rw [if_pos he]
      exact hle
    · rw [if_neg he]
      exact ahead_take h.stream hle
  | serve b hr =>
    rw [hr] at hahead
    exact ⟨h.stream, h.yielded, h.behind, ahead_take h.stream hahead⟩
  | timeout => exact ⟨h.stream, h.yielded, h.behind, .nil, by simp⟩
  | receive entries hr =>
    rw [hr] at hahead
    exact ⟨h.stream, h.yielded, h.behind, hahead⟩
  | yield entry rest hr =>
    rw [hr] at hahead
    obtain ⟨hordered, hin⟩ := hahead
    obtain ⟨hmem, hlt⟩ := hin entry List.mem_cons_self
    have hbehind (old : Entry) (hold : old ∈ state.yielded) : (id old : WithBot Id) < id entry :=
      (h.behind old hold).trans_lt hlt
    refine ⟨h.stream, ⟨ordered_append h.yielded.1 fun old hold => WithBot.coe_lt_coe.mp (hbehind old hold),
      List.append_subset.mpr ⟨h.yielded.2, List.cons_subset.mpr ⟨hmem, List.nil_subset _⟩⟩⟩, fun old hold => ?_,
      hordered.of_cons, fun next hnext => ⟨(hin next (List.mem_cons_of_mem _ hnext)).1,
        WithBot.coe_lt_coe.mpr (List.rel_of_pairwise_cons hordered hnext)⟩⟩
    rcases List.mem_append.mp hold with hold | hold
    · exact (hbehind old hold).le
    · rw [List.mem_singleton.mp hold]
      exact le_rfl
  | add entry hnew =>
    refine ⟨ordered_append h.stream hnew, ⟨h.yielded.1, List.subset_append_of_subset_left _ h.yielded.2⟩, h.behind, ?_⟩
    unfold Ahead
    cases hr : state.reader <;> rw [hr] at hahead <;> simp_all [State.add]
  | _ => exact ⟨h.stream, h.yielded, h.behind, trivial⟩

/-- Whatever happens, entries of the stream are yielded in the order of their ids, and each at most once. -/
theorem yielded_increasing {startId : Cursor Id} {events : List (Event Entry)}
    (h : Run (Does id) (State.opened startId) events state) :
    Ordered id state.yielded ∧ state.yielded ⊆ state.stream := by
  refine (Run.holds (fun _ => Increasing id) ?_ (fun _ _ _ _ => increasing_does) h).yielded
  exact ⟨List.Pairwise.nil, ⟨List.Pairwise.nil, List.nil_subset _⟩, List.forall_mem_nil _, trivial⟩

end

theorem yielded_increasing_first : ∃ events state, Run (Does id) (State.opened Cursor.newest : State ℕ ℕ) events state ∧
    state.yielded = [3] ∧ Ordered id state.yielded := by
  have h1 : Run (Does id) (State.opened Cursor.newest : State ℕ ℕ) _ _ := .single (.connect _ rfl)
  have h2 := h1.snoc (.send _ rfl)
  have h3 := h2.snoc (.read _ (⊥ : WithBot ℕ) rfl rfl)
  have h4 := h3.snoc (.add _ 3 nofun)
  have h5 := h4.snoc (.serve _ (⊥ : WithBot ℕ) rfl (by decide))
  have h6 := h5.snoc (.receive _ [3] rfl)
  have h7 := h6.snoc (.yield _ 3 [] rfl)
  exact ⟨_, _, h7, rfl, (yielded_increasing h7).1⟩

theorem steady_snoc {startId : Cursor ℕ} {events : List (Event ℕ)} {state state' : State ℕ ℕ} {event : Event ℕ}
    (h : Run (fun s e s' => Steady id s e ∧ Does id s e s') (State.opened startId) events state)
    (hd : Does id state event state') (he : event ≠ .read) :
    Run (fun s e s' => Steady id s e ∧ Does id s e s') (State.opened startId) (events ++ [event]) state' :=
  h.snoc ⟨fun hr => absurd hr he, hd⟩

theorem stream_gapless_first : ∃ events state, Run (Does id) (State.opened Cursor.newest : State ℕ ℕ) events state ∧
    state.yielded = [7] ∧ Gapless id state := by
  have h0 := @steady_snoc .newest _ _ _ _ .nil (.add _ 3 nofun) nofun
  have h1 := steady_snoc h0 (.connect _ rfl) nofun
  have h2 := steady_snoc h1 (.send _ rfl) nofun
  have h3 := h2.snoc ⟨fun _ _ => nofun, .read _ ((3 : ℕ) : WithBot ℕ) rfl rfl⟩
  have h4 := steady_snoc h3 (.add _ 7 (by decide)) nofun
  have h5 := steady_snoc h4 (.serve _ ((3 : ℕ) : WithBot ℕ) rfl (by decide)) nofun
  have h6 := steady_snoc h5 (.receive _ [7] rfl) nofun
  have h7 := steady_snoc h6 (.yield _ 7 [] rfl) nofun
  exact ⟨_, _, h7.mono fun _ _ _ hd => hd.2, rfl, stream_gapless _ _ _ h7⟩

theorem stream_gap : ¬ ∀ (startId : Cursor ℕ) (events : List (Event ℕ)) (state : State ℕ ℕ),
    Run (Does id) (State.opened startId) events state → Gapless id state := by
  intro hall
  have h0 : Run (Does id) (State.opened Cursor.newest : State ℕ ℕ) _ _ := .single (.connect _ rfl)
  have h1 := h0.snoc (.send _ rfl)
  have h2 := h1.snoc (.read _ (⊥ : WithBot ℕ) rfl rfl)
  have h3 := h2.snoc (.timeout _ (⊥ : WithBot ℕ) rfl rfl)
  have h4 := h3.snoc (.receive _ [] rfl)
  have h5 := h4.snoc (.next _ rfl)
  have h6 := h5.snoc (.add _ 3 nofun)
  have h7 := h6.snoc (.send _ rfl)
  have h8 := h7.snoc (.read _ ((3 : ℕ) : WithBot ℕ) rfl rfl)
  have h9 := h8.snoc (.add _ 7 (by decide))
  have h10 := h9.snoc (.serve _ ((3 : ℕ) : WithBot ℕ) rfl (by decide))
  have h11 := h10.snoc (.receive _ [7] rfl)
  have h12 := h11.snoc (.yield _ 7 [] rfl)
  have hg : [7] <+: [3, 7] := hall _ _ _ h12
  exact absurd hg (by decide)

end Gqlforge.RedisStream
