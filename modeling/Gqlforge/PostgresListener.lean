import Gqlforge.Runs

namespace Gqlforge.PostgresListener

inductive Driver (Channel : Type) where
  | connecting
  | connected (conn : ℕ)
  | stored (conn : ℕ)
  | reissuing (conn : ℕ) (due reissued : Channel → Bool)
  | listening (conn : ℕ) (due reissued : Channel → Bool) (channel : Channel) (answer : Option Bool)
  | polling (conn : ℕ)
  | sleeping

inductive Task where
  | waiting
  | ready
  | registered
  | listening (conn : ℕ) (answer : Option Bool)
  | subscribed
  | failed
  | dropped
  deriving DecidableEq

inductive Lock (Caller : Type) where
  | free
  | driver
  | caller (caller : Caller)

structure State (Channel Caller : Type) where
  driver : Driver Channel
  client : Option ℕ
  lock : Lock Caller
  senders : Channel → Bool
  task : Caller → Task
  listened : Channel → Bool
  connections : ℕ

inductive Event (Channel Caller : Type) where
  | connect
  | refuse
  | store
  | reissue
  | next (channel : Channel)
  | answered
  | finish
  | message
  | lost
  | wake
  | answer (result : Bool)
  | see (caller : Caller)
  | register (caller : Caller)
  | listen (caller : Caller)
  | reply (caller : Caller) (result : Bool)
  | return (caller : Caller)
  | timeout (caller : Caller)
  | drop (caller : Caller)

def Event.ByDriver {Channel Caller : Type} : Event Channel Caller → Prop
  | .connect | .refuse | .store | .reissue | .next _ | .answered | .finish | .message | .lost | .wake => True
  | _ => False

section

variable {Channel Caller : Type} [DecidableEq Channel] [DecidableEq Caller]

namespace State

def start : State Channel Caller where
  driver := .connecting
  client := none
  lock := .free
  senders _ := false
  task _ := .waiting
  listened _ := false
  connections := 0

def Polled (state : State Channel Caller) (conn : ℕ) : Prop :=
  state.driver = .polling conn

def isOpen (state : State Channel Caller) (conn : ℕ) : Bool :=
  match state.driver with
  | .connected c | .stored c | .reissuing c _ _ | .listening c _ _ _ _ | .polling c => c == conn
  | .connecting | .sleeping => false

def withTask (state : State Channel Caller) (caller : Caller) (task : Task) : State Channel Caller :=
  { state with task := Function.update state.task caller task }

def dropConnection (state : State Channel Caller) (conn : ℕ) : State Channel Caller :=
  { state with
    driver := .sleeping
    listened := fun _ => false
    task := fun caller => if state.task caller = .listening conn none then .listening conn (some false)
      else state.task caller }

def listen (state : State Channel Caller) (caller : Caller) : State Channel Caller :=
  match state.client with
  | some conn =>
    { state with
      lock := .caller caller
      task := Function.update state.task caller
        (.listening conn (if state.isOpen conn then none else some false)) }
  | none => state.withTask caller .failed

def reply (state : State Channel Caller) (caller : Caller) (conn : ℕ) (channel : Channel) (result : Bool) :
    State Channel Caller :=
  { state with
    task := Function.update state.task caller (.listening conn (some result))
    listened := if result then Function.update state.listened channel true else state.listened }

end State

variable (channel : Caller → Channel)

inductive Does : State Channel Caller → Event Channel Caller → State Channel Caller → Prop
  | connect (state : State Channel Caller) (h : state.driver = .connecting) :
    Does state .connect { state with driver := .connected state.connections, connections := state.connections + 1 }
  | refuse (state : State Channel Caller) (h : state.driver = .connecting) :
    Does state .refuse { state with driver := .sleeping }
  | store (state : State Channel Caller) (conn : ℕ) (h : state.driver = .connected conn) (hl : state.lock = .free) :
    Does state .store { state with driver := .stored conn, client := some conn }
  | reissue (state : State Channel Caller) (conn : ℕ) (h : state.driver = .stored conn) (hl : state.lock = .free) :
    Does state .reissue { state with driver := .reissuing conn state.senders (fun _ => false), lock := .driver }
  | next (state : State Channel Caller) (conn : ℕ) (due reissued : Channel → Bool) (ch : Channel)
      (h : state.driver = .reissuing conn due reissued) (hs : state.senders ch = true) (hr : reissued ch = false) :
    Does state (.next ch) { state with driver := .listening conn due reissued ch none }
  | answer (state : State Channel Caller) (conn : ℕ) (due reissued : Channel → Bool) (ch : Channel) (result : Bool)
      (h : state.driver = .listening conn due reissued ch none) (hp : state.Polled conn) :
    Does state (.answer result)
      { state with
        driver := .listening conn due reissued ch (some result)
        listened := if result then Function.update state.listened ch true else state.listened }
  | answered (state : State Channel Caller) (conn : ℕ) (due reissued : Channel → Bool) (ch : Channel) (result : Bool)
      (h : state.driver = .listening conn due reissued ch (some result)) :
    Does state .answered { state with driver := .reissuing conn due (Function.update reissued ch true) }
  -- a channel that is registered during the iteration may be missed
  | finish (state : State Channel Caller) (conn : ℕ) (due reissued : Channel → Bool)
      (h : state.driver = .reissuing conn due reissued) (hd : ∀ ch, due ch = true → reissued ch = true) :
    Does state .finish { state with driver := .polling conn, lock := .free }
  | message (state : State Channel Caller) (conn : ℕ) (h : state.driver = .polling conn) :
    Does state .message state
  | lost (state : State Channel Caller) (conn : ℕ) (h : state.driver = .polling conn) :
    Does state .lost (state.dropConnection conn)
  | wake (state : State Channel Caller) (h : state.driver = .sleeping) :
    Does state .wake { state with driver := .connecting }
  | see (state : State Channel Caller) (caller : Caller) (h : state.task caller = .waiting)
      (hl : state.lock = .free) (hc : state.client ≠ none) :
    Does state (.see caller) (state.withTask caller .ready)
  | register (state : State Channel Caller) (caller : Caller) (h : state.task caller = .ready) :
    Does state (.register caller)
      { state.withTask caller .registered with senders := Function.update state.senders (channel caller) true }
  | listen (state : State Channel Caller) (caller : Caller) (h : state.task caller = .registered)
      (hl : state.lock = .free) :
    Does state (.listen caller) (state.listen caller)
  | reply (state : State Channel Caller) (caller : Caller) (conn : ℕ) (result : Bool)
      (h : state.task caller = .listening conn none) (hp : state.Polled conn) :
    Does state (.reply caller result) (state.reply caller conn (channel caller) result)
  | return (state : State Channel Caller) (caller : Caller) (conn : ℕ) (result : Bool)
      (h : state.task caller = .listening conn (some result)) :
    Does state (.return caller)
      { state.withTask caller (if result then .subscribed else .failed) with lock := .free }
  | timeout (state : State Channel Caller) (caller : Caller) (h : state.task caller = .waiting)
      (hl : state.lock = .free) (hc : state.client = none) :
    Does state (.timeout caller) (state.withTask caller .failed)
  | drop (state : State Channel Caller) (caller : Caller)
      (h : state.task caller ≠ .failed ∧ ∀ conn answer, state.task caller ≠ .listening conn answer) :
    Does state (.drop caller) (state.withTask caller .dropped)
  -- the guard of the client goes with the call that holds it
  | dropListening (state : State Channel Caller) (caller : Caller) (conn : ℕ) (answer : Option Bool)
      (h : state.task caller = .listening conn answer) :
    Does state (.drop caller) { state.withTask caller .dropped with lock := .free }

end

end Gqlforge.PostgresListener
