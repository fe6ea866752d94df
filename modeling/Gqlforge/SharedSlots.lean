import Gqlforge.Runs

namespace Gqlforge.SharedSlots

open Runs

/-! ## Tasks -/

inductive Task (Q : Type) (Answer : Q → Type) (V R : Type) where
  | done (result : R)
  | ask (query : Q) (next : Answer query → Task Q Answer V R)
  | write (value : V) (next : Task Q Answer V R)
  | read (scope : List (Option V)) (next : Option V → Task Q Answer V R)
  | join (tasks : List (Task Q Answer V R)) (next : List R → Task Q Answer V R)

structure Reading (V : Type) where
  scope : List (Option V)
  seen : Option V

variable {Q : Type} {Answer : Q → Type} {V R : Type}

namespace Task

def bind : Task Q Answer V R → (R → Task Q Answer V R) → Task Q Answer V R
  | done result, k => k result
  | ask query next, k => ask query fun answer => (next answer).bind k
  | write value next, k => write value (next.bind k)
  | read scope next, k => read scope fun seen => (next seen).bind k
  | join tasks next, k => join tasks fun results => (next results).bind k

section

variable (answers : (query : Q) → Answer query → Prop)

inductive Step : Option V → Task Q Answer V R → Option (Reading V) → Option V → Task Q Answer V R → Prop
  | ask {slot : Option V} {query : Q} {next : Answer query → Task Q Answer V R} {answer : Answer query}
      (h : answers query answer) : Step slot (ask query next) none slot (next answer)
  | write {slot : Option V} {value : V} {next : Task Q Answer V R} : Step slot (write value next) none (some value) next
  | read {slot : Option V} {scope : List (Option V)} {next : Option V → Task Q Answer V R} :
      Step slot (read scope next) (some ⟨scope, slot⟩) slot (next slot)
  | item {slot slot' : Option V} {reading : Option (Reading V)} {task task' : Task Q Answer V R}
      {front back : List (Task Q Answer V R)} {next : List R → Task Q Answer V R}
      (h : Step slot task reading slot' task') :
      Step slot (join (front ++ task :: back) next) reading slot' (join (front ++ task' :: back) next)
  | joined {slot : Option V} {results : List R} {next : List R → Task Q Answer V R} :
      Step slot (join (results.map done) next) none slot (next results)

/-- Writes are of one value, and the reads that are meant to find something are meant to find that value and come
after it has been written. -/
inductive Keeps (own : Option V) : Bool → Task Q Answer V R → Prop
  | done {written : Bool} {result : R} : Keeps own written (done result)
  | ask {written : Bool} {query : Q} {next : Answer query → Task Q Answer V R}
      (h : ∀ answer, answers query answer → Keeps own written (next answer)) : Keeps own written (ask query next)
  | write {written : Bool} {value : V} {next : Task Q Answer V R} (hvalue : some value = own)
      (h : Keeps own true next) : Keeps own written (write value next)
  | read {written : Bool} {scope : List (Option V)} {next : Option V → Task Q Answer V R}
      (hscope : ∀ value ∈ scope, written = true ∧ value = own) (h : ∀ seen, Keeps own written (next seen)) :
      Keeps own written (read scope next)
  | join {written : Bool} {tasks : List (Task Q Answer V R)} {next : List R → Task Q Answer V R}
      (htasks : ∀ task ∈ tasks, Keeps own written task) (h : ∀ results, Keeps own written (next results)) :
      Keeps own written (join tasks next)

end

variable {answers : (query : Q) → Answer query → Prop} {own : Option V} {written : Bool}

theorem Keeps.mono {written' : Bool} {task : Task Q Answer V R} (h : Keeps answers own written task)
    (hle : written = true → written' = true) : Keeps answers own written' task := by
  induction h generalizing written' with
  | done => exact .done
  | ask _ ih => exact .ask fun answer hanswer => ih answer hanswer hle
  | write hvalue h => exact .write hvalue h
  | read hscope _ ih =>
    exact .read (fun value hvalue => ⟨hle (hscope value hvalue).1, (hscope value hvalue).2⟩) fun seen => ih seen hle
  | join _ _ ihtasks ih => exact .join (fun task htask => ihtasks task htask hle) fun results => ih results hle

theorem Keeps.bind {task : Task Q Answer V R} {k : R → Task Q Answer V R} (h : Keeps answers own written task)
    (hk : ∀ result, Keeps answers own written (k result)) : Keeps answers own written (task.bind k) := by
  induction h with
  | done => exact hk _
  | ask _ ih => exact .ask fun answer hanswer => ih answer hanswer hk
  | write hvalue _ ih => exact .write hvalue (ih fun result => (hk result).mono fun _ => rfl)
  | read hscope _ ih => exact .read hscope fun seen => ih seen hk
  | join htasks _ _ ih => exact .join htasks fun results => ih results hk

theorem Step.keeps {slot slot' : Option V} {reading : Option (Reading V)} {task task' : Task Q Answer V R}
    (hstep : Step answers slot task reading slot' task') (hslot : written = true → slot = own)
    (h : Keeps answers own written task) :
    (∃ written' : Bool, (written = true → written' = true) ∧ (written' = true → slot' = own) ∧
      Keeps answers own written' task') ∧ (slot = own → slot' = own) ∧
      ∀ r ∈ reading, ∀ value ∈ r.scope, value = r.seen := by
  induction hstep generalizing written with
  | ask hanswer =>
    cases h with
    | ask h => exact ⟨⟨written, id, hslot, h _ hanswer⟩, id, nofun⟩
  | write =>
    cases h with
    | write hvalue h => exact ⟨⟨true, fun _ => rfl, fun _ => hvalue, h⟩, fun _ => hvalue, nofun⟩
  | read =>
    cases h with
    | read hscope h =>
      refine ⟨⟨written, id, hslot, h _⟩, id, fun r hr value hvalue => ?_⟩
      cases hr
      obtain ⟨hwritten, rfl⟩ := hscope value hvalue
      exact (hslot hwritten).symm
  | @item _ _ task task' front back _ _ ih =>
    cases h with
    | join htasks h =>
      obtain ⟨⟨written', hle, hslot', htask'⟩, hown, hreading⟩ := ih hslot (htasks task (by simp))
      refine ⟨⟨written', hle, hslot', .join (fun other hother => ?_) fun results => (h results).mono hle⟩, hown,
        hreading⟩
      rcases List.mem_append.mp hother with hfront | hback
      · exact (htasks other (List.mem_append_left _ hfront)).mono hle
      · rcases List.mem_cons.mp hback with rfl | hback
        · exact htask'
        · exact (htasks other (List.mem_append_right _ (List.mem_cons_of_mem _ hback))).mono hle
  | joined =>
    cases h with
    | join _ h => exact ⟨⟨written, id, hslot, h _⟩, id, nofun⟩

end Task

/-! ## Systems -/

structure System (Q : Type) (Answer : Q → Type) (V R : Type) where
  slot : Option V
  tasks : List (Task Q Answer V R)

inductive Does (answers : (query : Q) → Answer query → Prop) (starts : Task Q Answer V R → Prop) :
    System Q Answer V R → Option (Reading V) → System Q Answer V R → Prop
  | start {slot : Option V} {tasks : List (Task Q Answer V R)} {task : Task Q Answer V R} (h : starts task) :
      Does answers starts ⟨slot, tasks⟩ none ⟨slot, tasks ++ [task]⟩
  | step {slot slot' : Option V} {reading : Option (Reading V)} {task task' : Task Q Answer V R}
      {front back : List (Task Q Answer V R)} (h : Task.Step answers slot task reading slot' task') :
      Does answers starts ⟨slot, front ++ task :: back⟩ reading ⟨slot', front ++ task' :: back⟩

variable {answers : (query : Q) → Answer query → Prop} {starts : Task Q Answer V R → Prop} {own : Option V}

structure Kept (answers : (query : Q) → Answer query → Prop) (own : Option V) (events : List (Option (Reading V)))
    (system : System Q Answer V R) : Prop where
  /-- Nothing is written when there is no value. -/
  empty : own = none → system.slot = own
  tasks : ∀ task ∈ system.tasks, ∃ written : Bool, (written = true → system.slot = own) ∧
    task.Keeps answers own written
  readings : ∀ reading, some reading ∈ events → ∀ value ∈ reading.scope, value = reading.seen

theorem Kept.does (hstarts : ∀ task, starts task → task.Keeps answers own own.isNone)
    {events : List (Option (Reading V))} {event : Option (Reading V)} {system system' : System Q Answer V R}
    (hkept : Kept answers own events system) (h : Does answers starts system event system') :
    Kept answers own (events ++ [event]) system' := by
  cases h with
  | @start slot tasks task hstart =>
    refine ⟨hkept.empty, fun other hother => ?_, fun reading hreading => ?_⟩
    · rcases List.mem_append.mp hother with hmem | hmem
      · exact hkept.tasks other hmem
      · cases List.mem_singleton.mp hmem
        exact ⟨own.isNone, fun hnone => hkept.empty (Option.isNone_iff_eq_none.mp hnone), hstarts task hstart⟩
    · rcases List.mem_append.mp hreading with hmem | hmem
      · exact hkept.readings reading hmem
      · cases List.mem_singleton.mp hmem
  | @step slot slot' _ task task' front back hstep =>
    obtain ⟨written, hslot, hkeeps⟩ := hkept.tasks task (by simp)
    obtain ⟨⟨written', _, hslot', htask'⟩, hown, hreading⟩ := hstep.keeps hslot hkeeps
    have hother (other : Task Q Answer V R) (hmem : other ∈ front ++ task :: back) :
        ∃ written : Bool, (written = true → slot' = own) ∧ other.Keeps answers own written := by
      obtain ⟨written, hslot, hkeeps⟩ := hkept.tasks other hmem
      exact ⟨written, fun hwritten => hown (hslot hwritten), hkeeps⟩
    refine ⟨fun hnone => hown (hkept.empty hnone), fun other hmem => ?_, fun reading hmem => ?_⟩
    · rcases List.mem_append.mp hmem with hfront | hback
      · exact hother other (List.mem_append_left _ hfront)
      · rcases List.mem_cons.mp hback with rfl | hback
        · exact ⟨written', hslot', htask'⟩
        · exact hother other (List.mem_append_right _ (List.mem_cons_of_mem _ hback))
    · rcases List.mem_append.mp hmem with hmem | hmem
      · exact hkept.readings reading hmem
      · exact hreading reading (List.mem_singleton.mp hmem).symm

theorem kept_run (hstarts : ∀ task, starts task → task.Keeps answers own own.isNone)
    {events : List (Option (Reading V))} {system : System Q Answer V R}
    (h : Run (Does answers starts) ⟨none, []⟩ events system) : Kept answers own events system :=
  h.holds (Kept answers own)
    ⟨fun hnone => hnone.symm, fun _ htask => absurd htask List.not_mem_nil,
      fun _ hreading => absurd hreading List.not_mem_nil⟩
    fun _ _ _ _ hkept hdoes => hkept.does hstarts hdoes

end Gqlforge.SharedSlots
