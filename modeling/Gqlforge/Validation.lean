import Mathlib.Data.List.Basic

namespace Gqlforge.Validation

structure Cause (ε : Type) where
  message : ε
  description : Option ε
  trace : List String
  deriving DecidableEq

structure ValidationError (ε : Type) where
  first : Cause ε
  rest : List (Cause ε)
  deriving DecidableEq

def Cause.pushTrace {ε : Type} (cause : Cause ε) (message : String) : Cause ε :=
  { cause with trace := message :: cause.trace }

namespace ValidationError

variable {ε : Type}

def new (message : ε) : ValidationError ε := ⟨⟨message, none, []⟩, []⟩

def combine (error other : ValidationError ε) : ValidationError ε :=
  ⟨error.first, error.rest ++ other.first :: other.rest⟩

def trace (error : ValidationError ε) (message : String) : ValidationError ε :=
  ⟨error.first.pushTrace message, error.rest.map (·.pushTrace message)⟩

end ValidationError

abbrev Valid (α ε : Type) := Except (ValidationError ε) α

namespace Valid

variable {α β ε : Type}

def succeed (a : α) : Valid α ε := .ok a

def fail (message : ε) : Valid α ε := .error (.new message)

def failWith (message description : ε) : Valid α ε := .error ⟨⟨message, some description, []⟩, []⟩

def fromOption (option : Option α) (message : ε) : Valid α ε :=
  match option with
  | some a => succeed a
  | none => fail message

def andThen (valid : Valid α ε) (f : α → Valid β ε) : Valid β ε :=
  match valid with
  | .ok a => f a
  | .error e => .error e

def mapOk (valid : Valid α ε) (f : α → β) : Valid β ε :=
  valid.andThen fun a => succeed (f a)

def zip (valid : Valid α ε) (other : Valid β ε) : Valid (α × β) ε :=
  match valid, other with
  | .ok a, .ok b => .ok (a, b)
  | .ok _, .error e => .error e
  | .error e, .ok _ => .error e
  | .error e, .error e' => .error (e.combine e')

def and (valid : Valid α ε) (other : Valid β ε) : Valid β ε :=
  (valid.zip other).mapOk Prod.snd

def trace (valid : Valid α ε) (message : String) : Valid α ε :=
  match valid with
  | .ok a => .ok a
  | .error e => .error (e.trace message)

def collect : List (Valid α ε) → Valid (List α) ε
  | [] => succeed []
  | valid :: rest => (valid.zip (collect rest)).mapOk fun (a, as) => a :: as

def fromIter (items : List α) (f : α → Valid β ε) : Valid (List β) ε :=
  collect (items.map f)

def tryFoldAnd (first second : α → Valid α ε) (state : α) : Valid α ε :=
  match first state with
  | .ok state' => second state'
  | .error e => and (Except.error e : Valid α ε) (second state)

theorem collect_cons (valid : Valid α ε) (rest : List (Valid α ε)) :
    collect (valid :: rest) = (valid.zip (collect rest)).mapOk fun (a, as) => a :: as := rfl

theorem mapOk_eq_ok (valid : Valid α ε) (f : α → β) (b : β) : valid.mapOk f = .ok b ↔ ∃ a, valid = .ok a ∧ f a = b := by
  cases valid with
  | error e => simp [mapOk, andThen]
  | ok a => simp [mapOk, andThen, succeed]

theorem zip_eq_ok (valid : Valid α ε) (other : Valid β ε) (p : α × β) :
    valid.zip other = .ok p ↔ valid = .ok p.1 ∧ other = .ok p.2 := by
  obtain ⟨a, b⟩ := p
  cases valid <;> cases other <;> simp [zip]

theorem trace_eq_ok (valid : Valid α ε) (message : String) (a : α) : valid.trace message = .ok a ↔ valid = .ok a := by
  cases valid <;> simp [trace]

theorem andThen_eq_ok (valid : Valid α ε) (f : α → Valid β ε) (b : β) :
    valid.andThen f = .ok b ↔ ∃ a, valid = .ok a ∧ f a = .ok b := by
  cases valid <;> simp [andThen]

theorem and_eq_ok (valid : Valid α ε) (other : Valid β ε) (b : β) :
    valid.and other = .ok b ↔ (∃ a, valid = .ok a) ∧ other = .ok b := by
  cases valid <;> cases other <;> simp [and, zip, mapOk, andThen, succeed]

theorem tryFoldAnd_eq_ok (first second : α → Valid α ε) (state result : α) :
    tryFoldAnd first second state = .ok result ↔ ∃ state', first state = .ok state' ∧ second state' = .ok result := by
  unfold tryFoldAnd
  cases first state with
  | ok state' => simp
  | error e => cases second state <;> simp [and, zip, mapOk, andThen]

theorem collect_eq_ok (valids : List (Valid α ε)) (as : List α) : collect valids = .ok as ↔ valids = as.map .ok := by
  induction valids generalizing as with
  | nil => cases as <;> simp [collect, succeed]
  | cons valid rest ih =>
    rw [collect_cons, mapOk_eq_ok]
    simp only [zip_eq_ok, ih]
    constructor
    · rintro ⟨⟨a, as'⟩, ⟨rfl, rfl⟩, rfl⟩
      rfl
    · intro h
      cases as with
      | nil => cases h
      | cons a as' =>
        rw [List.map_cons, List.cons.injEq] at h
        exact ⟨(a, as'), h, rfl⟩

theorem fromIter_eq_ok (items : List α) (f : α → Valid β ε) (bs : List β) :
    fromIter items f = .ok bs ↔ items.map f = bs.map .ok :=
  collect_eq_ok (items.map f) bs

theorem fromIter_cons_eq_ok (a : α) (rest : List α) (f : α → Valid β ε) (bs : List β) :
    fromIter (a :: rest) f = .ok bs ↔ ∃ b bs', bs = b :: bs' ∧ f a = .ok b ∧ fromIter rest f = .ok bs' := by
  rw [fromIter_eq_ok]
  cases bs with
  | nil => simp
  | cons b bs' =>
    rw [List.map_cons, List.map_cons, List.cons.injEq, ← fromIter_eq_ok]
    constructor
    · exact fun h => ⟨b, bs', rfl, h⟩
    · rintro ⟨c, cs, hc, h⟩
      obtain ⟨rfl, rfl⟩ := List.cons.inj hc
      exact h

theorem fromIter_succeeds_iff (items : List α) (f : α → Valid β ε) :
    (∃ bs, fromIter items f = .ok bs) ↔ ∀ a ∈ items, ∃ b, f a = .ok b := by
  induction items with
  | nil => simp [fromIter, collect, succeed]
  | cons a rest ih =>
    rw [List.forall_mem_cons, ← ih]
    simp only [fromIter_cons_eq_ok]
    constructor
    · rintro ⟨_, b, bs, rfl, hb, hbs⟩
      exact ⟨⟨b, hb⟩, bs, hbs⟩
    · rintro ⟨⟨b, hb⟩, bs, hbs⟩
      exact ⟨_, b, bs, rfl, hb, hbs⟩

theorem mapOk_succeeds_iff (valid : Valid α ε) (f : α → β) : (∃ b, valid.mapOk f = .ok b) ↔ ∃ a, valid = .ok a := by
  simp [mapOk_eq_ok]

theorem zip_succeeds_iff (valid : Valid α ε) (other : Valid β ε) :
    (∃ p, valid.zip other = .ok p) ↔ (∃ a, valid = .ok a) ∧ ∃ b, other = .ok b := by
  simp [zip_eq_ok]

theorem trace_succeeds_iff (valid : Valid α ε) (message : String) :
    (∃ a, valid.trace message = .ok a) ↔ ∃ a, valid = .ok a := by
  simp [trace_eq_ok]

def causes : Valid α ε → List (Cause ε)
  | .ok _ => []
  | .error error => error.first :: error.rest

end Valid

section Option

variable {α β : Type}

def sequence : List (Option α) → Option (List α)
  | [] => some []
  | a :: rest => a.bind fun a => (sequence rest).map fun as => a :: as

theorem sequence_isSome (items : List (Option α)) :
    (sequence items).isSome = true ↔ ∀ item ∈ items, item.isSome = true := by
  induction items with
  | nil => simp [sequence]
  | cons item rest ih =>
    rw [sequence, List.forall_mem_cons, ← ih]
    cases item with
    | none => simp
    | some a => simp

theorem sequence_eq_some (items : List (Option α)) (as : List α) : sequence items = some as ↔ items = as.map some := by
  induction items generalizing as with
  | nil => cases as <;> simp [sequence]
  | cons item rest ih =>
    rw [sequence, Option.bind_eq_some_iff]
    simp only [Option.map_eq_some_iff, ih]
    constructor
    · rintro ⟨a, rfl, rest', rfl, rfl⟩
      rfl
    · intro h
      cases as with
      | nil => cases h
      | cons a as =>
        obtain ⟨rfl, rfl⟩ := List.cons.inj h
        exact ⟨a, rfl, as, rfl, rfl⟩

theorem sequence_map_isSome (items : List α) (f : α → Option β) :
    (sequence (items.map f)).isSome = true ↔ ∀ item ∈ items, (f item).isSome = true := by
  rw [sequence_isSome, List.forall_mem_map]

end Option

end Gqlforge.Validation
