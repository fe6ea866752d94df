import Mathlib.Data.List.Basic
import Mathlib.Control.Monad.Basic

namespace Gqlforge.StateRules

section

variable {S E ε α β : Type}

section

variable (log : S → List E) (kind : E → Prop)

/-- In every state the run adds nothing but entries of a kind to the log, and ends with a value that is as it
should be. -/
def Adds (run : StateM S α) (post : α → Prop) : Prop :=
  ∀ s, ∃ new, log (run.run s).2 = log s ++ new ∧ (∀ entry ∈ new, kind entry) ∧ post (run.run s).1

def Succeeds (post : α → Prop) (result : Except ε α) : Prop :=
  ∀ value, result = .ok value → post value

variable {log kind}

variable {value : α} {post : α → Prop}

theorem adds_pure (h : post value) : Adds log kind (pure value) post := by
  intro s
  exact ⟨[], (List.append_nil _).symm, by simp, h⟩

variable {run : StateM S α}

theorem adds_silent (hlog : ∀ s, log (run.run s).2 = log s)
    (hpost : ∀ s, post (run.run s).1) : Adds log kind run post := by
  intro s
  exact ⟨[], by rw [hlog, List.append_nil], by simp, hpost s⟩

theorem adds_bind {next : α → StateM S β} {middle : α → Prop} {post : β → Prop} (h : Adds log kind run middle)
    (hnext : ∀ value, middle value → Adds log kind (next value) post) : Adds log kind (run >>= next) post := by
  intro s
  obtain ⟨new, hlog, hnew, hmiddle⟩ := h s
  obtain ⟨new', hlog', hnew', hpost⟩ := hnext (run.run s).1 hmiddle (run.run s).2
  refine ⟨new ++ new', ?_, ?_, hpost⟩
  · have he := hlog'.trans (congrArg (· ++ new') hlog)
    rw [List.append_assoc] at he
    exact he
  · intro entry he
    rcases List.mem_append.mp he with he | he
    · exact hnew entry he
    · exact hnew' entry he

theorem adds_mono {kind' : E → Prop} {post' : α → Prop} (h : Adds log kind run post)
    (hkind : ∀ entry, kind entry → kind' entry) (hpost : ∀ value, post value → post' value) :
    Adds log kind' run post' := by
  intro s
  obtain ⟨new, hlog, hnew, hp⟩ := h s
  exact ⟨new, hlog, fun entry he => hkind entry (hnew entry he), hpost _ hp⟩

theorem adds_mapM {γ : Type} {items : List γ} {run : γ → StateM S α}
    (h : ∀ item ∈ items, Adds log kind (run item) fun _ => True) : Adds log kind (items.mapM run) fun _ => True := by
  induction items with
  | nil =>
    rw [List.mapM_nil]
    exact adds_pure trivial
  | cons first rest ih =>
    rw [List.mapM_cons]
    refine adds_bind (h first List.mem_cons_self) fun _ _ => ?_
    refine adds_bind (ih fun item hi => h item (List.mem_cons_of_mem _ hi)) fun _ _ => ?_
    exact adds_pure trivial

theorem succeeds_ok (h : post value) : Succeeds post (.ok value : Except ε α) := by
  intro value' he
  exact Except.ok.inj he ▸ h

theorem adds_ok (h : post value) : Adds log kind (pure value : ExceptT ε (StateM S) α).run (Succeeds post) :=
  adds_pure (succeeds_ok h)

theorem adds_throw {error : ε} : Adds log kind (throw error : ExceptT ε (StateM S) α).run (Succeeds post) :=
  adds_pure (fun _ he => nomatch he)

theorem adds_except {run : ExceptT ε (StateM S) α} {next : α → ExceptT ε (StateM S) β} {middle : α → Prop}
    {post : β → Prop} (h : Adds log kind run.run (Succeeds middle))
    (hnext : ∀ value, middle value → Adds log kind (next value).run (Succeeds post)) :
    Adds log kind (run >>= next).run (Succeeds post) := by
  rw [ExceptT.run_bind]
  refine adds_bind h fun result hresult => ?_
  cases result with
  | error error => exact adds_throw
  | ok value => exact hnext value (hresult value rfl)

theorem adds_lift {result : Except ε α} :
    Adds log kind (liftM result : ExceptT ε (StateM S) α).run (Succeeds fun _ => True) :=
  adds_silent (fun _ => rfl) fun _ _ _ => trivial

end

section

variable (rel : S → S → Prop)

def Agree (run run' : StateM S α) : Prop :=
  ∀ s s', rel s s' → (run.run s).1 = (run'.run s').1 ∧ rel (run.run s).2 (run'.run s').2

variable {rel}

theorem agree_pure {value : α} : Agree rel (pure value) (pure value) :=
  fun _ _ h => ⟨rfl, h⟩

theorem agree_bind {run run' : StateM S α} {next next' : α → StateM S β} (h : Agree rel run run')
    (hnext : ∀ value, Agree rel (next value) (next' value)) : Agree rel (run >>= next) (run' >>= next') := by
  intro s s' hs
  obtain ⟨hvalue, hrel⟩ := h s s' hs
  have hboth := hnext (run.run s).1 _ _ hrel
  have he : (run' >>= next').run s' = (next' (run'.run s').1).run (run'.run s').2 := rfl
  rw [he, ← hvalue]
  exact hboth

theorem agree_mapM {γ δ : Type} {items : List γ} {items' : List δ} {run : γ → StateM S α} {run' : δ → StateM S α}
    (h : List.Forall₂ (fun item item' => Agree rel (run item) (run' item')) items items') :
    Agree rel (items.mapM run) (items'.mapM run') := by
  induction h with
  | nil => exact agree_pure
  | cons hfirst _ ih =>
    rw [List.mapM_cons, List.mapM_cons]
    refine agree_bind hfirst fun value => ?_
    exact agree_bind ih fun values => agree_pure

theorem agree_except {run run' : ExceptT ε (StateM S) α} {next next' : α → ExceptT ε (StateM S) β}
    (h : Agree rel run.run run'.run) (hnext : ∀ value, Agree rel (next value).run (next' value).run) :
    Agree rel (run >>= next).run (run' >>= next').run := by
  rw [ExceptT.run_bind, ExceptT.run_bind]
  refine agree_bind h fun result => ?_
  cases result with
  | error error => exact agree_pure
  | ok value => exact hnext value

theorem agree_extra {run : ExceptT ε (StateM S) α} {next : α → ExceptT ε (StateM S) β} {run' : StateM S (Except ε β)}
    (h : ∀ s s', rel s s' → ∃ value, (run.run.run s).1 = .ok value ∧ rel (run.run.run s).2 s')
    (hnext : ∀ value, Agree rel (next value).run run') : Agree rel (run >>= next).run run' := by
  intro s s' hs
  obtain ⟨value, hvalue, hrel⟩ := h s s' hs
  have he : (run >>= next).run.run s = (next value).run.run (run.run.run s).2 := by
    rw [ExceptT.run_bind]
    change (match (run.run.run s).1 with
      | .ok value => (next value).run
      | .error error => pure (.error error)).run (run.run.run s).2 = _
    rw [hvalue]
  rw [he]
  exact hnext value _ _ hrel

end

end

end Gqlforge.StateRules
