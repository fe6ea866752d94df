import Mathlib.Logic.Basic

namespace Gqlforge.Outcomes

section

variable {σ ε α β : Type} {w : Prop} {post : α → Prop} {post' : β → Prop}

theorem bind_eq_ok (x : StateT σ (Except ε) α) (f : α → StateT σ (Except ε) β) (s : σ) (result : β × σ) :
    (x >>= f) s = .ok result ↔ ∃ a s', x s = .ok (a, s') ∧ f a s' = .ok result := by
  have hbind : (x >>= f) s = (x s >>= fun p => f p.1 p.2) := rfl
  rw [hbind]
  cases x s with
  | error e => simp [bind, Except.bind]
  | ok p =>
    obtain ⟨a, s'⟩ := p
    constructor
    · intro h
      exact ⟨a, s', rfl, h⟩
    · rintro ⟨a', s'', he, h⟩
      obtain ⟨rfl, rfl⟩ := Prod.mk.inj (Except.ok.inj he)
      exact h

theorem pure_eq_ok (a : α) (s : σ) (result : α × σ) :
    (pure a : StateT σ (Except ε) α) s = .ok result ↔ (a, s) = result := by
  have hpure : (pure a : StateT σ (Except ε) α) s = .ok (a, s) := rfl
  rw [hpure, Except.ok.injEq]

/-- Every result of the computation satisfies `post`, and under the assumption `w` there is one. -/
def Settles (w : Prop) (x : StateT σ (Except ε) α) (post : α → Prop) : Prop :=
  ∀ s, (∀ a s', x s = .ok (a, s') → post a) ∧ (w → ∃ a s', x s = .ok (a, s'))

theorem settles_pure {a : α} (h : post a) : Settles w (pure a : StateT σ (Except ε) α) post := by
  intro s
  constructor
  · intro a' s' ha
    obtain ⟨rfl, -⟩ := Prod.mk.inj ((pure_eq_ok a s (a', s')).mp ha)
    exact h
  · intro _
    exact ⟨a, s, rfl⟩

theorem settles_bind {x : StateT σ (Except ε) α} {f : α → StateT σ (Except ε) β} (hx : Settles w x post)
    (hf : ∀ a, post a → Settles w (f a) post') : Settles w (x >>= f) post' := by
  intro s
  have hbind : (x >>= f) s = (x s >>= fun p => f p.1 p.2) := rfl
  rw [hbind]
  obtain ⟨hpost, htotal⟩ := hx s
  cases hr : x s with
  | error e =>
    constructor
    · intro b s' hb
      exact absurd hb (by simp [bind, Except.bind])
    · intro hw
      obtain ⟨a, s', ha⟩ := htotal hw
      rw [hr] at ha
      exact absurd ha (by simp)
  | ok p =>
    obtain ⟨a, s'⟩ := p
    exact hf a (hpost a s' hr) s'

theorem settles_mono {post₁ post₂ : α → Prop} {x : StateT σ (Except ε) α} (h : Settles w x post₁)
    (hp : ∀ a, post₁ a → post₂ a) : Settles w x post₂ := by
  intro s
  exact ⟨fun a s' ha => hp a ((h s).1 a s' ha), (h s).2⟩

theorem settles_modify (f : σ → σ) : Settles w (modify f : StateT σ (Except ε) Unit) fun _ => True := by
  intro s
  exact ⟨fun _ _ _ => trivial, fun _ => ⟨(), f s, rfl⟩⟩

theorem settles_throw (e : ε) (h : ¬ w) : Settles w (throw e : StateT σ (Except ε) α) post := by
  intro s
  have hthrow : (throw e : StateT σ (Except ε) α) s = .error e := rfl
  rw [hthrow]
  exact ⟨fun _ _ ha => absurd ha (by simp), fun hw => absurd hw h⟩

theorem settles_get : Settles w (get : StateT σ (Except ε) σ) fun _ => True := by
  intro s
  exact ⟨fun _ _ _ => trivial, fun _ => ⟨s, s, rfl⟩⟩

end

end Gqlforge.Outcomes
