import Mathlib.Logic.Relation

namespace Gqlforge.Sharing

section

variable {State : Type} {step : State → State → Prop}

theorem holds_of_reached {inv : State → Prop} (hstep : ∀ s s', inv s → step s s' → inv s') {s s' : State}
    (hs : inv s) (h : Relation.ReflTransGen step s s') : inv s' := by
  induction h with
  | refl => exact hs
  | tail _ hlast ih => exact hstep _ _ ih hlast

end

section

variable {Caller Key Answer : Type}

def Shared (key : Caller → Key) (made : Caller → Answer → Prop) (caller : Caller) (answer : Answer) : Prop :=
  ∃ maker, key maker = key caller ∧ made maker answer

variable {key : Caller → Key} {made made' : Caller → Answer → Prop} {caller : Caller} {answer : Answer}

theorem shared_self (h : made caller answer) : Shared key made caller answer :=
  ⟨caller, rfl, h⟩

theorem shared_mono (hm : ∀ caller answer, made caller answer → made' caller answer)
    (h : Shared key made caller answer) : Shared key made' caller answer := by
  obtain ⟨maker, hk, h⟩ := h
  exact ⟨maker, hk, hm maker answer h⟩

theorem shared_of_key_eq {other : Caller} (hk : key other = key caller) (h : Shared key made other answer) :
    Shared key made caller answer := by
  obtain ⟨maker, hm, h⟩ := h
  exact ⟨maker, hm.trans hk, h⟩

theorem shared_shared {Outer : Type} {outer : Caller → Outer}
    (hk : ∀ caller caller', outer caller = outer caller' → key caller = key caller')
    (h : Shared outer (Shared key made) caller answer) : Shared key made caller answer := by
  obtain ⟨maker, hm, h⟩ := h
  exact shared_of_key_eq (hk maker caller hm) h

theorem shared_asked {Question : Type} (asked : Caller → Question)
    (hk : ∀ caller caller', key caller = key caller' → asked caller = asked caller')
    (h : Shared key made caller answer) : Shared asked made caller answer := by
  obtain ⟨maker, hm, h⟩ := h
  exact ⟨maker, hk maker caller hm, h⟩

end

end Gqlforge.Sharing
