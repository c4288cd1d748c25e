/-
HisiRiscv.Lib.Throughout — programs as action lists, with what holds on the way.

`Throughout step P Q s as` says that all of `as` can be taken from `s`, that
`P` holds in every state on the way, the first and the last included, and that
`Q` holds in the last. `Throughout.append` is the rule of sequence; a prefix of
the program ends in a state that meets `P` (`Throughout.of_prefix`), the whole
of it in one that meets `Q` (`Throughout.final`).
-/
import HisiRiscv.Lib.Machine

namespace HisiRiscv.Machine

variable {σ α : Type*} {step : σ → α → Option σ} {P Q R : σ → Prop} {s : σ} {as bs : List α}

/-- `P` holds all along the actions, and `Q` at their end. -/
def Throughout (step : σ → α → Option σ) (P Q : σ → Prop) (s : σ) : List α → Prop
  | [] => P s ∧ Q s
  | a :: as => P s ∧ ∃ t, step s a = some t ∧ Throughout step P Q t as

namespace Throughout

theorem cons {a : α} {t : σ} (h : P s) (hs : step s a = some t) (ht : Throughout step P Q t as) :
    Throughout step P Q s (a :: as) :=
  ⟨h, t, hs, ht⟩

theorem append (h : Throughout step P R s as) (hbs : ∀ t, R t → Throughout step P Q t bs) :
    Throughout step P Q s (as ++ bs) := by
  induction as generalizing s with
  | nil => exact hbs s h.2
  | cons a as ih =>
    obtain ⟨hP, t, hs, ht⟩ := h
    exact ⟨hP, t, hs, ih ht⟩

theorem of_prefix (h : Throughout step P Q s (as ++ bs)) : ∃ t, run step s as = some t ∧ P t := by
  induction as generalizing s with
  | nil =>
    refine ⟨s, rfl, ?_⟩
    cases bs with
    | nil => exact h.1
    | cons b bs => exact h.1
  | cons a as ih =>
    obtain ⟨-, t, hs, ht⟩ := h
    obtain ⟨u, hrun, hu⟩ := ih ht
    exact ⟨u, by rw [run, hs, Option.bind_some, hrun], hu⟩

theorem final (h : Throughout step P Q s as) : ∃ t, run step s as = some t ∧ Q t := by
  induction as generalizing s with
  | nil => exact ⟨s, rfl, h.2⟩
  | cons a as ih =>
    obtain ⟨-, t, hs, ht⟩ := h
    obtain ⟨u, hrun, hu⟩ := ih ht
    exact ⟨u, by rw [run, hs, Option.bind_some, hrun], hu⟩

end Throughout

end HisiRiscv.Machine
