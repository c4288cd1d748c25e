/-
HisiRiscv.Lib.Machine — labelled machines and their runs.

A machine is a partial step function `step : σ → α → Option σ`: the action
says who moves and what the environment answers, `none` says that the
action is not enabled. `Steps step ok s as t` is a run from `s` to `t`
along the actions `as`, every step of which meets the side condition
`ok` in the state it is taken from. The unconditional run is the case
`ok = Always`.

The rules used elsewhere: an invariant is proved step by step
(`Steps.invariant`), a simulation likewise (`Steps.simulates`), and a
concrete run is obtained by evaluation (`Steps.of_run`).
-/
import Mathlib.Data.List.Basic

namespace HisiRiscv.Machine

variable {σ α : Type*}

/-- No side condition. -/
def Always (_ : σ) (_ : α) : Prop := True

/-- A run whose steps all meet `ok`. -/
inductive Steps (step : σ → α → Option σ) (ok : σ → α → Prop) (s : σ) : List α → σ → Prop
  | nil : Steps step ok s [] s
  | snoc {as : List α} {t u : σ} {a : α} :
      Steps step ok s as t → ok t a → step t a = some u → Steps step ok s (as ++ [a]) u

/-- The state a list of actions leads to, if every action is enabled. -/
def run (step : σ → α → Option σ) (s : σ) : List α → Option σ
  | [] => some s
  | a :: as => (step s a).bind fun t => run step t as

/-- The machine that also refuses the actions that do not meet `ok`. -/
def guarded (step : σ → α → Option σ) (ok : σ → α → Prop) [∀ s a, Decidable (ok s a)] (s : σ)
    (a : α) : Option σ :=
  if ok s a then step s a else none

theorem run_append (step : σ → α → Option σ) (s : σ) (as bs : List α) :
    run step s (as ++ bs) = (run step s as).bind fun t => run step t bs := by
  induction as generalizing s with
  | nil => rfl
  | cons a as ih =>
    simp only [List.cons_append, run, Option.bind_assoc]
    exact Option.bind_congr fun t _ => ih t

namespace Steps

variable {step : σ → α → Option σ} {ok : σ → α → Prop} {s t u : σ}

/-- The actions of a run lead where it leads. -/
theorem run_eq {as : List α} (h : Steps step ok s as t) : run step s as = some t := by
  induction h with
  | nil => rfl
  | snoc _ _ hs ih =>
    rw [run_append, ih, Option.bind_some, run, hs]
    rfl

/-- What holds at the start and is kept by every step holds at the end. -/
theorem invariant {I : σ → Prop} {as : List α} (h : Steps step ok s as t) (h0 : I s)
    (hstep : ∀ t a u, I t → ok t a → step t a = some u → I u) : I t := by
  induction h with
  | nil => exact h0
  | snoc _ hok hs ih => exact hstep _ _ _ ih hok hs

/-- The same for what is also said about the actions that have led there. -/
theorem invariant_run {I : List α → σ → Prop} {as : List α} (h : Steps step ok s as t) (h0 : I [] s)
    (hstep : ∀ as t a u, Steps step ok s as t → I as t → ok t a → step t a = some u → I (as ++ [a]) u) :
    I as t := by
  induction h with
  | nil => exact h0
  | snoc hrun hok hs ih => exact hstep _ _ _ _ hrun ih hok hs

/-- A machine whose steps can all be taken by another, in states that are related, is simulated by it. -/
theorem simulates {τ : Type*} {step' : τ → α → Option τ} {R : σ → τ → Prop} {s' : τ} {as : List α}
    (h : Steps step ok s as t) (h0 : R s s')
    (hstep : ∀ t a u t', R t t' → ok t a → step t a = some u → ∃ u', step' t' a = some u' ∧ R u u') :
    ∃ t', Steps step' Always s' as t' ∧ R t t' := by
  induction h with
  | nil => exact ⟨s', .nil, h0⟩
  | snoc _ hok hs ih =>
    obtain ⟨t', hrun, hR⟩ := ih
    obtain ⟨u', hs', hR'⟩ := hstep _ _ _ _ hR hok hs
    exact ⟨u', .snoc hrun trivial hs', hR'⟩

theorem single {a : α} (hok : ok s a) (hs : step s a = some t) : Steps step ok s [a] t :=
  .snoc .nil hok hs

theorem append {as bs : List α} (h : Steps step ok s as t) (h' : Steps step ok t bs u) :
    Steps step ok s (as ++ bs) u := by
  induction h' with
  | nil => rwa [List.append_nil]
  | snoc _ hok hs ih =>
    rw [← List.append_assoc]
    exact .snoc ih hok hs

theorem cons {a : α} {as : List α} (hok : ok s a) (hs : step s a = some t)
    (h : Steps step ok t as u) : Steps step ok s (a :: as) u :=
  (single hok hs).append h

/-- Evaluating the actions gives a run. -/
theorem of_run {as : List α} (h : run step s as = some t) : Steps step Always s as t := by
  induction as generalizing s with
  | nil =>
    cases h
    exact .nil
  | cons a as ih =>
    obtain ⟨m, hm, hrest⟩ := Option.bind_eq_some_iff.mp h
    exact cons trivial hm (ih hrest)

/-- Evaluating the actions of the guarded machine gives a run that meets the
condition. -/
theorem of_run_guarded [∀ s a, Decidable (ok s a)] {as : List α}
    (h : run (guarded step ok) s as = some t) : Steps step ok s as t := by
  induction as generalizing s with
  | nil =>
    cases h
    exact .nil
  | cons a as ih =>
    obtain ⟨m, hm, hrest⟩ := Option.bind_eq_some_iff.mp h
    by_cases hok : ok s a
    · rw [guarded, if_pos hok] at hm
      exact cons hok hm (ih hrest)
    · rw [guarded, if_neg hok] at hm
      cases hm

end Steps

/-- The states some run reaches from an initial state. -/
def Reachable (step : σ → α → Option σ) (init t : σ) : Prop := ∃ as, Steps step Always init as t

theorem Reachable.invariant {step : σ → α → Option σ} {init t : σ} {I : σ → Prop}
    (h : Reachable step init t) (h0 : I init)
    (hstep : ∀ t a u, I t → step t a = some u → I u) : I t := by
  obtain ⟨as, hrun⟩ := h
  exact hrun.invariant h0 fun t a u hI _ hs => hstep t a u hI hs

end HisiRiscv.Machine
