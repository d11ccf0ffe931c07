import Mathlib.Data.List.Basic

/-! # Runs of a step relation

A run is a list of actions that lead from one state to another. Invariants and
the lengths of runs are derived from what one step does.
-/

namespace PizzaChain

inductive Transitions (step : σ → α → σ → Prop) : σ → List α → σ → Prop
  | nil (state) : Transitions step state [] state
  | cons {current middle final action actions} :
      step current action middle →
      Transitions step middle actions final →
      Transitions step current (action :: actions) final

namespace Transitions

variable {step : σ → α → σ → Prop}

theorem mono_of_mem {other : σ → α → σ → Prop}
    (weaker : ∀ action ∈ actions, ∀ current next,
      step current action next → other current action next)
    (transitions : Transitions step initial actions final) :
    Transitions other initial actions final := by
  induction transitions with
  | nil => exact .nil _
  | cons first _ induction =>
      refine .cons (weaker _ List.mem_cons_self _ _ first) (induction fun action member => ?_)
      exact weaker action (List.mem_cons_of_mem _ member)

theorem mono {other : σ → α → σ → Prop}
    (weaker : ∀ current action next, step current action next → other current action next)
    (transitions : Transitions step initial actions final) :
    Transitions other initial actions final :=
  transitions.mono_of_mem fun action _ current => weaker current action

theorem append (first : Transitions step initial actions middle)
    (second : Transitions step middle more final) :
    Transitions step initial (actions ++ more) final := by
  induction first with
  | nil => exact second
  | cons early _ induction => exact .cons early (induction second)

theorem invariant (holds : σ → Prop)
    (keeps : ∀ current action next, holds current → step current action next → holds next)
    (transitions : Transitions step initial actions final) (initially : holds initial) :
    holds final := by
  induction transitions with
  | nil => exact initially
  | cons first _ induction => exact induction (keeps _ _ _ initially first)

/-- The steps of a run start in states in which an invariant holds. -/
theorem strengthen (holds : σ → Prop)
    (keeps : ∀ current action next, holds current → step current action next → holds next)
    (transitions : Transitions step initial actions final) (initially : holds initial) :
    Transitions (fun current action next => holds current ∧ step current action next) initial
      actions final := by
  induction transitions with
  | nil => exact .nil _
  | cons first _ induction =>
      exact .cons ⟨initially, first⟩ (induction (keeps _ _ _ initially first))

/-- An invariant whose count falls by one in every step counts the steps that
are left. -/
theorem countdown {holds : Nat → σ → Prop}
    (keeps : ∀ left current action next, holds left current → step current action next →
      ∃ rest, left = rest + 1 ∧ holds rest next)
    (transitions : Transitions step initial actions final) (initially : holds total initial) :
    ∃ rest, total = rest + actions.length ∧ holds rest final := by
  induction transitions generalizing total with
  | nil => exact ⟨total, rfl, initially⟩
  | cons first _ induction =>
      rcases keeps _ _ _ _ initially first with ⟨left, total_eq, next⟩
      rcases induction next with ⟨rest, left_eq, reached⟩
      refine ⟨rest, ?_, reached⟩
      simp only [List.length_cons]
      omega

/-- When runs are bounded in length, one of them cannot be continued. -/
theorem exists_maximal
    (bounded : ∀ actions final, Transitions step initial actions final → actions.length ≤ bound) :
    ∃ actions final, Transitions step initial actions final ∧
      ∀ action next, ¬step final action next := by
  by_contra continued
  have longer : ∀ length, ∃ actions final, Transitions step initial actions final ∧
      actions.length = length := by
    intro length
    induction length with
    | zero => exact ⟨[], initial, .nil _, rfl⟩
    | succ length induction =>
        rcases induction with ⟨actions, final, run, counted⟩
        have goes : ∃ action next, step final action next := by
          by_contra stuck
          exact continued ⟨actions, final, run, fun action next steps =>
            stuck ⟨action, next, steps⟩⟩
        rcases goes with ⟨action, next, steps⟩
        exact ⟨actions ++ [action], next, run.append (.cons steps (.nil _)), by simp [counted]⟩
  rcases longer (bound + 1) with ⟨actions, final, run, counted⟩
  have := bounded actions final run
  omega

end Transitions

end PizzaChain
