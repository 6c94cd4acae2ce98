import Mathlib.Tactic

/-!
# Guarded runs of a transition function

A system is a partial transition function.  A run takes steps that all meet a guard, and a property
that every guarded step preserves holds in each state of each run.
-/

namespace Transition

variable {σ ι : Type} (step : σ → ι → Option σ) (guard : σ → ι → Prop)

/-- The states reached from `start` by steps that meet `guard`. -/
inductive Reaches (start : σ) : σ → Prop
  | start : Reaches start start
  | step {state next : σ} {label : ι} (run : Reaches start state) (allowed : guard state label)
      (taken : step state label = some next) : Reaches start next

variable {step guard} {start : σ}

/-- The invariant rule: what holds at the start and is kept by every guarded step holds in every
state of a run. -/
theorem Reaches.invariant (inv : σ → Prop) (initially : inv start)
    (kept : ∀ {state next label}, inv state → guard state label →
      step state label = some next → inv next)
    {state : σ} (run : Reaches step guard start state) : inv state := by
  induction run with
  | start => exact initially
  | step run allowed taken ih => exact kept ih allowed taken

/-- A run under a guard is a run under any weaker one. -/
theorem Reaches.mono {weaker : σ → ι → Prop}
    (weaken : ∀ state label, guard state label → weaker state label)
    {state : σ} (run : Reaches step guard start state) : Reaches step weaker start state := by
  induction run with
  | start => exact .start
  | step run allowed taken ih => exact .step ih (weaken _ _ allowed) taken

theorem Reaches.trans {middle last : σ} (front : Reaches step guard start middle)
    (back : Reaches step guard middle last) : Reaches step guard start last := by
  induction back with
  | start => exact front
  | step run allowed taken ih => exact .step ih allowed taken

variable (step guard)

/-- Take the steps of a list one after the other, as long as each meets the guard. -/
def play [∀ state label, Decidable (guard state label)] : σ → List ι → Option σ
  | state, [] => some state
  | state, label :: labels =>
      if guard state label then (step state label).bind fun next => play next labels else none

variable {step guard}

theorem reaches_of_play [∀ state label, Decidable (guard state label)] {labels : List ι}
    {start last : σ} (played : play step guard start labels = some last) :
    Reaches step guard start last := by
  induction labels generalizing start with
  | nil =>
      obtain rfl : start = last := by simpa [play] using played
      exact .start
  | cons label labels ih =>
      by_cases allowed : guard start label
      · obtain ⟨next, taken, rest⟩ : ∃ next, step start label = some next ∧
            play step guard next labels = some last := by
          simpa [play, allowed, Option.bind_eq_some_iff] using played
        exact (Reaches.step .start allowed taken).trans (ih rest)
      · simp [play, allowed] at played

end Transition
