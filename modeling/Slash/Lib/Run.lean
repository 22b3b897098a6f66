import Mathlib.Data.List.Basic
import Mathlib.Data.List.Induction

/-!
# Runs of a deterministic step function

A system here is a step function `step : σ → α → σ`: the scheduler, the host and the hardware
choose the actions `α`, so quantifying over every action list is quantifying over every
interleaving. `runFrom` is the state an action list leads to; `Along` says that each step of
it meets a condition on the state before the step and the action taken.

`Along` is what an assumption on a run looks like. A safety property is never stated with it:
it is an invariant of `runFrom`, and the rules below get it from one step.
-/

namespace Slash.Lib

variable {σ α : Type}

/-- The state reached from `s` by taking `acts` in order. -/
def runFrom (step : σ → α → σ) (s : σ) (acts : List α) : σ :=
  acts.foldl step s

@[simp] theorem runFrom_nil (step : σ → α → σ) (s : σ) : runFrom step s [] = s := rfl

@[simp] theorem runFrom_cons (step : σ → α → σ) (s : σ) (a : α) (as : List α) :
    runFrom step s (a :: as) = runFrom step (step s a) as := rfl

theorem runFrom_append (step : σ → α → σ) (s : σ) (as bs : List α) :
    runFrom step s (as ++ bs) = runFrom step (runFrom step s as) bs :=
  List.foldl_append

/-- Each step of the run from `s` along `acts` meets `P`. -/
def Along (step : σ → α → σ) (P : σ → α → Prop) : σ → List α → Prop
  | _, [] => True
  | s, a :: as => P s a ∧ Along step P (step s a) as

instance Along.decidable (step : σ → α → σ) (P : σ → α → Prop) [∀ s a, Decidable (P s a)] :
    ∀ (s : σ) (acts : List α), Decidable (Along step P s acts)
  | _, [] => isTrue trivial
  | s, a :: as =>
    have := Along.decidable step P (step s a) as
    inferInstanceAs (Decidable (P s a ∧ Along step P (step s a) as))

variable {step : σ → α → σ}

theorem Along.mono {P Q : σ → α → Prop} (hpq : ∀ s a, P s a → Q s a) :
    ∀ {s : σ} {acts : List α}, Along step P s acts → Along step Q s acts
  | _, [], _ => trivial
  | _, _ :: _, h => ⟨hpq _ _ h.1, Along.mono hpq h.2⟩

theorem Along.snoc {P : σ → α → Prop} {a : α} :
    ∀ {s : σ} {acts : List α}, Along step P s acts → P (runFrom step s acts) a →
      Along step P s (acts ++ [a])
  | _, [], _, ha => ⟨ha, trivial⟩
  | _, _ :: _, h, ha => ⟨h.1, Along.snoc h.2 ha⟩

theorem along_true :
    ∀ (s : σ) (acts : List α), Along step (fun _ _ => True) s acts
  | _, [] => trivial
  | s, a :: as => ⟨trivial, along_true (step s a) as⟩

/-- The invariant rule under an assumption on the run: what one admissible step keeps, every
admissible run keeps. -/
theorem Along.invariant {P : σ → α → Prop} {I : σ → Prop}
    (hstep : ∀ s a, P s a → I s → I (step s a)) :
    ∀ {s : σ} {acts : List α}, Along step P s acts → I s → I (runFrom step s acts)
  | _, [], _, hi => hi
  | s, a :: _, h, hi => Along.invariant (s := step s a) hstep h.2 (hstep s a h.1 hi)

/-- The invariant rule for every run. -/
theorem runFrom_invariant {I : σ → Prop} (hstep : ∀ s a, I s → I (step s a)) {s : σ}
    (acts : List α) (hi : I s) :
    I (runFrom step s acts) :=
  Along.invariant (P := fun _ _ => True) (fun s a _ h => hstep s a h) (along_true s acts) hi

end Slash.Lib
