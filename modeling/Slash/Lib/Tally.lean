import Mathlib.Logic.Function.Basic

/-!
# Counters as tallies

A counter that several parties move is the sum of a weight over the parties. When one party
changes, the sum changes by the difference of its weights.
-/

namespace Slash.Lib

variable {σ : Type}

/-- The sum of `f` below `n`. -/
def tally (f : Nat → Nat) : Nat → Nat
  | 0 => 0
  | n + 1 => tally f n + f n

theorem tally_congr {f g : Nat → Nat} : ∀ {n : Nat}, (∀ i < n, f i = g i) → tally f n = tally g n
  | 0, _ => rfl
  | n + 1, h => by
    rw [tally, tally, tally_congr fun i hi => h i (Nat.lt_succ_of_lt hi), h n (Nat.lt_succ_self n)]

theorem tally_const (a n : Nat) : tally (fun _ => a) n = n * a := by
  induction n with
  | zero => rw [tally, Nat.zero_mul]
  | succ n ih => rw [tally, ih, Nat.succ_mul]

theorem le_tally (f : Nat → Nat) : ∀ {n i : Nat}, i < n → f i ≤ tally f n
  | n + 1, i, h => by
    rw [tally]
    by_cases hi : i = n
    · rw [hi]; exact Nat.le_add_left _ _
    · exact Nat.le_add_right_of_le (le_tally f (by omega))

/-- Giving cell `i` the value `a` trades its old weight for the new one. -/
theorem tally_update (w : σ → Nat) (f : Nat → σ) (a : σ) {i : Nat} : ∀ {n : Nat}, i < n →
    tally (fun j => w (Function.update f i a j)) n + w (f i) = tally (fun j => w (f j)) n + w a
  | n + 1, h => by
    rw [tally, tally]
    by_cases hi : i = n
    · subst hi
      have : tally (fun j => w (Function.update f i a j)) i = tally (fun j => w (f j)) i :=
        tally_congr fun j hj => by rw [Function.update_of_ne (Nat.ne_of_lt hj)]
      rw [this, Function.update_self]
      omega
    · have ih := tally_update w f a (show i < n by omega)
      rw [Function.update_of_ne (Ne.symm hi)]
      omega

end Slash.Lib
