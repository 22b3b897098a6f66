import Mathlib.Algebra.Group.Nat.Defs
import Mathlib.Data.List.Basic

/-!
# Counted loops on a fixed-width counter

`for (c = start; c <= stop; c++)` with an unsigned `w`-bit counter runs forever exactly when it
is entered with `stop` the largest counter value: the increment then wraps to zero and the test
keeps holding. `span` is the trace of such a loop, `none` when it does not terminate, and
`forLe_eq_span` connects it with the loop run test by test.
-/

namespace Slash.Lib

variable {w : Nat}

/-- The counter values the loop body sees, or `none` once `fuel` tests were not enough. -/
def forLe : Nat → BitVec w → BitVec w → Option (List Nat)
  | 0, _, _ => none
  | fuel + 1, c, stop =>
    if c ≤ stop then (forLe fuel (c + 1) stop).map (c.toNat :: ·) else some []

/-- The counter values the loop body sees, or `none` when the loop does not terminate. -/
def span (start stop : BitVec w) : Option (List Nat) :=
  if start ≤ stop ∧ stop.toNat + 1 = 2 ^ w then none
  else some (List.range' start.toNat (stop.toNat + 1 - start.toNat))

theorem forLe_of_last {stop : BitVec w} (hlast : stop.toNat + 1 = 2 ^ w) :
    ∀ (fuel : Nat) (c : BitVec w), forLe fuel c stop = none
  | 0, _ => rfl
  | fuel + 1, c => by
    have hle : c ≤ stop := by
      rw [BitVec.le_def]
      have := c.isLt
      omega
    have ih : forLe fuel (c + 1#w) stop = none := forLe_of_last hlast fuel (c + 1#w)
    simp [forLe, hle, ih]

theorem forLe_of_lt {stop : BitVec w} (hlast : stop.toNat + 1 < 2 ^ w) :
    ∀ (fuel : Nat) (c : BitVec w), stop.toNat + 1 - c.toNat < fuel →
      forLe fuel c stop = some (List.range' c.toNat (stop.toNat + 1 - c.toNat))
  | 0, _, h => absurd h (by omega)
  | fuel + 1, c, h => by
    by_cases hle : c ≤ stop
    · have hn : c.toNat ≤ stop.toNat := BitVec.le_def.mp hle
      have h1 : (1 : BitVec w).toNat = 1 := by
        have : 1 < 2 ^ w := by omega
        simp [BitVec.toNat_ofNat, Nat.mod_eq_of_lt this]
      have hnext : (c + 1).toNat = c.toNat + 1 := by
        rw [BitVec.toNat_add, h1]
        exact Nat.mod_eq_of_lt (by omega)
      have ih := forLe_of_lt hlast fuel (c + 1) (by omega)
      have hlen : stop.toNat + 1 - c.toNat = (stop.toNat + 1 - (c + 1).toNat) + 1 := by omega
      simp only [forLe, hle, if_true, ih, Option.map_some, hlen, List.range'_succ, hnext]
    · have hn : stop.toNat < c.toNat := by
        rw [BitVec.le_def] at hle
        omega
      have hlen : stop.toNat + 1 - c.toNat = 0 := by omega
      simp [forLe, hle, hlen]

/-- With one test more than there are counter values, the loop run test by test does what
`span` says. -/
theorem forLe_eq_span (start stop : BitVec w) :
    forLe (2 ^ w + 1) start stop = span start stop := by
  have hs := stop.isLt
  by_cases hlast : stop.toNat + 1 = 2 ^ w
  · have hle : start ≤ stop := by
      rw [BitVec.le_def]
      have := start.isLt
      omega
    rw [forLe_of_last hlast, span, if_pos ⟨hle, hlast⟩]
  · rw [forLe_of_lt (by omega) _ _ (by omega), span, if_neg (fun h => hlast h.2)]

theorem mem_of_span {start stop : BitVec w} {l : List Nat} (h : span start stop = some l)
    (n : Nat) : n ∈ l ↔ start.toNat ≤ n ∧ n ≤ stop.toNat := by
  rw [span] at h
  split at h
  · cases h
  · cases h
    rw [List.mem_range'_1]
    omega

end Slash.Lib
