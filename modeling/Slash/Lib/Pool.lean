import Mathlib.Data.List.Count
import Mathlib.Data.List.Nodup
import Slash.Lib.Update

/-!
# Pools with reservation counts

A pool of `size` slots keeps the number of reservations of every slot. `alloc` takes the lowest
slot without one; `reserve` and `release` move the count of a given slot and ignore a slot beyond
the pool.
-/

namespace Slash.Lib

open List
namespace Pool

variable {size : Nat} {r : Nat → Nat}

/-- The lowest slot without a reservation, now reserved. -/
def alloc (size : Nat) (r : Nat → Nat) : Option (Nat × (Nat → Nat)) :=
  ((List.range size).find? fun k => r k == 0).map fun k => (k, upd r k 1)

def reserve (size : Nat) (r : Nat → Nat) (k : Nat) : Nat → Nat :=
  if k < size then upd r k (r k + 1) else r

def release (size : Nat) (r : Nat → Nat) (k : Nat) : Nat → Nat :=
  if k < size ∧ 0 < r k then upd r k (r k - 1) else r

theorem alloc_eq_some {k : Nat} {r' : Nat → Nat} (h : alloc size r = some (k, r')) :
    k < size ∧ r k = 0 ∧ r' = upd r k 1 := by
  obtain ⟨k', hfind, heq⟩ := Option.map_eq_some_iff.1 h
  obtain ⟨rfl, rfl⟩ := Prod.mk.inj heq
  have hfree := List.find?_some hfind
  exact ⟨mem_range.1 (mem_of_find?_eq_some hfind), eq_of_beq hfree, rfl⟩

def free (size : Nat) (r : Nat → Nat) : Nat := (List.range size).countP fun k => r k == 0

theorem alloc_isSome (h : 0 < free size r) : ∃ k r', alloc size r = some (k, r') := by
  obtain ⟨k, hk, hfree⟩ := countP_pos_iff.1 h
  have hsome : ((List.range size).find? fun k => r k == 0).isSome :=
    List.find?_isSome.2 ⟨k, hk, hfree⟩
  obtain ⟨k', hk'⟩ := Option.isSome_iff_exists.1 hsome
  exact ⟨k', upd r k' 1, by rw [alloc, hk']; rfl⟩

theorem free_upd {k : Nat} (hk : k < size) (hfree : r k = 0) :
    free size (upd r k 1) + 1 = free size r := by
  have hsplit : ∀ l : List Nat, l.Nodup →
      (l.countP fun j => upd r k 1 j == 0) + (if k ∈ l then 1 else 0) =
        l.countP fun j => r j == 0 := by
    intro l
    induction l with
    | nil => intro _; rfl
    | cons x l ih =>
      intro hnodup
      obtain ⟨hx, hl⟩ := nodup_cons.1 hnodup
      specialize ih hl
      rw [countP_cons, countP_cons, ← ih]
      by_cases hxk : x = k
      · subst hxk
        simp [hx, hfree]
      · have hmem : k ∈ x :: l ↔ k ∈ l := by simp [Ne.symm hxk]
        rw [upd_ne r 1 hxk]
        simp only [hmem]
        omega
  have h := hsplit _ (nodup_range (n := size))
  rwa [if_pos (mem_range.2 hk)] at h

theorem reserve_apply (k j : Nat) :
    reserve size r k j = r j + if j = k ∧ k < size then 1 else 0 := by
  unfold reserve
  split
  · rename_i hk
    rw [upd_apply]
    by_cases hj : j = k
    · rw [if_pos hj, if_pos ⟨hj, hk⟩, hj]
    · rw [if_neg hj, if_neg fun h => hj h.1, Nat.add_zero]
  · rename_i hk
    rw [if_neg fun h => hk h.2, Nat.add_zero]

/-- Releasing what the counts hold lowers them by it. -/
theorem foldl_release (ks : List Nat) (hks : ∀ j, j < size → ks.count j ≤ r j) (j : Nat) :
    ks.foldl (release size) r j = r j - if j < size then ks.count j else 0 := by
  induction ks generalizing r with
  | nil => simp
  | cons k ks ih =>
    rw [foldl_cons]
    by_cases hk : k < size
    · have hpos : 0 < r k := by
        have h := hks k hk
        rw [count_cons_self] at h
        omega
      have hstep : release size r k = upd r k (r k - 1) := if_pos ⟨hk, hpos⟩
      rw [hstep, ih]
      · rw [upd_apply]
        by_cases hj : j = k
        · subst hj
          rw [if_pos rfl, if_pos hk, if_pos hk, count_cons_self]
          omega
        · rw [if_neg hj, count_cons_of_ne (Ne.symm hj)]
      · intro i hi
        have h := hks i hi
        rw [upd_apply]
        by_cases hik : i = k
        · subst hik
          rw [count_cons_self] at h
          rw [if_pos rfl]
          omega
        · rw [count_cons_of_ne (Ne.symm hik)] at h
          rw [if_neg hik]
          exact h
    · have hstep : release size r k = r := if_neg fun h => hk h.1
      have hcount : ∀ i, i < size → (k :: ks).count i = ks.count i := by
        intro i hi
        refine count_cons_of_ne ?_
        rintro rfl
        exact hk hi
      rw [hstep, ih fun i hi => by rw [← hcount i hi]; exact hks i hi]
      split
      · rename_i hj
        rw [hcount j hj]
      · rfl

end Pool
end Slash.Lib
